import Stowage.Json.Printer
import Stowage.Proofs.Json.Numeral
import Stowage.Proofs.Number.Shortest
/-!
# Stowage — numerals that are printed

The text of a number is a numeral (`Number.numeral`, `Number.text_numeral`). It stands for the number, if
that is whole, and for the shortest decimal of a binary64 number, whatever the layout
(`Number.value_numeral`). A whole number of 64 bits is read back from it (`Number.IsWhole.reread`).
-/

namespace Stowage.Json

/-! ## Digits that are printed

Digits are printed in front of the point, behind it, and as zeros that fill up the places between. All
of them count in the same way. -/

/-- A number is printed with digits. -/
theorem allDigits_digitBytes (n : Nat) : AllDigits (digitBytes n) := by
  induction n using digit_induction with
  | single n hn =>
    intro b hb
    rw [digitBytes_of_lt hn, List.mem_singleton] at hb
    exact hb ▸ isDigit_ofNat hn
  | more n hn ih =>
    intro b hb
    rw [digitBytes_of_le hn, List.mem_append, List.mem_singleton] at hb
    rcases hb with hb | rfl
    · exact ih b hb
    · exact isDigit_ofNat (Nat.mod_lt n (by decide))

theorem digitBytes_ne_nil (n : Nat) : digitBytes n ≠ [] := by
  obtain ⟨d, more, -, heq, -⟩ := digitBytes_eq_cons n
  rw [heq]
  exact List.cons_ne_nil _ _

/-- No leading zero is printed. -/
theorem leading_digitBytes {n : Nat} {more : Bytes} (h : digitBytes n = 48 :: more) : more = [] := by
  obtain ⟨d, others, hd, heq, hzero, hnil⟩ := digitBytes_eq_cons n
  rw [heq] at h
  obtain ⟨hfirst, rfl⟩ := List.cons.inj h
  refine hnil (hzero ?_)
  rw [Utf8.ofNat_eq (by omega)] at hfirst
  have h48 : d + 48 = 48 := hfirst
  omega

theorem allDigits_zeros (n : Nat) : AllDigits (List.replicate n 48) := by
  intro b hb
  rw [List.eq_of_mem_replicate hb]
  decide

theorem digitsOnto_zeros (start k : Nat) :
    digitsOnto start (List.replicate k 48) = start * 10 ^ k := by
  induction k generalizing start with
  | zero => exact (Nat.mul_one start).symm
  | succ k ih =>
    show digitsOnto (start * 10 + digitValue 48) (List.replicate k 48) = start * 10 ^ (k + 1)
    rw [ih, show digitValue 48 = 0 by decide, Nat.add_zero, Nat.pow_succ', Nat.mul_assoc]

/-- Zeros in front of a number do not count. -/
theorem digitsOnto_zeros_append (k : Nat) (ds : Bytes) :
    digitsOnto 0 (List.replicate k 48 ++ ds) = digitsOnto 0 ds := by
  rw [digitsOnto_append, digitsOnto_zeros, Nat.zero_mul]

/-! ## Decimals

A layout moves the point and may split off a power of ten. It does so in four ways, and each of them
gives the digits back in the same order, so the value stays. -/

/-- A power of ten that is printed. -/
def Power.ofInt (plus : Bool) (e : Int) : Power :=
  ⟨101, if 0 ≤ e then (if plus then [43] else []) else [45], digitBytes e.natAbs⟩

/-- A printed exponent has a digit at least. -/
theorem Power.wellFormed_ofInt (plus : Bool) (e : Int) : (Power.ofInt plus e).WellFormed := by
  refine ⟨.inl rfl, ?_, digitBytes_ne_nil _, allDigits_digitBytes _⟩
  rw [ofInt]
  split
  · cases plus
    · exact .inl rfl
    · exact .inr (.inl rfl)
  · exact .inr (.inr rfl)

/-- An exponent is printed behind an `e`, with a plus sign if the layout has one. -/
theorem Power.text_ofInt (plus : Bool) (e : Int) : Power.text (some (.ofInt plus e)) =
    utf8 "e" ++ (utf8 (if plus ∧ 0 ≤ e then "+" else "") ++ utf8 (toString e)) := by
  rw [utf8_toString_int, text, ofInt]
  have hmark : utf8 "e" = [101] := by decide
  have hplus : utf8 "+" = [43] := by decide
  have hnone : utf8 "" = [] := by decide
  by_cases hsign : 0 ≤ e
  · have hdigits : e.natAbs = e.toNat := by omega
    cases plus <;> simp [hsign, hdigits, hmark, hplus, hnone]
  · have hdigits : e.natAbs = (-e).toNat := by omega
    simp [hsign, hdigits, hmark, hnone]

theorem Power.exponent_ofInt (plus : Bool) (e : Int) : Power.exponent (some (.ofInt plus e)) = e := by
  have hsign : (Power.ofInt plus e).sign = [45] ↔ ¬ 0 ≤ e := by
    rw [ofInt]
    by_cases h : 0 ≤ e <;> cases plus <;> simp [h]
  rw [exponent, show (Power.ofInt plus e).digits = digitBytes e.natAbs from rfl, digitsOnto_digitBytes]
  split
  · next h =>
    have := hsign.mp h
    omega
  · next h =>
    have := mt hsign.mpr h
    omega

/-- A decimal as a layout writes it. -/
def Numeral.ofDecimal (layout : Layout) (negative : Bool) (d : Decimal) : Numeral :=
  let digits := digitBytes d.digits
  let point : Int := digits.length + d.exponent
  if layout.positionalFrom ≤ point ∧ point ≤ layout.positionalTo then
    if 0 ≤ d.exponent then ⟨negative, digits ++ List.replicate d.exponent.toNat 48, [48], none⟩
    else if 0 < point then ⟨negative, digits.take point.toNat, digits.drop point.toNat, none⟩
    else ⟨negative, [48], List.replicate (-point).toNat 48 ++ digits, none⟩
  else ⟨negative, digits.take 1, digits.drop 1, some (.ofInt layout.plus (point - 1))⟩

theorem Numeral.negative_ofDecimal (layout : Layout) (negative : Bool) (d : Decimal) :
    (Numeral.ofDecimal layout negative d).negative = negative := by
  simp only [ofDecimal]
  split
  · split
    · rfl
    · split <;> rfl
  · rfl

/-- The cases are those of the layout: the point stands behind the digits, between them or in front of
them, or there is an exponent. -/
theorem Numeral.wellFormed_ofDecimal (layout : Layout) (negative : Bool) {d : Decimal}
    (h : d.digits ≠ 0) : (Numeral.ofDecimal layout negative d).WellFormed := by
  have hdigits := allDigits_digitBytes d.digits
  have hfirst : ∀ more, digitBytes d.digits ≠ 48 :: more := by
    intro more heq
    obtain rfl := leading_digitBytes heq
    have hvalue := digitsOnto_digitBytes d.digits
    rw [heq] at hvalue
    exact h hvalue.symm
  have hne := digitBytes_ne_nil d.digits
  simp only [ofDecimal]
  generalize digitBytes d.digits = ds at hdigits hfirst hne
  obtain ⟨b, more, rfl⟩ := List.exists_cons_of_ne_nil hne
  -- digits from the front of the others start as they do
  have hlead : ∀ {k : Nat} {others : Bytes}, (b :: more).take (k + 1) ≠ 48 :: others := by
    intro k others heq
    exact hfirst more (by rw [(List.cons.inj heq).1])
  split
  -- zeros behind the digits, a point among them, or zeros in front of them
  · split
    · exact ⟨List.cons_ne_nil _ _, hdigits.append (allDigits_zeros _),
        fun others heq => absurd (by rw [(List.cons.inj heq).1]) (hfirst more), allDigits_zeros 1, nofun⟩
    · split
      · next hpoint =>
        obtain ⟨k, hk⟩ : ∃ k, (((b :: more).length : Int) + d.exponent).toNat = k + 1 :=
          ⟨(((b :: more).length : Int) + d.exponent).toNat - 1, by omega⟩
        rw [hk]
        exact ⟨List.cons_ne_nil _ _, fun c hc => hdigits c (List.mem_of_mem_take hc),
          fun others heq => absurd heq hlead, fun c hc => hdigits c (List.mem_of_mem_drop hc), nofun⟩
      · exact ⟨List.cons_ne_nil _ _, allDigits_zeros 1, fun others heq => (List.cons.inj heq).2.symm,
          (allDigits_zeros _).append hdigits, nofun⟩
  -- one digit in front of the point, and a power of ten
  · refine ⟨List.cons_ne_nil _ _, fun c hc => hdigits c (List.mem_of_mem_take hc),
      fun others heq => absurd heq hlead, fun c hc => hdigits c (List.mem_of_mem_drop hc), ?_⟩
    rintro p hp
    cases hp
    exact Power.wellFormed_ofInt _ _

theorem utf8_ofList (cs : List Char) : utf8 (String.ofList cs) = Utf8.encode cs := by
  rw [utf8, String.toList_ofList]

theorem Numeral.pointed_of_ne_nil {ds : Bytes} (h : ds ≠ []) : pointed ds = 46 :: ds := by
  obtain ⟨d, ds, rfl⟩ := List.exists_cons_of_ne_nil h
  rfl

theorem utf8_digits {cs : List Char} (h : ∀ c ∈ cs, c.isDigit = true) :
    utf8 (String.ofList cs) = cs.map fun c => UInt8.ofNat c.toNat := by
  rw [utf8_ofList, encode_digits h]

theorem utf8_zeros (k : Nat) : utf8 (String.ofList (List.replicate k '0')) = List.replicate k 48 := by
  rw [utf8_digits, List.map_replicate]
  · rfl
  · intro c hc
    rw [List.eq_of_mem_replicate hc]
    decide

/-- **What a layout writes** is a numeral. The cases are those of the layout, once more. -/
theorem Numeral.unsigned_ofDecimal (layout : Layout) (negative : Bool) (d : Decimal) :
    (Numeral.ofDecimal layout negative d).unsigned = utf8 (layout.write d) := by
  have hdigits := @isDigit_of_mem_toDigits d.digits
  have hne : Nat.toDigits 10 d.digits ≠ [] := Nat.toDigits_ne_nil
  have hpoint : utf8 "." = [46] := by decide
  unfold Numeral.ofDecimal Layout.write digitBytes
  generalize Nat.toDigits 10 d.digits = cs at hdigits hne
  simp only [List.length_map]
  generalize hplace : ((cs.length : Int) + d.exponent) = point
  have hmap : cs.map (fun c => UInt8.ofNat c.toNat) ≠ [] := fun h => hne (List.map_eq_nil_iff.mp h)
  -- the same cases as those of the layout
  split
  · split
    · have hzeros : utf8 ".0" = [46, 48] := by decide
      rw [unsigned, utf8_append, String.ofList_append, utf8_append, utf8_digits hdigits, utf8_zeros, hzeros]
      rfl
    · split
      · have hdrop : (cs.map fun c => UInt8.ofNat c.toNat).drop point.toNat ≠ [] := by
          rw [Ne, List.drop_eq_nil_iff, List.length_map]
          omega
        rw [unsigned, pointed_of_ne_nil hdrop, utf8_append, utf8_append, hpoint,
          utf8_digits fun c hc => hdigits c (List.mem_of_mem_take hc),
          utf8_digits fun c hc => hdigits c (List.mem_of_mem_drop hc), List.map_take, List.map_drop,
          Power.text, List.append_nil, List.append_assoc]
        rfl
      · have hplaces : List.replicate (-point).toNat 48 ++ cs.map (fun c => UInt8.ofNat c.toNat) ≠ [] :=
          fun h => hmap (List.append_eq_nil_iff.mp h).2
        have hzero : utf8 "0." = [48, 46] := by decide
        rw [unsigned, pointed_of_ne_nil hplaces, utf8_append, String.ofList_append, utf8_append,
          utf8_digits hdigits, utf8_zeros, hzero, Power.text, List.append_nil]
        rfl
  · rw [unsigned, Power.text_ofInt, utf8_append, utf8_append, utf8_append, ← List.append_assoc,
      ← List.append_assoc, ← List.append_assoc]
    obtain ⟨c, rest, rfl⟩ := List.exists_cons_of_ne_nil hne
    congr 3
    -- without more digits there is no point
    cases rest with
    | nil => exact (utf8_digits hdigits).symm
    | cons e rest =>
      have hsplit : String.ofList (c :: '.' :: e :: rest) =
          String.ofList [c] ++ "." ++ String.ofList (e :: rest) := by
        rw [show "." = String.ofList ['.'] from rfl, ← String.ofList_append, ← String.ofList_append]
        rfl
      have hfirst : ∀ b ∈ [c], b.isDigit = true := by
        intro b hb
        rw [List.mem_singleton.mp hb]
        exact hdigits c (List.mem_cons_self ..)
      show _ = utf8 (String.ofList (c :: '.' :: e :: rest))
      rw [hsplit, utf8_append, utf8_append, hpoint, utf8_digits hfirst,
        utf8_digits fun b hb => hdigits b (List.mem_cons_of_mem c hb)]
      rfl

/-- A layout keeps the digits of a decimal and what they count, but for zeros in front of the point, which
become digits. -/
theorem Numeral.ofDecimal_cases (layout : Layout) (negative : Bool) (d : Decimal) :
    ((ofDecimal layout negative d).digits = d.digits ∧
        (ofDecimal layout negative d).exponent = d.exponent) ∨
      (0 ≤ d.exponent ∧ (digitBytes d.digits).length + d.exponent ≤ layout.positionalTo ∧
        (ofDecimal layout negative d).digits = d.digits * 10 ^ (d.exponent.toNat + 1) ∧
        (ofDecimal layout negative d).exponent = -1) := by
  have hvalue := digitsOnto_digitBytes d.digits
  have hlength := List.length_pos_iff.mpr (digitBytes_ne_nil d.digits)
  simp only [ofDecimal]
  generalize digitBytes d.digits = ds at hvalue hlength
  generalize hplace : ((ds.length : Int) + d.exponent) = point
  -- only where zeros are put behind the digits does their number change
  split
  · next hposition =>
    split
    · next hsign =>
      refine .inr ⟨hsign, hposition.2, ?_, rfl⟩
      show digitsOnto 0 (ds ++ List.replicate d.exponent.toNat 48 ++ List.replicate 1 48) = _
      rw [List.append_assoc, List.replicate_append_replicate, digitsOnto_append, hvalue, digitsOnto_zeros]
    · split
      · refine .inl ⟨?_, ?_⟩
        · rw [digits, List.take_append_drop, hvalue]
        · rw [exponent, Power.exponent, List.length_drop]
          omega
      · refine .inl ⟨?_, ?_⟩
        · show digitsOnto 0 (List.replicate 1 48 ++ (List.replicate (-point).toNat 48 ++ ds)) = _
          rw [digitsOnto_zeros_append, digitsOnto_zeros_append, hvalue]
        · rw [exponent, Power.exponent, List.length_append, List.length_replicate]
          omega
  · refine .inl ⟨?_, ?_⟩
    · rw [digits, List.take_append_drop, hvalue]
    · rw [exponent, Power.exponent_ofInt, List.length_drop]
      omega

/-- A decimal is written with a fraction, an exponent or both. -/
theorem Numeral.real_ofDecimal (layout : Layout) (negative : Bool) (d : Decimal) :
    (ofDecimal layout negative d).places ≠ [] ∨ (ofDecimal layout negative d).power ≠ none := by
  simp only [ofDecimal]
  split
  · split
    · exact .inl (List.cons_ne_nil _ _)
    · split
      · refine .inl fun h => ?_
        rw [List.drop_eq_nil_iff] at h
        omega
      · exact .inl fun h => digitBytes_ne_nil _ (List.append_eq_nil_iff.mp h).2
  · exact .inr (Option.some_ne_none _)

/-- **The value** of a decimal does not depend on how it is written. -/
theorem Numeral.value_ofDecimal (layout : Layout) (negative : Bool) (d : Decimal) :
    (ofDecimal layout negative d).value = (if negative then -1 else 1) * d.value := by
  rw [value, negative_ofDecimal, Decimal.value, mul_assoc]
  congr 1
  rcases ofDecimal_cases layout negative d with ⟨hdigits, hexponent⟩ | ⟨hsign, -, hdigits, hexponent⟩
  · rw [hdigits, hexponent]
  · obtain ⟨k, hk⟩ := Int.eq_ofNat_of_zero_le hsign
    rw [hdigits, hexponent, hk, Int.toNat_natCast, Nat.cast_mul, mul_assoc]
    congr 1
    push_cast
    rw [zpow_natCast, pow_succ, mul_assoc]
    norm_num

/-! ## Numbers

A whole number is printed as its digits, any other number as the shortest decimal in a layout. Both are
numerals, so what is known of reading a numeral can be used for printed numbers. -/

/-- The numeral that a number is printed as. -/
def Number.numeral : Number → Numeral
  | .int i => ⟨i < 0, digitBytes i.natAbs, [], none⟩
  | .real x =>
    if x.units = 0 then ⟨x.negative, [48], [48], none⟩
    else .ofDecimal layout x.negative (Shortest.ofUnits x.units)

theorem Number.wellFormed_numeral (n : Number) : n.numeral.WellFormed := by
  cases n with
  | int i =>
    exact ⟨digitBytes_ne_nil _, allDigits_digitBytes _, fun _ => leading_digitBytes, allDigits_nil, nofun⟩
  | real x =>
    rw [numeral]
    split
    · exact ⟨List.cons_ne_nil _ _, allDigits_zeros 1, fun more heq => (List.cons.inj heq).2.symm,
        allDigits_zeros 1, nofun⟩
    · next hzero => exact Numeral.wellFormed_ofDecimal _ _ (Shortest.ofUnits_found hzero).ne_zero

/-- A binary64 number is printed so that it is not taken for a whole one. -/
theorem Number.real_numeral (x : Binary64) :
    (numeral (.real x)).places ≠ [] ∨ (numeral (.real x)).power ≠ none := by
  rw [numeral]
  split
  · exact .inl (List.cons_ne_nil _ _)
  · exact Numeral.real_ofDecimal _ _ _

/-- **The text of a number** is that of its numeral. -/
theorem Number.text_numeral (n : Number) : n.numeral.text = utf8 n.text := by
  cases n with
  | int i =>
    have htext : Number.text (.int i) = toString i := rfl
    have hunsigned : (numeral (.int i)).unsigned = digitBytes i.natAbs := by
      rw [numeral, Numeral.unsigned, Numeral.pointed, Power.text, List.append_nil, List.append_nil]
    rw [htext, utf8_toString_int, Numeral.text, hunsigned]
    by_cases hsign : 0 ≤ i
    · rw [if_pos hsign, if_neg (by simp [numeral, hsign]), show i.natAbs = i.toNat by omega]
    · rw [if_neg hsign, if_pos (by simp [numeral]; omega), show i.natAbs = (-i).toNat by omega]
  | real x =>
    have hunsigned : (numeral (.real x)).negative = x.negative ∧ (numeral (.real x)).unsigned =
        utf8 (if x.units = 0 then "0.0" else layout.write (Shortest.ofUnits x.units)) := by
      rw [numeral]
      split
      · exact ⟨rfl, show [48, 46, 48] = utf8 "0.0" by decide⟩
      · exact ⟨Numeral.negative_ofDecimal _ _ _, Numeral.unsigned_ofDecimal _ _ _⟩
    rw [Number.text, Layout.writeBinary64, utf8_append, Numeral.text, hunsigned.1, hunsigned.2]
    cases x.negative <;> rfl

/-- The number that the text of a number stands for: a whole number is kept, and of a binary64 number what
is written is the shortest decimal. -/
def Number.printedValue : Number → ℚ
  | .int i => i
  | .real x => (if x.negative then -1 else 1) * if x.units = 0 then 0 else (Shortest.ofUnits x.units).value

theorem Number.digits_int (i : Int) : (numeral (.int i)).digits = i.natAbs := by
  rw [numeral, Numeral.digits, List.append_nil, digitsOnto_digitBytes]

/-- The numeral of a number stands for what is printed. -/
theorem Number.value_numeral (n : Number) : n.numeral.value = n.printedValue := by
  cases n with
  | int i =>
    have hexponent : (numeral (.int i)).exponent = 0 := rfl
    rw [Numeral.value, digits_int, hexponent, zpow_zero, mul_one, printedValue, Nat.cast_natAbs]
    by_cases hsign : i < 0
    · rw [if_pos (by simp [numeral, hsign]), abs_of_neg hsign]
      push_cast
      ring
    · rw [if_neg (by simp [numeral]; omega), abs_of_nonneg (by omega), one_mul]
  | real x =>
    rw [numeral, printedValue]
    split
    · rw [Numeral.value, show Numeral.digits ⟨x.negative, [48], [48], none⟩ = 0 from rfl, Nat.cast_zero,
        mul_zero, zero_mul]
    · exact Numeral.value_ofDecimal _ _ _

/-- The text of a number starts with a digit or with a minus sign. -/
theorem Number.exists_head (n : Number) :
    ∃ b more, utf8 n.text = b :: more ∧ (isDigit b = true ∨ b = 45) := by
  obtain ⟨d, more, hwhole⟩ := List.exists_cons_of_ne_nil n.wellFormed_numeral.ne_nil
  have hd : isDigit d = true := n.wellFormed_numeral.whole d (hwhole ▸ List.mem_cons_self ..)
  rw [← n.text_numeral, Numeral.text]
  split
  · exact ⟨45, _, rfl, .inr rfl⟩
  · exact ⟨d, _, by rw [Numeral.unsigned, hwhole, List.cons_append], .inl hd⟩

/-! ## Whole numbers -/

/-- A zero keeps its sign when it is printed and read. -/
theorem number?_zero (negative : Bool) :
    (Number.numeral (.real ⟨negative, 0⟩)).number? = some (.real ⟨negative, 0⟩) := by
  have hwell := Number.wellFormed_numeral (.real ⟨negative, 0⟩)
  have hnumeral : Number.numeral (.real ⟨negative, 0⟩) = ⟨negative, [48], [48], none⟩ := by
    rw [Number.numeral, if_pos rfl]
  rw [hnumeral] at hwell ⊢
  rw [Numeral.number?_scaled hwell (.inl (List.cons_ne_nil _ _)) (show 0 < wordLimit by decide) nofun]
  show (scaleOnto 4 (Binary64.ofNat 0) (.negSucc 0)).map _ = _
  rw [ofNat_zero]
  rfl

/-- A whole number is read again as itself. -/
theorem Number.IsWhole.reread {n : Number} (h : n.IsWhole) : n.numeral.number? = some n := by
  cases h with
  | minusZero => exact number?_zero true
  | int i hlow hhigh =>
    have hlimit : wordLimit = 2 * (1 <<< 63) := by decide
    rw [Numeral.number?_whole (wellFormed_numeral _) rfl rfl (by rw [digits_int]; omega), digits_int, ofWhole]
    by_cases hsign : i < 0
    · have hnegative : (numeral (.int i)).negative = true := decide_eq_true hsign
      rw [hnegative, if_neg (by decide), if_pos (by omega)]
      congr 2
      omega
    · have hnegative : (numeral (.int i)).negative = false := decide_eq_false hsign
      rw [hnegative, if_pos (by decide)]
      congr 2
      omega

/-- The text of a number starts with a digit or with a minus sign that a digit follows. -/
inductive Number.Spelled (n : Number) : Bytes → Prop where
  | plain (b : UInt8) (more : Bytes) (hdigit : isDigit b = true)
      (hread : ∀ rest, Delimits rest → unsignedNumber false (b :: (more ++ rest)) = .ok (n, rest)) :
      Spelled n (b :: more)
  | minus (more : Bytes)
      (hread : ∀ rest, Delimits rest → unsignedNumber true (more ++ rest) = .ok (n, rest)) :
      Spelled n (45 :: more)

/-- A whole number is spelled by its text. -/
theorem Number.IsWhole.spelled {n : Number} (h : n.IsWhole) : n.Spelled (utf8 n.text) := by
  have hwell := n.wellFormed_numeral
  -- the reader knows where the number ends because of what follows it
  have hread : ∀ rest, Delimits rest →
      unsignedNumber n.numeral.negative (n.numeral.unsigned ++ rest) = .ok (n, rest) := by
    intro rest hrest
    have hresult := readsAs_numeral hwell rest hrest
    rw [h.reread] at hresult
    exact ok_of_toOption hresult
  obtain ⟨d, more, hwhole⟩ := List.exists_cons_of_ne_nil hwell.ne_nil
  have hd : isDigit d = true := hwell.whole d (hwhole ▸ List.mem_cons_self ..)
  rw [← n.text_numeral, Numeral.text]
  split
  · next hnegative =>
    rw [hnegative] at hread
    exact .minus _ hread
  · next hpositive =>
    rw [Bool.not_eq_true] at hpositive
    rw [hpositive, Numeral.unsigned, hwhole, List.cons_append] at hread
    rw [Numeral.unsigned, hwhole, List.cons_append]
    exact .plain d _ hd hread

end Stowage.Json
