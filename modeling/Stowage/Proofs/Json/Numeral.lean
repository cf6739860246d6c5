import Mathlib.Algebra.Order.Ring.Rat
import Mathlib.Data.List.TakeWhile
import Mathlib.Tactic.Ring
import Stowage.Proofs.Json.Layout
import Stowage.Proofs.Json.Number
/-!
# Stowage — numerals in JSON text

A numeral is a number as it is written: digits, perhaps a point with more digits, perhaps a power of ten,
perhaps a minus sign. What it stands for is a rational number (`Numeral.value`). What it is read as
is a whole number of 64 bits, a binary64 number or nothing (`Numeral.number?`), and does not depend on what
stands behind the numeral (`readsAs_numeral`).
-/

namespace Stowage.Json

/-! ## Digits

Digits in a text are a list of bytes; the number they make is a fold over it. Leading zeros are digits
like any other here, and well-formed numerals rule them out where they are not allowed. -/

/-- Bytes that are all decimal digits. -/
def AllDigits (ds : Bytes) : Prop := ∀ b ∈ ds, isDigit b = true

theorem allDigits_nil : AllDigits [] := fun _ hb => absurd hb List.not_mem_nil

theorem AllDigits.append {ds es : Bytes} (hds : AllDigits ds) (hes : AllDigits es) :
    AllDigits (ds ++ es) := fun b hb => (List.mem_append.mp hb).elim (hds b) (hes b)

theorem AllDigits.tail {d : UInt8} {ds : Bytes} (h : AllDigits (d :: ds)) : AllDigits ds :=
  fun b hb => h b (List.mem_cons_of_mem d hb)

theorem AllDigits.head {d : UInt8} {ds : Bytes} (h : AllDigits (d :: ds)) : isDigit d = true :=
  h d (List.mem_cons_self ..)

/-- Behind digits, the digits that are dropped are these. -/
theorem dropWhile_digits {ds rest : Bytes} (hds : AllDigits ds) (hrest : startsDigit rest = false) :
    (ds ++ rest).dropWhile isDigit = rest := by
  rw [List.dropWhile_append_of_pos hds]
  cases rest with
  | nil => rfl
  | cons b rest =>
    have hdigit : isDigit b = false := hrest
    rw [List.dropWhile_cons, if_neg (by rw [hdigit]; decide)]

/-- In front of something else, the digits that are taken are these. -/
theorem takeWhile_digits {ds rest : Bytes} (hds : AllDigits ds) (hrest : startsDigit rest = false) :
    (ds ++ rest).takeWhile isDigit = ds := by
  rw [List.takeWhile_append_of_pos hds]
  cases rest with
  | nil => exact List.append_nil ds
  | cons b rest =>
    have hdigit : isDigit b = false := hrest
    rw [List.takeWhile_cons, if_neg (by rw [hdigit]; decide), List.append_nil]

/-- Bytes are digits and then something else in one way. -/
theorem digits_unique {ds es rest others : Bytes} (hds : AllDigits ds) (hes : AllDigits es)
    (hrest : startsDigit rest = false) (hothers : startsDigit others = false)
    (h : ds ++ rest = es ++ others) : ds = es ∧ rest = others := by
  have htake := congrArg (List.takeWhile isDigit) h
  have hdrop := congrArg (List.dropWhile isDigit) h
  rw [takeWhile_digits hds hrest, takeWhile_digits hes hothers] at htake
  rw [dropWhile_digits hds hrest, dropWhile_digits hes hothers] at hdrop
  exact ⟨htake, hdrop⟩

/-- Bytes start with a digit if there are any digits in front. -/
theorem startsDigit_append {ds rest : Bytes} (hds : AllDigits ds) (hrest : startsDigit rest = false) :
    startsDigit (ds ++ rest) = true ↔ ds ≠ [] := by
  cases ds with
  | nil => simp [hrest]
  | cons d ds => simp [startsDigit, hds.head]

/-- The digits that come next, and what comes behind them. -/
theorem exists_digits (bytes : Bytes) :
    ∃ ds rest, bytes = ds ++ rest ∧ AllDigits ds ∧ startsDigit rest = false := by
  refine ⟨bytes.takeWhile isDigit, bytes.dropWhile isDigit, List.takeWhile_append_dropWhile.symm,
    fun b hb => List.mem_takeWhile_imp hb, ?_⟩
  have hhead := List.head?_dropWhile_not isDigit bytes
  cases hrest : bytes.dropWhile isDigit with
  | nil => rfl
  | cons b rest =>
    rw [hrest] at hhead
    exact hhead

/-- The number that digits make behind those of another one. -/
def digitsOnto (start : Nat) (ds : Bytes) : Nat :=
  ds.foldl (fun n d => n * 10 + digitValue d) start

theorem digitsOnto_append (start : Nat) (ds es : Bytes) :
    digitsOnto start (ds ++ es) = digitsOnto (digitsOnto start ds) es :=
  List.foldl_append

/-- What has been counted moves up by as many places as there are digits. -/
theorem digitsOnto_eq (start : Nat) (ds : Bytes) :
    digitsOnto start ds = start * 10 ^ ds.length + digitsOnto 0 ds := by
  induction ds generalizing start with
  | nil => simp [digitsOnto]
  | cons d ds ih =>
    show digitsOnto (start * 10 + digitValue d) ds =
      start * 10 ^ (ds.length + 1) + digitsOnto (0 * 10 + digitValue d) ds
    rw [ih, ih (0 * 10 + digitValue d), pow_succ]
    ring

theorem le_digitsOnto (start : Nat) (ds : Bytes) : start ≤ digitsOnto start ds := by
  rw [digitsOnto_eq]
  exact Nat.le_add_right_of_le (Nat.le_mul_of_pos_right _ (Nat.pow_pos (by decide)))

/-- A number below a power of ten has no more digits than that. -/
theorem length_digitBytes_le {n k : Nat} (hk : 0 < k) (h : n < 10 ^ k) : (digitBytes n).length ≤ k := by
  rw [digitBytes, List.length_map]
  exact (Nat.length_toDigits_le_iff (by decide) hk).mpr h

/-- The digits of a number make that number. -/
theorem digitsOnto_digitBytes (n : Nat) : digitsOnto 0 (digitBytes n) = n := by
  induction n using digit_induction with
  | single n hn =>
    rw [digitBytes_of_lt hn]
    show 0 * 10 + digitValue (UInt8.ofNat (n + 48)) = n
    rw [digitValue_ofNat hn, Nat.zero_mul, Nat.zero_add]
  | more n hn ih =>
    rw [digitBytes_of_le hn, digitsOnto_append, ih]
    show n / 10 * 10 + digitValue (UInt8.ofNat (n % 10 + 48)) = n
    rw [digitValue_ofNat (Nat.mod_lt n (by decide))]
    omega

/-! ## Gathered digits

Gathering stops before the number would reach its bound. Whether it has come to the end of the digits
can be seen from what it leaves. -/

section

variable {ds rest : Bytes} (bound : Nat)

/-- What gathering leaves of digits is digits. -/
theorem allDigits_gather (hds : AllDigits ds) :
    ∀ value count, AllDigits (gather bound value count ds).unread := by
  induction ds with
  | nil => exact fun _ _ => hds
  | cons d ds ih =>
    intro value count
    rw [gather]
    split
    · exact ih hds.tail _ _
    · exact hds

/-- What is gathered does not depend on what stands behind the digits. -/
theorem gather_append (hds : AllDigits ds) (hrest : startsDigit rest = false) :
    ∀ value count, gather bound value count (ds ++ rest) =
      { gather bound value count ds with unread := (gather bound value count ds).unread ++ rest } := by
  induction ds with
  | nil =>
    intro value count
    rw [List.nil_append, gather_stop hrest]
    rfl
  | cons d ds ih =>
    intro value count
    rw [List.cons_append, gather, gather]
    split
    · exact ih hds.tail _ _
    · rfl

/-- Every byte is either counted or left. -/
theorem count_gather (bytes : Bytes) : ∀ value count,
    (gather bound value count bytes).count + (gather bound value count bytes).unread.length =
      count + bytes.length := by
  induction bytes with
  | nil => exact fun _ _ => rfl
  | cons b bytes ih =>
    intro value count
    rw [gather]
    split
    · rw [ih, List.length_cons]
      omega
    · rfl

/-- All of the digits are gathered if the number that they make is below the bound. -/
theorem gather_eq (hds : AllDigits ds) : ∀ value count, digitsOnto value ds < bound →
    gather bound value count ds = ⟨digitsOnto value ds, count + ds.length, []⟩ := by
  induction ds with
  | nil => exact fun _ _ _ => rfl
  | cons d ds ih =>
    intro value count h
    have hle : value * 10 + digitValue d ≤ digitsOnto (value * 10 + digitValue d) ds :=
      le_digitsOnto _ _
    have h : digitsOnto (value * 10 + digitValue d) ds < bound := h
    rw [gather, if_pos ⟨hds.head, Nat.lt_of_le_of_lt hle h⟩, ih hds.tail _ _ h, List.length_cons,
      Nat.add_right_comm, Nat.add_assoc]
    rfl

/-- If all of the digits are gathered, they make the number. -/
theorem value_gather (hds : AllDigits ds) : ∀ value count,
    (gather bound value count ds).unread = [] →
      (gather bound value count ds).value = digitsOnto value ds := by
  induction ds with
  | nil => exact fun _ _ _ => rfl
  | cons d ds ih =>
    intro value count h
    rw [gather] at h ⊢
    split at h
    · next hmore =>
      rw [if_pos hmore]
      exact ih hds.tail _ _ h
    · cases h

end

/-! ## Numerals

The parts of a numeral in the order in which they are written, with their text and what they stand for.
A numeral knows nothing of the numbers it may be read as. -/

/-- A power of ten as it is written: a mark, perhaps a sign, and digits. -/
structure Power where
  mark : UInt8
  sign : Bytes
  digits : Bytes
deriving DecidableEq

namespace Power

structure WellFormed (p : Power) : Prop where
  mark : p.mark = 101 ∨ p.mark = 69
  sign : p.sign = [] ∨ p.sign = [43] ∨ p.sign = [45]
  ne_nil : p.digits ≠ []
  digits : AllDigits p.digits

/-- The text of a power of ten, or of none. -/
def text : Option Power → Bytes
  | none => []
  | some p => p.mark :: (p.sign ++ p.digits)

/-- The exponent that is written, without a power 0. -/
def exponent : Option Power → Int
  | none => 0
  | some p => if p.sign = [45] then -(digitsOnto 0 p.digits : Int) else digitsOnto 0 p.digits

end Power

/-- A number as it is written. Without places there is no point. -/
structure Numeral where
  negative : Bool
  whole : Bytes
  places : Bytes
  power : Option Power
deriving DecidableEq

namespace Numeral

/-- Digits without a leading zero, perhaps more digits, perhaps a power of ten. -/
structure WellFormed (n : Numeral) : Prop where
  ne_nil : n.whole ≠ []
  whole : AllDigits n.whole
  leading : ∀ more, n.whole = 48 :: more → more = []
  places : AllDigits n.places
  power : ∀ p, n.power = some p → p.WellFormed

/-- The text of the places, with the point. -/
def pointed : Bytes → Bytes
  | [] => []
  | d :: ds => 46 :: d :: ds

/-- The text of a numeral behind its sign. -/
def unsigned (n : Numeral) : Bytes := n.whole ++ (pointed n.places ++ Power.text n.power)

def text (n : Numeral) : Bytes := if n.negative then 45 :: n.unsigned else n.unsigned

/-- The digits of a numeral, as one number. -/
def digits (n : Numeral) : Nat := digitsOnto 0 (n.whole ++ n.places)

/-- The power of ten that the digits of a numeral count. -/
def exponent (n : Numeral) : Int := Power.exponent n.power - n.places.length

/-- The number that a numeral stands for. -/
def value (n : Numeral) : ℚ :=
  (if n.negative then -1 else 1) * n.digits * 10 ^ n.exponent

end Numeral

/-! ## What a numeral is read as

The reader looks at what follows in order to know where a number ends, but what it makes of the number
is decided by the numeral. Each part is read up to its end and hands on what it has gathered. -/

/-- The number with a significand of 64 bits and no point or power. -/
def ofWhole (negative : Bool) (significand : Nat) : Number :=
  if !negative then .int significand
  else if 1 ≤ significand ∧ significand ≤ 1 <<< 63 then .int (-significand)
  else .real ⟨true, Binary64.ofNat significand⟩

/-- A binary64 number, if its significand can be scaled to one. -/
def scaled (negative : Bool) (significand : Nat) (exponent : Int) : Option Number :=
  (scale significand exponent).map fun units => .real ⟨negative, units⟩

/-- A binary64 number with a power of ten. Digits of the power that are not gathered leave zero or
nothing. -/
def scaledBy (negative : Bool) (significand : Nat) (exponent : Int) : Option Power → Option Number
  | none => scaled negative significand exponent
  | some p =>
    let power := gather (1 <<< 31) 0 0 p.digits
    if power.unread = [] then
      scaled negative significand
        (if p.sign = [45] then exponent - power.value else exponent + power.value)
    else if significand ≠ 0 ∧ p.sign ≠ [45] then none
    else some (.real ⟨negative, 0⟩)

/-- A binary64 number with the digits behind the point. Those that are not gathered are dropped. -/
def placed (negative : Bool) (significand : Nat) (exponent : Int) (places : Bytes)
    (power : Option Power) : Option Number :=
  let gathered := gather wordLimit significand 0 places
  scaledBy negative gathered.value (exponent - gathered.count) power

/-- The number that a numeral is read as, if it is not out of range. -/
def Numeral.number? (n : Numeral) : Option Number :=
  let whole := gather wordLimit 0 0 n.whole
  if n.places = [] ∧ n.power = none ∧ whole.unread = [] then some (ofWhole n.negative whole.value)
  else placed n.negative whole.value whole.unread.length n.places n.power

/-- `ReadsAs reader bytes result`: whatever stands behind the bytes of a number, the reader gives this
number and leaves what stands there, or stops. -/
def ReadsAs (reader : Reader Number) (bytes : Bytes) (result : Option Number) : Prop :=
  ∀ rest, Delimits rest → (reader (bytes ++ rest)).toOption = result.map fun x => (x, rest)

section

variable {negative : Bool} {significand : Nat} {exponent : Int} {power : Option Power}

/-- Scaling what was gathered gives a number, if it is finite. -/
theorem toOption_realOf (rest : Bytes) : (realOf negative significand exponent rest).toOption =
    (scaled negative significand exponent).map fun x => (x, rest) := by
  rw [realOf, scaled]
  cases scale significand exponent <;> rfl

/-- Reads the digits of an exponent, once its sign is known. -/
def exponentDigits (negative : Bool) (significand : Nat) (exponent : Int) (down : Bool) :
    Reader Number := fun unread =>
  match unread with
  | [] => Stop.atByte .endInValue []
  | b :: rest =>
    if isDigit b then
      let power := gather (1 <<< 31) 0 0 (b :: rest)
      match power.unread with
      | c :: rest' =>
        if isDigit c then
          if significand ≠ 0 ∧ !down then Stop.atByte .numberOutOfRange rest'
          else .ok (.real ⟨negative, 0⟩, rest'.dropWhile isDigit)
        else
          realOf negative significand
            (if down then exponent - power.value else exponent + power.value) power.unread
      | [] =>
        realOf negative significand
          (if down then exponent - power.value else exponent + power.value) []
    else Stop.atByte .invalidNumber rest

/-- The sign of an exponent stands in front of its digits, if there is one. -/
theorem exponentPart_sign {sign : Bytes} (hsign : sign = [] ∨ sign = [43] ∨ sign = [45]) {d : UInt8}
    (hd : isDigit d = true) (negative : Bool) (significand : Nat) (exponent : Int) (rest : Bytes) :
    exponentPart negative significand exponent (sign ++ d :: rest) =
      exponentDigits negative significand exponent (sign = [45]) (d :: rest) := by
  obtain rfl | rfl | rfl := hsign
  · have hplus : d ≠ 43 := ne_of_isDigit hd (by decide)
    have hminus : d ≠ 45 := ne_of_isDigit hd (by decide)
    have hno : decide (([] : Bytes) = [45]) = false := rfl
    rw [List.nil_append, hno]
    unfold exponentPart
    split
    next down unread heq =>
      split at heq
      · next h => exact absurd (List.cons.inj h).1 hplus
      · next h => exact absurd (List.cons.inj h).1 hminus
      · cases heq
        rfl
  · rfl
  · rfl

/-- The digits of an exponent are read up to their end, whether all of them count or not. -/
theorem readsAs_exponentPart {p : Power} (hp : p.WellFormed) :
    ReadsAs (exponentPart negative significand exponent) (p.sign ++ p.digits)
      (scaledBy negative significand exponent (some p)) := by
  intro rest hrest
  obtain ⟨d, more, hdigits⟩ := List.exists_cons_of_ne_nil hp.ne_nil
  have hall := hp.digits
  have hgather := gather_append (1 <<< 31) hall hrest.digit 0 0
  have hunread := allDigits_gather (1 <<< 31) hall 0 0
  rw [hdigits, List.append_assoc, List.cons_append, exponentPart_sign hp.sign (hdigits ▸ hall).head,
    ← List.cons_append, ← hdigits, scaledBy]
  generalize gather (1 <<< 31) 0 0 p.digits = gathered at hgather hunread
  have hd : isDigit d = true := (hdigits ▸ hall).head
  rw [hdigits, List.cons_append] at hgather ⊢
  unfold exponentDigits
  simp only [hd, if_true, hgather]
  cases hleft : gathered.unread with
  | nil =>
    rw [List.nil_append, if_pos rfl, ← toOption_realOf]
    cases rest with
    | nil => simp only [decide_eq_true_eq]
    | cons c rest =>
      have hc : isDigit c = false := hrest.digit
      simp only [hc, Bool.false_eq_true, if_false, decide_eq_true_eq]
  | cons c left =>
    -- digits are left over: the exponent is out of range, which only matters if it counts
    rw [hleft] at hunread
    rw [List.cons_append, if_neg (List.cons_ne_nil c left)]
    simp only [hunread.head, if_true, dropWhile_digits hunread.tail hrest.digit]
    by_cases hdown : p.sign = [45]
    · simp [hdown]
    · by_cases hzero : significand = 0
      · simp [hzero]
      · simp [hdown, hzero]
        rfl

/-- What follows a fraction: nothing, or a power of ten. -/
theorem readsAs_afterFraction (hpower : ∀ p, power = some p → p.WellFormed) :
    ReadsAs (afterFraction negative significand exponent) (Power.text power)
      (scaledBy negative significand exponent power) := by
  intro rest hrest
  cases power with
  | none =>
    rw [Power.text, List.nil_append, scaledBy, ← toOption_realOf]
    unfold afterFraction
    cases rest with
    | nil => rfl
    | cons b rest =>
      simp only
      rw [if_neg (by rw [hrest.exponent]; decide)]
  | some p =>
    have hp := hpower p rfl
    have hstarts : startsExponent (p.mark :: (p.sign ++ p.digits ++ rest)) = true :=
      decide_eq_true hp.mark
    rw [Power.text, List.cons_append, afterFraction, if_pos hstarts]
    exact readsAs_exponentPart hp rest hrest

/-- What stands behind the digits of a numeral is no digit. -/
theorem startsDigit_text (hpower : ∀ p, power = some p → p.WellFormed) {rest : Bytes}
    (hrest : Delimits rest) : startsDigit (Power.text power ++ rest) = false := by
  cases power with
  | none => exact hrest.digit
  | some p =>
    obtain hmark | hmark := (hpower p rfl).mark
    all_goals
      rw [Power.text, hmark]
      rfl

/-- The digits of a fraction are read up to their end, whether all of them count or not. -/
theorem readsAs_fraction {places : Bytes} (hne : places ≠ []) (hplaces : AllDigits places)
    (hpower : ∀ p, power = some p → p.WellFormed) :
    ReadsAs (fraction negative significand exponent) (places ++ Power.text power)
      (placed negative significand exponent places power) := by
  intro rest hrest
  have hstops := startsDigit_text hpower hrest
  have hgather := gather_append wordLimit hplaces hstops significand 0
  have hunread := allDigits_gather wordLimit hplaces significand 0
  have hcount := count_gather wordLimit places significand 0
  rw [List.append_assoc, fraction, placed]
  simp only [hgather]
  generalize gather wordLimit significand 0 places = gathered at hunread hcount
  rw [dropWhile_digits hunread hstops]
  split
  · exact readsAs_afterFraction hpower rest hrest
  · next hnone =>
    -- no digit is left over, so what comes next is the power
    have hnil : gathered.unread = [] := by
      by_contra hsome
      exact hnone ((startsDigit_append hunread hstops).mpr hsome)
    have hlength := List.length_pos_iff.mpr hne
    rw [hnil, List.length_nil] at hcount
    rw [if_neg (by omega), hnil, List.nil_append]
    exact readsAs_afterFraction hpower rest hrest

/-- What follows the whole part, if all of it is gathered: nothing, or places or a power. -/
theorem readsAs_afterWhole {places : Bytes} (hplaces : AllDigits places)
    (hpower : ∀ p, power = some p → p.WellFormed) :
    ReadsAs (afterWhole negative significand) (Numeral.pointed places ++ Power.text power)
      (if places = [] ∧ power = none then some (ofWhole negative significand)
        else placed negative significand 0 places power) := by
  intro rest hrest
  cases places with
  | cons d ds =>
    rw [if_neg fun h => List.cons_ne_nil d ds h.1]
    exact readsAs_fraction (List.cons_ne_nil d ds) hplaces hpower rest hrest
  | nil =>
    rw [Numeral.pointed, List.nil_append]
    cases power with
    | none =>
      rw [if_pos ⟨rfl, rfl⟩, Power.text, List.nil_append, afterWhole_delimits _ _ hrest, ofWhole]
      split
      · rfl
      · split <;> rfl
    | some p =>
      have hp := hpower p rfl
      rw [if_neg fun h => Option.some_ne_none p h.2, Power.text, List.cons_append]
      have hplaced : placed negative significand 0 [] (some p) =
          scaledBy negative significand 0 (some p) := rfl
      have hstarts : startsExponent (p.mark :: (p.sign ++ p.digits ++ rest)) = true :=
        decide_eq_true hp.mark
      rw [hplaced, ← readsAs_exponentPart hp rest hrest, afterWhole]
      · rw [if_pos hstarts, List.tail_cons]
      -- the mark of a power is no point
      · rintro more heq
        obtain hmark | hmark := hp.mark
        all_goals
          rw [hmark] at heq
          cases heq

/-- What follows the gathered digits of a whole part, if there are more of them. -/
theorem readsAs_afterLongWhole {left places : Bytes} (hleft : AllDigits left)
    (hplaces : AllDigits places) (hpower : ∀ p, power = some p → p.WellFormed) :
    ReadsAs (afterLongWhole negative significand)
      (left ++ (Numeral.pointed places ++ Power.text power))
      (placed negative significand left.length places power) := by
  intro rest hrest
  have hstops : startsDigit (Numeral.pointed places ++ Power.text power ++ rest) = false := by
    cases places with
    | nil => exact startsDigit_text hpower hrest
    | cons d ds => rfl
  rw [List.append_assoc, afterLongWhole]
  simp only [takeWhile_digits hleft hstops, dropWhile_digits hleft hstops]
  cases places with
  | cons d ds => exact readsAs_fraction (List.cons_ne_nil d ds) hplaces hpower rest hrest
  | nil =>
    have hplaced : placed negative significand left.length [] power =
        scaledBy negative significand left.length power := by
      rw [placed]
      show scaledBy negative significand (left.length - (0 : Nat)) power = _
      rw [Int.natCast_zero, Int.sub_zero]
    rw [hplaced, ← readsAs_afterFraction hpower rest hrest, Numeral.pointed, List.nil_append]
    split
    · next more heq =>
      -- a power does not start with a point, and neither does what follows a number
      cases power with
      | none => exact absurd heq (hrest.point more)
      | some p =>
        obtain hmark | hmark := (hpower p rfl).mark
        all_goals
          rw [Power.text, List.cons_append, hmark] at heq
          cases heq
    · rfl

/-- **Numerals** are read up to their end, whatever stands behind them. -/
theorem readsAs_numeral {n : Numeral} (hn : n.WellFormed) :
    ReadsAs (unsignedNumber n.negative) n.unsigned n.number? := by
  intro rest hrest
  have hstops : startsDigit (Numeral.pointed n.places ++ Power.text n.power ++ rest) = false := by
    cases n.places with
    | nil => exact startsDigit_text hn.power hrest
    | cons d ds => rfl
  have hgather := gather_append wordLimit hn.whole hstops 0 0
  have hunread := allDigits_gather wordLimit hn.whole 0 0
  obtain ⟨d, more, hwhole⟩ := List.exists_cons_of_ne_nil hn.ne_nil
  have hd : isDigit d = true := (hwhole ▸ hn.whole).head
  rw [Numeral.unsigned, List.append_assoc, Numeral.number?]
  by_cases hzero : d = 48
  · -- a leading zero stands alone
    subst hzero
    obtain rfl := hn.leading more hwhole
    have hfirst : gather wordLimit 0 0 [48] = ⟨0, 1, []⟩ :=
      gather_digit (d := 0) 0 (by decide) (by decide) []
    rw [hwhole, hfirst, List.singleton_append, unsignedNumber, if_pos rfl,
      if_neg (by rw [hstops]; decide)]
    simp only [and_true]
    exact readsAs_afterWhole hn.places hn.power rest hrest
  · rw [hwhole, List.cons_append] at hgather ⊢
    rw [unsignedNumber, if_neg hzero, if_pos hd]
    rw [hwhole] at hunread
    simp only [hgather]
    generalize gather wordLimit 0 0 (d :: more) = gathered at hunread ⊢
    -- the gathered digits are all there are, or there are more than fit
    by_cases hmany : gathered.unread = []
    · simp only [hmany, List.nil_append, hstops, Bool.false_eq_true, if_false, and_true]
      exact readsAs_afterWhole hn.places hn.power rest hrest
    · rw [if_pos ((startsDigit_append hunread hstops).mpr hmany), if_neg fun h => hmany h.2.2,
        ← List.append_assoc]
      exact readsAs_afterLongWhole hunread hn.places hn.power rest hrest

end

/-! ## Numerals that fit -/

section

variable {n : Numeral}

theorem Numeral.digits_eq (n : Numeral) : n.digits = digitsOnto (digitsOnto 0 n.whole) n.places :=
  digitsOnto_append _ _ _

/-- The whole part of a numeral is gathered if its digits are few enough. -/
theorem gather_whole (hn : n.WellFormed) (h : n.digits < wordLimit) :
    gather wordLimit 0 0 n.whole = ⟨digitsOnto 0 n.whole, n.whole.length, []⟩ := by
  rw [gather_eq _ hn.whole, Nat.zero_add]
  rw [n.digits_eq] at h
  exact Nat.lt_of_le_of_lt (le_digitsOnto _ _) h

/-- A numeral without places and power is read as a whole number, if it fits in 64 bits. -/
theorem Numeral.number?_whole (hn : n.WellFormed) (hplaces : n.places = []) (hpower : n.power = none)
    (h : n.digits < wordLimit) : n.number? = some (ofWhole n.negative n.digits) := by
  have hdigits : n.digits = digitsOnto 0 n.whole := by
    rw [n.digits_eq, hplaces]
    rfl
  simp only [number?, gather_whole hn h]
  rw [if_pos ⟨hplaces, hpower, trivial⟩, hdigits]

theorem real_of_scaled {negative : Bool} {significand : Nat} {exponent : Int} {x : Number}
    (h : scaled negative significand exponent = some x) : ∃ y, x = .real y := by
  obtain ⟨units, -, rfl⟩ := Option.map_eq_some_iff.mp h
  exact ⟨_, rfl⟩

theorem real_of_placed {negative : Bool} {significand : Nat} {exponent : Int} {places : Bytes}
    {power : Option Power} {x : Number}
    (h : placed negative significand exponent places power = some x) : ∃ y, x = .real y := by
  cases power with
  | none => exact real_of_scaled h
  | some p =>
    simp only [placed, scaledBy] at h
    split at h
    · exact real_of_scaled h
    · split at h
      · cases h
      · cases h
        exact ⟨_, rfl⟩

/-- Any other numeral is read as a binary64 number, if at all. -/
theorem Numeral.real_of_number? (hreal : n.places ≠ [] ∨ n.power ≠ none) {x : Number}
    (h : n.number? = some x) : ∃ y, x = .real y := by
  simp only [number?] at h
  rw [if_neg fun hnone => hreal.elim (· hnone.1) (· hnone.2.1)] at h
  exact real_of_placed h

/-- It is scaled, and nothing is dropped if its digits fit in 64 bits and its power in 31. -/
theorem Numeral.number?_scaled (hn : n.WellFormed) (hreal : n.places ≠ [] ∨ n.power ≠ none)
    (h : n.digits < wordLimit) (hpower : ∀ p, n.power = some p → digitsOnto 0 p.digits < 1 <<< 31) :
    n.number? = scaled n.negative n.digits n.exponent := by
  have hplaces : gather wordLimit (digitsOnto 0 n.whole) 0 n.places =
      ⟨n.digits, n.places.length, []⟩ := by
    rw [gather_eq _ hn.places _ _ (n.digits_eq ▸ h), Nat.zero_add, n.digits_eq]
  simp only [number?, gather_whole hn h]
  -- it is no whole number, so its places and its power are looked at
  rw [if_neg fun hnone => hreal.elim (· hnone.1) (· hnone.2.1)]
  simp only [placed, hplaces]
  rw [exponent]
  cases hp : n.power with
  | none =>
    rw [scaledBy, Power.exponent]
    rfl
  | some p =>
    rw [scaledBy, gather_eq _ (hn.power p hp).digits _ _ (hpower p hp)]
    simp only [if_true, Power.exponent]
    congr 1
    simp only [List.length_nil, Int.natCast_zero]
    split <;> omega

end

end Stowage.Json
