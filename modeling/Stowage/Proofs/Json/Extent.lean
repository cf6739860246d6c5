import Stowage.Proofs.Json.Numeral
/-!
# Stowage — where a number ends

Whatever the reader of numbers takes is a numeral (`exists_numeral`), and where no more of a number can
stand behind it, only one (`Numeral.unique`). The outline of a number decides where it ends, so the
numeral is found by skipping it: what is read as a number is also skipped as one, and both leave the same
rest (`skipNumber_of_unsignedNumber`).
-/

namespace Stowage.Json

theorem dropWhile_of_not_startsDigit {bytes : Bytes} (h : startsDigit bytes = false) :
    bytes.dropWhile isDigit = bytes :=
  @dropWhile_digits [] bytes (fun _ hmem => absurd hmem List.not_mem_nil) h

/-- Whatever digits are gathered, the same bytes stand behind all of them. -/
theorem dropWhile_gather (bound : Nat) (bytes : Bytes) :
    ∀ value count, (gather bound value count bytes).unread.dropWhile isDigit =
      bytes.dropWhile isDigit := by
  induction bytes with
  | nil => exact fun _ _ => rfl
  | cons b bytes ih =>
    intro value count
    rw [gather]
    split
    · next hmore => rw [ih, List.dropWhile_cons, if_pos hmore.1]
    · rfl

/-- If gathering has come to the end of the digits, what is left stands behind all of them. -/
theorem gather_unread {bound value count : Nat} {bytes : Bytes}
    (h : startsDigit (gather bound value count bytes).unread = false) :
    (gather bound value count bytes).unread = bytes.dropWhile isDigit := by
  rw [← dropWhile_gather bound bytes value count, dropWhile_of_not_startsDigit h]

section

variable {negative : Bool} {significand : Nat} {exponent : Int} {unread rest : Bytes} {n : Number}

theorem realOf_rest (h : realOf negative significand exponent unread = .ok (n, rest)) :
    rest = unread := by
  unfold realOf at h
  cases hscale : scale significand exponent with
  | none =>
    rw [hscale] at h
    cases h
  | some units =>
    rw [hscale] at h
    cases h
    rfl

/-- Skips the digits of an exponent. -/
def skipExponentDigits : Reader Unit
  | [] => Stop.atByte .invalidNumber []
  | b :: rest =>
    if isDigit b then .ok ((), rest.dropWhile isDigit) else Stop.atByte .invalidNumber rest

/-- The digits of an exponent that is read are skipped. -/
theorem skipExponentDigits_of_exponentDigits {down : Bool}
    (h : exponentDigits negative significand exponent down unread = .ok (n, rest)) :
    skipExponentDigits unread = .ok ((), rest) := by
  unfold exponentDigits at h
  cases unread with
  | nil => cases h
  | cons b unread =>
    simp only at h
    split at h
    · next hb =>
      have hdrop : (b :: unread).dropWhile isDigit = unread.dropWhile isDigit := by
        rw [List.dropWhile_cons, if_pos hb]
      have hgather := dropWhile_gather (1 <<< 31) (b :: unread) 0 0
      rw [hdrop] at hgather
      rw [skipExponentDigits, if_pos hb, ← hgather]
      -- digits that are not gathered are dropped, the others lead to the end at once
      split at h
      · next c more hunread =>
        rw [hunread]
        split at h
        · next hc =>
          split at h
          · cases h
          · cases h
            rw [List.dropWhile_cons, if_pos hc]
        · next hc =>
          rw [realOf_rest h, hunread, dropWhile_of_not_startsDigit]
          exact Bool.eq_false_iff.mpr hc
      · next hunread =>
        rw [realOf_rest h, hunread]
        rfl
    · cases h

/-- What stands behind the sign of an exponent, if it has one. -/
def afterSign : Bytes → Bytes
  | 43 :: rest => rest
  | 45 :: rest => rest
  | rest => rest

theorem skipExponent_eq (unread : Bytes) :
    skipExponent unread = skipExponentDigits (afterSign unread) := by
  show (match afterSign unread with | [] => _ | b :: rest => _) = _
  cases afterSign unread <;> rfl

/-- An exponent is read behind its sign. -/
theorem exponentPart_eq (negative : Bool) (significand : Nat) (exponent : Int) (unread : Bytes) :
    ∃ down, exponentPart negative significand exponent unread =
      exponentDigits negative significand exponent down (afterSign unread) := by
  unfold exponentPart
  split
  next down bytes heq =>
    refine ⟨down, ?_⟩
    split at heq
    · cases heq
      rfl
    · cases heq
      rfl
    · next hplus hminus =>
      cases heq
      rw [afterSign]
      · rfl
      · exact hplus
      · exact hminus

/-- An exponent that is read is skipped. -/
theorem skipExponent_of_exponentPart
    (h : exponentPart negative significand exponent unread = .ok (n, rest)) :
    skipExponent unread = .ok ((), rest) := by
  obtain ⟨down, hread⟩ := exponentPart_eq negative significand exponent unread
  rw [hread] at h
  rw [skipExponent_eq]
  exact skipExponentDigits_of_exponentDigits h

/-- Skips an exponent if there is one. -/
def skipOptionalExponent : Reader Unit := fun unread =>
  if startsExponent unread then skipExponent unread.tail else .ok ((), unread)

theorem skipFraction_point (more : Bytes) : skipFraction (46 :: more) =
    if startsDigit more then skipOptionalExponent (more.dropWhile isDigit)
    else Stop.afterByte .invalidNumber more := rfl

theorem skipFraction_of_ne {unread : Bytes} (h : ∀ more, unread ≠ 46 :: more) :
    skipFraction unread = skipOptionalExponent unread := by
  unfold skipFraction
  split
  · next more => exact absurd rfl (h more)
  · rfl

/-- What follows a fraction that is read is skipped. -/
theorem skipOptionalExponent_of_afterFraction
    (h : afterFraction negative significand exponent unread = .ok (n, rest)) :
    skipOptionalExponent unread = .ok ((), rest) := by
  unfold afterFraction at h
  rw [skipOptionalExponent]
  cases unread with
  | nil =>
    rw [realOf_rest h]
    rfl
  | cons b unread =>
    simp only at h
    split at h
    · next hstarts =>
      rw [if_pos hstarts]
      exact skipExponent_of_exponentPart h
    · next hstarts => rw [if_neg hstarts, realOf_rest h]

/-- A fraction that is read is skipped. -/
theorem skipFraction_of_fraction
    (h : fraction negative significand exponent unread = .ok (n, rest)) :
    skipFraction (46 :: unread) = .ok ((), rest) := by
  rw [skipFraction_point]
  by_cases hdigit : startsDigit unread
  · rw [if_pos hdigit]
    simp only [fraction] at h
    split at h
    · rw [dropWhile_gather] at h
      exact skipOptionalExponent_of_afterFraction h
    · next hstops =>
      rw [gather_unread (Bool.eq_false_iff.mpr hstops)] at h
      split at h
      · split at h <;> cases h
      · exact skipOptionalExponent_of_afterFraction h
  -- without a digit nothing is gathered, and both readers stop
  · have hnone := Bool.eq_false_iff.mpr hdigit
    simp only [fraction, gather_stop hnone, hnone, Bool.false_eq_true, if_false, if_true] at h
    split at h <;> cases h

/-- What follows a whole part that is read is skipped. -/
theorem skipFraction_of_afterWhole (h : afterWhole negative significand unread = .ok (n, rest)) :
    skipFraction unread = .ok ((), rest) := by
  unfold afterWhole at h
  split at h
  · exact skipFraction_of_fraction h
  · next hpoint =>
    rw [skipFraction_of_ne fun more heq => hpoint more heq, skipOptionalExponent]
    split at h
    · next hstarts =>
      rw [if_pos hstarts]
      exact skipExponent_of_exponentPart h
    · next hstarts =>
      rw [if_neg hstarts]
      split at h
      · cases h
        rfl
      · split at h <;> cases h <;> rfl

/-- What follows a whole part that is too long to gather is skipped behind its last digit. -/
theorem skipFraction_of_afterLongWhole
    (h : afterLongWhole negative significand unread = .ok (n, rest)) :
    skipFraction (unread.dropWhile isDigit) = .ok ((), rest) := by
  simp only [afterLongWhole] at h
  split at h
  · next heq =>
    rw [heq]
    exact skipFraction_of_fraction h
  · next hpoint =>
    rw [skipFraction_of_ne fun more heq => hpoint more heq]
    exact skipOptionalExponent_of_afterFraction h

/-- A number that is read is skipped. -/
theorem skipNumber_of_unsignedNumber (h : unsignedNumber negative unread = .ok (n, rest)) :
    skipNumber unread = .ok ((), rest) := by
  cases unread with
  | nil => cases h
  | cons b unread =>
    rw [unsignedNumber] at h
    rw [skipNumber]
    -- a leading zero stands alone; otherwise the digits go on, gathered or not
    split at h
    · next hzero =>
      rw [if_pos hzero]
      split at h
      · cases h
      · next hdigit =>
        rw [if_neg hdigit]
        exact skipFraction_of_afterWhole h
    · next hzero =>
      rw [if_neg hzero]
      split at h
      · next hb =>
        have hdrop : (b :: unread).dropWhile isDigit = unread.dropWhile isDigit := by
          rw [List.dropWhile_cons, if_pos hb]
        rw [if_pos hb, ← hdrop, ← dropWhile_gather wordLimit (b :: unread) 0 0]
        simp only at h
        split at h
        · exact skipFraction_of_afterLongWhole h
        · next hstops =>
          rw [dropWhile_of_not_startsDigit (Bool.eq_false_iff.mpr hstops)]
          exact skipFraction_of_afterWhole h
      · cases h

end

/-! ## Numerals

Skipping a number looks at its outline only, and every outline that is skipped is that of a numeral. So
the parts of the numeral are found in the order in which they are skipped. -/

section

variable {unread rest : Bytes}

/-- An exponent begins with a sign or with none. -/
theorem exists_sign (unread : Bytes) :
    ∃ sign, (sign = [] ∨ sign = [43] ∨ sign = [45]) ∧ unread = sign ++ afterSign unread := by
  unfold afterSign
  split
  · exact ⟨[43], .inr (.inl rfl), rfl⟩
  · exact ⟨[45], .inr (.inr rfl), rfl⟩
  · exact ⟨[], .inl rfl, rfl⟩

/-- What is skipped as the digits of an exponent is at least one digit. -/
theorem digits_of_skipExponentDigits (h : skipExponentDigits unread = .ok ((), rest)) :
    ∃ ds, ds ≠ [] ∧ AllDigits ds ∧ unread = ds ++ rest := by
  cases unread with
  | nil => cases h
  | cons b unread =>
    rw [skipExponentDigits] at h
    split at h
    · next hb =>
      cases h
      refine ⟨b :: unread.takeWhile isDigit, List.cons_ne_nil _ _, fun c hc => ?_, ?_⟩
      · rcases List.mem_cons.mp hc with rfl | hc
        · exact hb
        · exact List.mem_takeWhile_imp hc
      · rw [List.cons_append, List.takeWhile_append_dropWhile]
    · cases h

/-- What is skipped as an exponent is a power of ten, or nothing. -/
theorem power_of_skipOptionalExponent (h : skipOptionalExponent unread = .ok ((), rest)) :
    ∃ power, (∀ p, power = some p → p.WellFormed) ∧ unread = Power.text power ++ rest := by
  rw [skipOptionalExponent] at h
  split at h
  · next hstarts =>
    cases unread with
    | nil => cases hstarts
    | cons mark more =>
      rw [List.tail_cons, skipExponent_eq] at h
      obtain ⟨sign, hsign, hmore⟩ := exists_sign more
      obtain ⟨ds, hne, hds, hdigits⟩ := digits_of_skipExponentDigits h
      refine ⟨some ⟨mark, sign, ds⟩, fun p hp => ?_, ?_⟩
      · cases hp
        exact ⟨of_decide_eq_true hstarts, hsign, hne, hds⟩
      · rw [Power.text, List.cons_append, List.append_assoc, ← hdigits, ← hmore]
  · cases h
    exact ⟨none, fun _ hnone => absurd hnone (Option.some_ne_none _).symm, rfl⟩

/-- What is skipped behind a whole part is places and a power of ten, or one of them, or nothing. -/
theorem places_of_skipFraction (h : skipFraction unread = .ok ((), rest)) :
    ∃ places power, AllDigits places ∧ (∀ p, power = some p → p.WellFormed) ∧
      unread = Numeral.pointed places ++ (Power.text power ++ rest) := by
  by_cases hpoint : ∃ more, unread = 46 :: more
  · obtain ⟨more, rfl⟩ := hpoint
    rw [skipFraction_point] at h
    split at h
    · next hdigit =>
      obtain ⟨places, behind, rfl, hplaces, hstops⟩ := exists_digits more
      rw [dropWhile_digits hplaces hstops] at h
      obtain ⟨power, hpower, rfl⟩ := power_of_skipOptionalExponent h
      refine ⟨places, power, hplaces, hpower, ?_⟩
      cases places with
      | nil => exact absurd rfl ((startsDigit_append hplaces hstops).mp hdigit)
      | cons d ds => rfl
    · cases h
  · rw [skipFraction_of_ne fun more heq => hpoint ⟨more, heq⟩] at h
    obtain ⟨power, hpower, rfl⟩ := power_of_skipOptionalExponent h
    exact ⟨[], power, allDigits_nil, hpower, rfl⟩

/-- What is skipped as a number is a numeral without its minus sign. -/
theorem numeral_of_skipNumber (negative : Bool) (h : skipNumber unread = .ok ((), rest)) :
    ∃ n : Numeral, n.negative = negative ∧ n.WellFormed ∧ unread = n.unsigned ++ rest := by
  cases unread with
  | nil => cases h
  | cons b unread =>
    rw [skipNumber] at h
    -- a leading zero is all of the whole part, any other digit starts it
    split at h
    · next hzero =>
      split at h
      · cases h
      · obtain ⟨places, power, hplaces, hpower, rfl⟩ := places_of_skipFraction h
        have hwhole : AllDigits [b] := fun c hc => by
          rw [List.mem_singleton.mp hc, hzero]
          decide
        refine ⟨⟨negative, [b], places, power⟩, rfl,
          ⟨List.cons_ne_nil _ _, hwhole, fun more heq => (List.cons.inj heq).2.symm, hplaces, hpower⟩, ?_⟩
        rw [Numeral.unsigned, List.append_assoc, List.append_assoc]
        rfl
    · next hzero =>
      split at h
      · next hb =>
        obtain ⟨ds, behind, rfl, hds, hstops⟩ := exists_digits unread
        rw [dropWhile_digits hds hstops] at h
        obtain ⟨places, power, hplaces, hpower, rfl⟩ := places_of_skipFraction h
        have hwhole : AllDigits (b :: ds) := fun c hc => by
          rcases List.mem_cons.mp hc with rfl | hc
          · exact hb
          · exact hds c hc
        refine ⟨⟨negative, b :: ds, places, power⟩, rfl,
          ⟨List.cons_ne_nil _ _, hwhole, fun more heq => absurd (List.cons.inj heq).1 hzero, hplaces,
            hpower⟩, ?_⟩
        rw [Numeral.unsigned, List.append_assoc, List.append_assoc]
        rfl
      · cases h

/-- **What is read as a number** is a numeral, up to where the reader stops. -/
theorem exists_numeral {negative : Bool} {x : Number}
    (h : unsignedNumber negative unread = .ok (x, rest)) :
    ∃ n : Numeral, n.negative = negative ∧ n.WellFormed ∧ unread = n.unsigned ++ rest :=
  numeral_of_skipNumber negative (skipNumber_of_unsignedNumber h)

end

/-! ## One numeral in one place

Two numerals that begin the same bytes must end at the same one, since behind neither of them more of a
number can stand. Part by part they are then the same. -/

section

variable {rest others : Bytes} {p q : Power} {power other : Option Power} {places digits : Bytes}
  {n m : Numeral}

/-- The sign of an exponent can be told from its digits. -/
theorem sign_unique (hp : p.WellFormed) (hq : q.WellFormed)
    (h : p.sign ++ (p.digits ++ rest) = q.sign ++ (q.digits ++ others)) :
    p.sign = q.sign ∧ p.digits ++ rest = q.digits ++ others := by
  -- digits start with neither sign
  have hstart : ∀ {r : Power}, r.WellFormed → ∀ bytes, ∃ d more, r.digits ++ bytes = d :: more ∧
      d ≠ 43 ∧ d ≠ 45 := by
    intro r hr bytes
    obtain ⟨d, more, hdigits⟩ := List.exists_cons_of_ne_nil hr.ne_nil
    have hd : isDigit d = true := hr.digits d (hdigits ▸ List.mem_cons_self ..)
    exact ⟨d, more ++ bytes, by rw [hdigits, List.cons_append], ne_of_isDigit hd (by decide),
      ne_of_isDigit hd (by decide)⟩
  obtain ⟨d, ds, hd, hplus, hminus⟩ := hstart hp rest
  obtain ⟨e, es, he, hplus', hminus'⟩ := hstart hq others
  rw [hd, he] at h ⊢
  obtain hs | hs | hs := hp.sign <;> obtain ht | ht | ht := hq.sign <;> rw [hs, ht] at h ⊢ <;>
    simp_all

/-- A power of ten ends where no more digits come, and there is one where there is an `e`. -/
theorem power_unique (hpower : ∀ p, power = some p → p.WellFormed)
    (hother : ∀ p, other = some p → p.WellFormed) (hrest : Delimits rest) (hothers : Delimits others)
    (h : Power.text power ++ rest = Power.text other ++ others) : power = other ∧ rest = others := by
  -- what stands behind a number without a power does not start like a power
  have hmark : ∀ {r : Power} {bytes behind : Bytes}, r.WellFormed → Delimits behind →
      behind ≠ Power.text (some r) ++ bytes := by
    rintro r bytes behind hr hbehind rfl
    have hstarts : startsExponent (r.mark :: (r.sign ++ r.digits ++ bytes)) = true :=
      decide_eq_true hr.mark
    exact absurd hbehind.exponent (by rw [Power.text, List.cons_append, hstarts]; decide)
  cases power with
  | none =>
    cases other with
    | none => exact ⟨rfl, h⟩
    | some q => exact absurd h (hmark (hother q rfl) hrest)
  | some p =>
    cases other with
    | none => exact absurd h.symm (hmark (hpower p rfl) hothers)
    | some q =>
      have hp := hpower p rfl
      have hq := hother q rfl
      rw [Power.text, Power.text, List.cons_append, List.cons_append, List.append_assoc,
        List.append_assoc] at h
      obtain ⟨hmarks, hbehind⟩ := List.cons.inj h
      obtain ⟨hsigns, hdigits⟩ := sign_unique hp hq hbehind
      obtain ⟨hds, hrests⟩ := digits_unique hp.digits hq.digits hrest.digit hothers.digit hdigits
      obtain ⟨mark, sign, ds⟩ := p
      obtain ⟨mark', sign', ds'⟩ := q
      simp only at hmarks hsigns hds
      rw [hmarks, hsigns, hds]
      exact ⟨rfl, hrests⟩

/-- What stands behind the places of a numeral is no point. -/
theorem text_ne_point (hpower : ∀ p, power = some p → p.WellFormed) (hrest : Delimits rest)
    (more : Bytes) : Power.text power ++ rest ≠ 46 :: more := by
  cases power with
  | none => exact hrest.point more
  | some p =>
    intro heq
    obtain hmark | hmark := (hpower p rfl).mark
    all_goals
      rw [Power.text, List.cons_append, hmark] at heq
      cases heq

/-- Places end where no more digits come, and there are some where there is a point. -/
theorem places_unique (hplaces : AllDigits places) (hdigits : AllDigits digits)
    (hpower : ∀ p, power = some p → p.WellFormed) (hother : ∀ p, other = some p → p.WellFormed)
    (hrest : Delimits rest) (hothers : Delimits others)
    (h : Numeral.pointed places ++ (Power.text power ++ rest) =
      Numeral.pointed digits ++ (Power.text other ++ others)) :
    places = digits ∧ Power.text power ++ rest = Power.text other ++ others := by
  cases places with
  | nil =>
    cases digits with
    | nil => exact ⟨rfl, h⟩
    | cons e es => exact absurd h (text_ne_point hpower hrest _)
  | cons d ds =>
    cases digits with
    | nil => exact absurd h.symm (text_ne_point hother hothers _)
    | cons e es =>
      exact digits_unique hplaces hdigits (startsDigit_text hpower hrest)
        (startsDigit_text hother hothers) (List.cons.inj h).2

/-- What stands behind the whole part of a numeral is no digit. -/
theorem startsDigit_pointed (hpower : ∀ p, power = some p → p.WellFormed) (hrest : Delimits rest) :
    startsDigit (Numeral.pointed places ++ (Power.text power ++ rest)) = false := by
  cases places with
  | nil => exact startsDigit_text hpower hrest
  | cons d ds => rfl

/-- Without their signs, two numerals in one place are the same. -/
theorem unsigned_unique (hn : n.WellFormed) (hm : m.WellFormed) (hrest : Delimits rest)
    (hothers : Delimits others) (hnegative : n.negative = m.negative)
    (h : n.unsigned ++ rest = m.unsigned ++ others) : n = m ∧ rest = others := by
  rw [Numeral.unsigned, Numeral.unsigned, List.append_assoc, List.append_assoc, List.append_assoc,
    List.append_assoc] at h
  obtain ⟨hwhole, h⟩ := digits_unique hn.whole hm.whole (startsDigit_pointed hn.power hrest)
    (startsDigit_pointed hm.power hothers) h
  obtain ⟨hplaces, h⟩ := places_unique hn.places hm.places hn.power hm.power hrest hothers h
  obtain ⟨hpower, hrests⟩ := power_unique hn.power hm.power hrest hothers h
  obtain ⟨_, _, _, _⟩ := n
  obtain ⟨_, _, _, _⟩ := m
  simp only at hnegative hwhole hplaces hpower
  rw [hnegative, hwhole, hplaces, hpower]
  exact ⟨rfl, hrests⟩

/-- A numeral starts with a digit, behind a minus sign or not. -/
theorem Numeral.WellFormed.exists_head (hn : n.WellFormed) (rest : Bytes) :
    ∃ d more, n.unsigned ++ rest = d :: more ∧ isDigit d = true := by
  obtain ⟨d, more, hwhole⟩ := List.exists_cons_of_ne_nil hn.ne_nil
  exact ⟨d, more ++ (pointed n.places ++ Power.text n.power) ++ rest,
    by rw [unsigned, hwhole, List.cons_append, List.cons_append], hn.whole d (hwhole ▸ List.mem_cons_self ..)⟩

theorem Numeral.WellFormed.text_ne_nil (hn : n.WellFormed) : n.text ≠ [] := by
  rw [text]
  split
  · exact List.cons_ne_nil _ _
  · exact fun h => hn.ne_nil (List.append_eq_nil_iff.mp h).1

/-- **One numeral**: bytes begin with a numeral, behind which no more of a number can stand, in one way. -/
theorem Numeral.unique (hn : n.WellFormed) (hm : m.WellFormed) (hrest : Delimits rest)
    (hothers : Delimits others) (h : n.text ++ rest = m.text ++ others) : n = m ∧ rest = others := by
  obtain ⟨d, ds, hd, hdigit⟩ := hn.exists_head rest
  obtain ⟨e, es, he, hdigit'⟩ := hm.exists_head others
  rw [text, text] at h
  cases hnegative : n.negative <;> cases hnegative' : m.negative <;>
    simp only [hnegative, hnegative', if_true, Bool.false_eq_true, if_false, List.cons_append] at h
  · exact unsigned_unique hn hm hrest hothers (hnegative.trans hnegative'.symm) h
  · rw [hd] at h
    exact absurd (List.cons.inj h).1 (ne_of_isDigit hdigit (by decide))
  · rw [he] at h
    exact absurd (List.cons.inj h).1.symm (ne_of_isDigit hdigit' (by decide))
  · exact unsigned_unique hn hm hrest hothers (hnegative.trans hnegative'.symm) (List.cons.inj h).2

end

end Stowage.Json
