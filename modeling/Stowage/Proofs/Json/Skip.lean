import Mathlib.Data.List.DropRight
import Stowage.Proofs.Json.Extent
import Stowage.Proofs.Json.Layout
import Stowage.Proofs.Json.Text
/-!
# Stowage — values that are skipped

Skipping a value passes over the same bytes as reading it (`skipValue_of_value`): wherever the reader of
values succeeds, so does the one that only looks at the outline, and both leave the same rest. The reader
of values calls itself for what stands inside; skipping keeps the open arrays and objects as frames
instead. So a value inside frames is followed to where the frames go on (`resume`), by induction on the
depth of the reader and, for arrays and objects, on what stands in the text.
-/

namespace Stowage.Json

/-! ## Strings

A string that is skipped is not decoded, and an escape for half of a character is skipped like any
other. So more strings can be skipped than read; only those that are read matter here. -/

/-- The four digits of an escape are behind what is left. -/
theorem hexEscape_length {unread rest : Bytes} {n : Nat} (h : hexEscape unread = .ok (n, rest)) :
    rest.length < unread.length := by
  unfold hexEscape at h
  split at h
  · split at h
    · cases h
      simp only [List.length_cons]
      omega
    · cases h
  · cases h

/-- A second half of a surrogate pair is an escape of its own. -/
theorem lowSurrogate_eq_ok {high n : Nat} {unread rest : Bytes}
    (h : lowSurrogate high unread = .ok (n, rest)) :
    ∃ more low, unread = 92 :: 117 :: more ∧ hexEscape more = .ok (low, rest) := by
  unfold lowSurrogate at h
  split at h
  · cases h
  · cases h
  · next more =>
    obtain ⟨⟨low, left⟩, hread, h⟩ := bind_eq_ok h
    simp only at h
    split at h
    · cases h
      exact ⟨more, low, rfl, hread⟩
    · cases h
  · cases h
  · cases h

/-- An escape with four digits is skipped. -/
theorem skipEscape_hex {unread rest : Bytes} {n : Nat} (h : hexEscape unread = .ok (n, rest)) :
    skipEscape (117 :: unread) = .ok ((), rest) := by
  have hnone : shortEscape? 117 = none := by decide
  rw [skipEscape, hnone]
  simp only [Option.isSome_none, Bool.false_eq_true, if_false, if_true, bind, Except.bind, h]

/-- An escape that is read is skipped, in one piece or as the two halves of a surrogate pair. -/
theorem skipEscape_of_escapeSequence {unread rest bytes : Bytes}
    (h : escapeSequence unread = .ok (bytes, rest)) :
    (skipEscape unread = .ok ((), rest) ∧ rest.length < unread.length) ∨
      ∃ more, skipEscape unread = .ok ((), 92 :: 117 :: more) ∧ more.length < unread.length ∧
        skipEscape (117 :: more) = .ok ((), rest) ∧ rest.length < more.length := by
  cases unread with
  | nil => cases h
  | cons b unread =>
    -- a short escape, a character of its own, or two halves of one
    rw [escapeSequence] at h
    split at h
    · next c hshort =>
      cases h
      rw [skipEscape, hshort]
      exact .inl ⟨rfl, Nat.lt_succ_self _⟩
    · next hshort =>
      split at h
      · next hb =>
        subst hb
        obtain ⟨⟨n, left⟩, hread, h⟩ := bind_eq_ok h
        have hlength := hexEscape_length hread
        rw [skipEscape_hex hread, List.length_cons]
        simp only at h
        split at h
        · cases h
        · split at h
          · obtain ⟨⟨c, after⟩, hlow, h⟩ := bind_eq_ok h
            obtain ⟨more, _, heq, hmore⟩ := lowSurrogate_eq_ok hlow
            cases h
            rw [heq] at hlength ⊢
            simp only [List.length_cons] at hlength
            exact .inr ⟨more, rfl, by omega, skipEscape_hex hmore, hexEscape_length hmore⟩
          · cases h
            exact .inl ⟨rfl, by omega⟩
      · cases h

/-- A string that is read is skipped. Induction on the fuel of the reader; skipping takes a step more
where the reader takes both halves of a surrogate pair at once. -/
theorem skipString_of_stringOnto :
    ∀ {n fuel : Nat} {acc unread bytes rest : Bytes}, stringOnto n acc unread = .ok (bytes, rest) →
      unread.length < fuel → skipString fuel unread = .ok ((), rest) := by
  intro n
  induction n with
  | zero => exact fun h => nomatch h
  -- induction on the fuel of the reader; skipping needs one step more for each half of a pair
  | succ n ih =>
    intro fuel acc unread bytes rest h hfuel
    obtain ⟨fuel, rfl⟩ : ∃ k, fuel = k + 1 := ⟨fuel - 1, by omega⟩
    cases unread with
    | nil => cases h
    | cons b unread =>
      rw [stringOnto_cons] at h
      rw [List.length_cons] at hfuel
      rw [skipString]
      split at h
      · next hquote =>
        cases h
        rw [if_pos hquote]
      · next hquote =>
        rw [if_neg hquote]
        split at h
        · next hback =>
          rw [if_pos hback]
          split at h
          · cases h
          · next escaped after hescape =>
            rcases skipEscape_of_escapeSequence hescape with ⟨hskip, hlength⟩ |
              ⟨more, hskip, hlength, hhalf, hshorter⟩
            · rw [hskip]
              exact ih h (by omega)
            · obtain ⟨fuel, rfl⟩ : ∃ k, fuel = k + 1 := ⟨fuel - 1, by omega⟩
              rw [hskip]
              simp only
              rw [skipString, if_neg (by decide), if_pos rfl, hhalf]
              exact ih h (by omega)
        · next hback =>
          rw [if_neg hback]
          split at h
          · cases h
          · next hcontrol =>
            rw [if_neg hcontrol]
            exact ih h (by omega)

/-- A string that is read is skipped, with as much fuel as there are bytes. -/
theorem skipString_of_text {unread rest : Bytes} {s : String} (h : text unread = .ok (s, rest)) :
    skipString (unread.length + 1) unread = .ok ((), rest) := by
  simp only [text] at h
  split at h
  · cases h
  · next hread =>
    split at h
    · cases h
      exact skipString_of_stringOnto hread (Nat.lt_succ_self _)
    · cases h

/-! ## What is left

Skipping is bounded by fuel, so it has to be known that each step leaves fewer bytes than it found. -/

theorem length_skipBlanks_le (bytes : Bytes) : (skipBlanks bytes).length ≤ bytes.length :=
  (List.dropWhile_suffix isBlank).length_le

theorem length_of_skipBlanks {bytes rest : Bytes} {b : UInt8} (h : skipBlanks bytes = b :: rest) :
    rest.length < bytes.length := by
  have hlength := length_skipBlanks_le bytes
  rw [h, List.length_cons] at hlength
  exact hlength

theorem skipBlanks_skipBlanks (bytes : Bytes) : skipBlanks (skipBlanks bytes) = skipBlanks bytes :=
  List.dropWhile_idempotent ..

section

variable {unread rest : Bytes}

theorem length_word : ∀ {cs unread : Bytes}, word cs unread = .ok ((), rest) →
    rest.length ≤ unread.length := by
  intro cs
  induction cs with
  | nil =>
    intro unread h
    cases h
    exact Nat.le_refl _
  | cons c cs ih =>
    intro unread h
    cases unread with
    | nil => cases h
    | cons b unread =>
      rw [word] at h
      split at h
      · exact Nat.le_succ_of_le (ih h)
      · cases h

theorem length_colon (h : colon unread = .ok ((), rest)) : rest.length < unread.length := by
  simp only [colon] at h
  split at h
  · cases h
  · next heq =>
    cases h
    exact length_of_skipBlanks heq
  · cases h

theorem length_skipExponentDigits (h : skipExponentDigits unread = .ok ((), rest)) :
    rest.length ≤ unread.length := by
  cases unread with
  | nil => cases h
  | cons b unread =>
    rw [skipExponentDigits] at h
    split at h
    · cases h
      exact Nat.le_succ_of_le (List.dropWhile_suffix isDigit).length_le
    · cases h

theorem length_afterSign (unread : Bytes) : (afterSign unread).length ≤ unread.length := by
  unfold afterSign
  split
  · exact Nat.le_succ _
  · exact Nat.le_succ _
  · exact Nat.le_refl _

theorem length_skipOptionalExponent (h : skipOptionalExponent unread = .ok ((), rest)) :
    rest.length ≤ unread.length := by
  rw [skipOptionalExponent] at h
  split at h
  · rw [skipExponent_eq] at h
    have hdigits := length_skipExponentDigits h
    have hsign := length_afterSign unread.tail
    rw [List.length_tail] at hsign
    omega
  · cases h
    exact Nat.le_refl _

theorem length_skipFraction (h : skipFraction unread = .ok ((), rest)) :
    rest.length ≤ unread.length := by
  by_cases hpoint : ∃ more, unread = 46 :: more
  · obtain ⟨more, rfl⟩ := hpoint
    rw [skipFraction_point] at h
    split at h
    · have hdrop : (more.dropWhile isDigit).length ≤ more.length :=
        (List.dropWhile_suffix isDigit).length_le
      have hexponent := length_skipOptionalExponent h
      rw [List.length_cons]
      omega
    · cases h
  · rw [skipFraction_of_ne fun more heq => hpoint ⟨more, heq⟩] at h
    exact length_skipOptionalExponent h

/-- A number has one digit at least. -/
theorem length_skipNumber (h : skipNumber unread = .ok ((), rest)) : rest.length < unread.length := by
  cases unread with
  | nil => cases h
  | cons b unread =>
    rw [skipNumber] at h
    split at h
    · split at h
      · cases h
      · exact Nat.lt_succ_of_le (length_skipFraction h)
    · split at h
      · have hdrop : (unread.dropWhile isDigit).length ≤ unread.length :=
          (List.dropWhile_suffix isDigit).length_le
        exact Nat.lt_succ_of_le (Nat.le_trans (length_skipFraction h) hdrop)
      · cases h

theorem length_skipEscape (h : skipEscape unread = .ok ((), rest)) : rest.length < unread.length := by
  cases unread with
  | nil => cases h
  | cons b unread =>
    rw [skipEscape] at h
    split at h
    · cases h
      exact Nat.lt_succ_self _
    · split at h
      · obtain ⟨⟨n, left⟩, hread, h⟩ := bind_eq_ok h
        cases h
        exact Nat.lt_succ_of_lt (hexEscape_length hread)
      · cases h

/-- A string takes at least its closing quote. -/
theorem length_skipString : ∀ {fuel : Nat} {unread : Bytes},
    skipString fuel unread = .ok ((), rest) → rest.length < unread.length := by
  intro fuel
  induction fuel with
  | zero => exact fun h => nomatch h
  | succ fuel ih =>
    intro unread h
    cases unread with
    | nil => cases h
    | cons b unread =>
      -- a quote ends the string; an escape or any other byte takes at least one
      rw [skipString] at h
      split at h
      · cases h
        exact Nat.lt_succ_self _
      · split at h
        · split at h
          · cases h
          · next hescape =>
            exact Nat.lt_succ_of_lt (Nat.lt_trans (ih h) (length_skipEscape hescape))
        · split at h
          · cases h
          · exact Nat.lt_succ_of_lt (ih h)

end

section

variable {α : Type} {item : Bytes → α → Bytes → Prop} {unread rest : Bytes}

/-- A member takes at least a byte. -/
theorem length_memberAt (hitem : ∀ unread a rest, item unread a rest → rest.length < unread.length)
    {key : String} {a : α} (h : MemberAt item unread key a rest) : rest.length < unread.length := by
  obtain ⟨hkey, hcolon, hread⟩ := h
  have hmid := length_skipString (skipString_of_text hkey)
  have hnext := length_colon hcolon
  have hrest := hitem _ _ _ hread
  omega

/-- The end of an array takes at least a byte. -/
theorem length_moreItems (hitem : ∀ unread a rest, item unread a rest → rest.length < unread.length)
    {as : List α} (h : MoreItems item unread as rest) : rest.length < unread.length := by
  induction h with
  | close h => exact length_of_skipBlanks h
  | @comma _ next _ _ _ _ h hread _ ih =>
    have hcomma := length_of_skipBlanks h
    have hblanks := length_skipBlanks_le next
    have hafter := hitem _ _ _ hread
    omega

theorem length_listAt (hitem : ∀ unread a rest, item unread a rest → rest.length < unread.length)
    {as : List α} (h : ListAt item unread as rest) : rest.length < unread.length := by
  cases h with
  | empty h => exact length_of_skipBlanks h
  | first h hb hread hmore =>
    have hblanks := length_skipBlanks_le unread
    have hafter := hitem _ _ _ hread
    have hrest := length_moreItems hitem hmore
    rw [h] at hblanks
    omega

/-- The end of an object takes at least a byte. -/
theorem length_moreMembers (hitem : ∀ unread a rest, item unread a rest → rest.length < unread.length)
    {ms : List (String × α)} (h : MoreMembers item unread ms rest) : rest.length < unread.length := by
  induction h with
  | close h => exact length_of_skipBlanks h
  | comma h hquote hmember _ ih =>
    have hcomma := length_of_skipBlanks h
    have hinside := length_of_skipBlanks hquote
    have hafter := length_memberAt hitem hmember
    omega

theorem length_objectAt (hitem : ∀ unread a rest, item unread a rest → rest.length < unread.length)
    {ms : List (String × α)} (h : ObjectAt item unread ms rest) : rest.length < unread.length := by
  cases h with
  | empty h => exact length_of_skipBlanks h
  | first hquote hmember hmore =>
    have hinside := length_of_skipBlanks hquote
    have hafter := length_memberAt hitem hmember
    have hrest := length_moreMembers hitem hmore
    omega

end

/-! ## Frames

An open array or object is a frame, and what is skipped next depends on the innermost one. `resume` is
the point in between two values, where frames are closed or a comma is passed. -/

/-- Goes on with skipping behind the start of a frame or behind a value in it. -/
def resume (fuel : Nat) (frames : List Frame) (comma : Bool) (unread : Bytes) :
    Except Stop (Unit × Bytes) :=
  match closeFrames frames comma unread with
  | .error stop => .error stop
  | .ok (.done unread) => .ok ((), unread)
  | .ok (.value frames unread) => skipFrames fuel frames unread

theorem resume_nil (fuel : Nat) (comma : Bool) (unread : Bytes) :
    resume fuel [] comma unread = .ok ((), unread) := rfl

/-- Blanks do not matter before a value. -/
theorem skipFrames_skipBlanks (fuel : Nat) (frames : List Frame) (unread : Bytes) :
    skipFrames fuel frames (skipBlanks unread) = skipFrames fuel frames unread := by
  cases fuel with
  | zero => rfl
  | succ fuel => rw [skipFrames, skipFrames, skipBlanks_skipBlanks]

section

variable {frames : List Frame} {unread rest next more : Bytes} {b : UInt8} (fuel : Nat)

/-- What stands next in a frame: a value, in an object behind its key. -/
def insideFrame (frame : Frame) (frames : List Frame) (unread : Bytes) : Except Stop Next :=
  match frame with
  | .list => .ok (.value (.list :: frames) unread)
  | .map =>
    match skipKey unread with
    | .error stop => .error stop
    | .ok ((), unread) => .ok (.value (.map :: frames) unread)

/-- What comes next in a frame: a comma, its end, its first value, or nothing that fits. -/
theorem closeFrames_cons (frame : Frame) (comma : Bool) (h : skipBlanks unread = b :: more) :
    closeFrames (frame :: frames) comma unread =
      if comma ∧ b = 44 then insideFrame frame frames more
      else if (frame = .list ∧ b = 93) ∨ (frame = .map ∧ b = 125) then closeFrames frames true more
      else if comma then
        Stop.afterByte (match frame with | .list => .expectedListEnd | .map => .expectedObjectEnd)
          (b :: more)
      else insideFrame frame frames (b :: more) := by
  cases frame
  all_goals
    rw [closeFrames, h]
    rfl

theorem resume_closeList (comma : Bool) (h : skipBlanks unread = 93 :: rest) :
    resume fuel (.list :: frames) comma unread = resume fuel frames true rest := by
  have hclose : closeFrames (.list :: frames) comma unread = closeFrames frames true rest := by
    rw [closeFrames_cons _ _ h]
    simp
  rw [resume, hclose]
  rfl

theorem resume_closeMap (comma : Bool) (h : skipBlanks unread = 125 :: rest) :
    resume fuel (.map :: frames) comma unread = resume fuel frames true rest := by
  have hclose : closeFrames (.map :: frames) comma unread = closeFrames frames true rest := by
    rw [closeFrames_cons _ _ h]
    simp
  rw [resume, hclose]
  rfl

/-- Behind a comma, the next item is skipped. -/
theorem resume_commaList (h : skipBlanks unread = 44 :: next) :
    resume fuel (.list :: frames) true unread = skipFrames fuel (.list :: frames) next := by
  have hclose : closeFrames (.list :: frames) true unread = .ok (.value (.list :: frames) next) := by
    rw [closeFrames_cons _ _ h]
    simp [insideFrame]
  rw [resume, hclose]

/-- Behind the bracket, the first item is skipped. -/
theorem resume_firstList (h : skipBlanks unread = b :: more) (hb : b ≠ 93) :
    resume fuel (.list :: frames) false unread = skipFrames fuel (.list :: frames) unread := by
  have hclose : closeFrames (.list :: frames) false unread =
      .ok (.value (.list :: frames) (b :: more)) := by
    rw [closeFrames_cons _ _ h]
    simp [insideFrame, hb]
  rw [resume, hclose, ← h]
  exact skipFrames_skipBlanks ..

/-- Behind a comma and a key, the next value is skipped. -/
theorem resume_commaMap (h : skipBlanks unread = 44 :: next) (hkey : skipKey next = .ok ((), rest)) :
    resume fuel (.map :: frames) true unread = skipFrames fuel (.map :: frames) rest := by
  have hclose : closeFrames (.map :: frames) true unread = .ok (.value (.map :: frames) rest) := by
    rw [closeFrames_cons _ _ h]
    simp [insideFrame, hkey]
  rw [resume, hclose]

/-- Behind the first key, its value is skipped. -/
theorem resume_firstMap (h : skipBlanks unread = 34 :: more) (hkey : skipKey unread = .ok ((), rest)) :
    resume fuel (.map :: frames) false unread = skipFrames fuel (.map :: frames) rest := by
  have hquoted : skipKey (34 :: more) = .ok ((), rest) := by
    rw [← hkey, skipKey, skipKey, ← h, skipBlanks_skipBlanks]
  have hclose : closeFrames (.map :: frames) false unread = .ok (.value (.map :: frames) rest) := by
    rw [closeFrames_cons _ _ h]
    simp [insideFrame, hquoted]
  rw [resume, hclose]

end

/-- `Passes item`: what the reader reads is skipped as one value, within any frames. Some fuel is used up,
and enough is left for the rest. -/
def Passes (item : Reader Json) : Prop :=
  ∀ {unread rest : Bytes} {v : Json}, item unread = .ok (v, rest) →
    ∀ {fuel : Nat} (frames : List Frame), unread.length < fuel →
      ∃ fuel' < fuel, rest.length < fuel' ∧
        skipFrames fuel frames unread = resume fuel' frames true rest

section

variable {item : Reader Json} {unread rest : Bytes}

/-- A key that is read is skipped, with its colon. -/
theorem skipKey_of_text {inside mid next : Bytes} {key : String}
    (hquote : skipBlanks unread = 34 :: inside) (hkey : text inside = .ok (key, mid))
    (hcolon : colon mid = .ok ((), next)) :
    skipKey unread = .ok ((), next) ∧ next.length < unread.length := by
  have hskip := skipString_of_text hkey
  constructor
  · rw [skipKey, hquote]
    simp only [bind, Except.bind, hskip]
    exact hcolon
  · have hinside := length_of_skipBlanks hquote
    have hmid := length_skipString hskip
    have hnext := length_colon hcolon
    omega

/-- The items behind the first are passed over up to the bracket. Induction on what stands there. -/
theorem moreItems_passes (hitem : Passes item) {vs : List Json}
    (h : MoreItems item.Takes unread vs rest) : ∀ {fuel : Nat} (frames : List Frame), unread.length < fuel →
      ∃ fuel' ≤ fuel, rest.length < fuel' ∧
        resume fuel (.list :: frames) true unread = resume fuel' frames true rest := by
  induction h with
  | close h =>
    intro fuel frames hfuel
    exact ⟨fuel, Nat.le_refl _, Nat.lt_trans (length_of_skipBlanks h) hfuel,
      resume_closeList fuel true h⟩
  | @comma unread next after rest v vs h hread hmore ih =>
    intro fuel frames hfuel
    have hnext := length_of_skipBlanks h
    have hblanks := length_skipBlanks_le next
    have hfit : (skipBlanks next).length < fuel := by omega
    obtain ⟨fuel₁, hless₁, hfuel₁, hvalue⟩ := hitem hread (.list :: frames) hfit
    obtain ⟨fuel₂, hless₂, hfuel₂, hrest⟩ := ih frames hfuel₁
    refine ⟨fuel₂, by omega, hfuel₂, ?_⟩
    rw [resume_commaList fuel h, ← skipFrames_skipBlanks, hvalue, hrest]

/-- The items of an array are passed over up to its bracket. -/
theorem listAt_passes (hitem : Passes item) {values : List Json}
    (h : ListAt item.Takes unread values rest) {fuel : Nat} (frames : List Frame)
    (hfuel : unread.length < fuel) :
    ∃ fuel' ≤ fuel, rest.length < fuel' ∧
      resume fuel (.list :: frames) false unread = resume fuel' frames true rest := by
  cases h with
  | empty h =>
    exact ⟨fuel, Nat.le_refl _, Nat.lt_trans (length_of_skipBlanks h) hfuel,
      resume_closeList fuel false h⟩
  | first h hb hread hmore =>
    have hblanks := length_skipBlanks_le unread
    rw [← h] at hread
    have hfit : (skipBlanks unread).length < fuel := by omega
    obtain ⟨fuel₁, hless₁, hfuel₁, hvalue⟩ := hitem hread (.list :: frames) hfit
    obtain ⟨fuel₂, hless₂, hfuel₂, hrest⟩ := moreItems_passes hitem hmore frames hfuel₁
    refine ⟨fuel₂, by omega, hfuel₂, ?_⟩
    rw [resume_firstList fuel h hb, ← skipFrames_skipBlanks, hvalue, hrest]

/-- The members behind the first are passed over up to the brace. Induction on what stands there. -/
theorem moreMembers_passes (hitem : Passes item) {ms : List (String × Json)}
    (h : MoreMembers item.Takes unread ms rest) :
    ∀ {fuel : Nat} (frames : List Frame), unread.length < fuel →
      ∃ fuel' ≤ fuel, rest.length < fuel' ∧
        resume fuel (.map :: frames) true unread = resume fuel' frames true rest := by
  induction h with
  | close h =>
    intro fuel frames hfuel
    exact ⟨fuel, Nat.le_refl _, Nat.lt_trans (length_of_skipBlanks h) hfuel,
      resume_closeMap fuel true h⟩
  | @comma unread next inside after rest key v ms h hquote hmember hmore ih =>
    intro fuel frames hfuel
    obtain ⟨hkey, hcolon, hread⟩ := hmember
    have hnext := length_of_skipBlanks h
    obtain ⟨hskip, hlength⟩ := skipKey_of_text hquote hkey hcolon
    obtain ⟨fuel₁, hless₁, hfuel₁, hvalue⟩ :=
      hitem hread (.map :: frames) (Nat.lt_trans hlength (Nat.lt_trans hnext hfuel))
    obtain ⟨fuel₂, hless₂, hfuel₂, hrest⟩ := ih frames hfuel₁
    exact ⟨fuel₂, by omega, hfuel₂, by rw [resume_commaMap fuel h hskip, hvalue, hrest]⟩

/-- The members of an object are passed over up to its brace. -/
theorem objectAt_passes (hitem : Passes item) {pairs : List (String × Json)}
    (h : ObjectAt item.Takes unread pairs rest) {fuel : Nat} (frames : List Frame)
    (hfuel : unread.length < fuel) :
    ∃ fuel' ≤ fuel, rest.length < fuel' ∧
      resume fuel (.map :: frames) false unread = resume fuel' frames true rest := by
  cases h with
  | empty h =>
    exact ⟨fuel, Nat.le_refl _, Nat.lt_trans (length_of_skipBlanks h) hfuel,
      resume_closeMap fuel false h⟩
  | first hquote hmember hmore =>
    obtain ⟨hkey, hcolon, hread⟩ := hmember
    obtain ⟨hskip, hlength⟩ := skipKey_of_text hquote hkey hcolon
    obtain ⟨fuel₁, hless₁, hfuel₁, hvalue⟩ :=
      hitem hread (.map :: frames) (Nat.lt_trans hlength hfuel)
    obtain ⟨fuel₂, hless₂, hfuel₂, hrest⟩ := moreMembers_passes hitem hmore frames hfuel₁
    exact ⟨fuel₂, by omega, hfuel₂, by rw [resume_firstMap fuel hquote hskip, hvalue, hrest]⟩

/-- **One value.** The first byte decides how it is skipped, and whether frames are opened for it. -/
theorem valueWith_passes {inner : Option (Reader Json)}
    (hinner : ∀ item, inner = some item → Passes item) : Passes (valueWith inner) := by
  intro unread rest v h fuel frames hfuel
  -- the value begins with a byte that has been read, and one unit of fuel goes with it
  obtain ⟨b, bytes, hunread, hat⟩ := valueAt_of_valueWith h
  have hbytes := length_of_skipBlanks hunread
  obtain ⟨fuel, rfl⟩ : ∃ k, fuel = k + 1 := ⟨fuel - 1, by omega⟩
  have hfit : bytes.length < fuel := by omega
  rw [skipFrames, hunread]
  cases hat with
  | null h =>
    have hlength := length_word h
    exact ⟨fuel, Nat.lt_succ_self _, by omega, by simp only [if_true, h]; rfl⟩
  | true h =>
    have hlength := length_word h
    refine ⟨fuel, Nat.lt_succ_self _, by omega, ?_⟩
    simp only
    rw [if_neg (by decide), if_pos trivial, h]
    rfl
  | false h =>
    have hlength := length_word h
    refine ⟨fuel, Nat.lt_succ_self _, by omega, ?_⟩
    simp only
    rw [if_neg (by decide), if_neg (by decide), if_pos trivial, h]
    rfl
  | minus h =>
    have hskip := skipNumber_of_unsignedNumber h
    have hlength := length_skipNumber hskip
    refine ⟨fuel, Nat.lt_succ_self _, by omega, ?_⟩
    simp only
    rw [if_neg (by decide), if_neg (by decide), if_neg (by decide), if_pos trivial, hskip]
    rfl
  | digit hb h =>
    have hskip := skipNumber_of_unsignedNumber h
    have hlength := length_skipNumber hskip
    rw [List.length_cons] at hlength
    refine ⟨fuel, Nat.lt_succ_self _, by omega, ?_⟩
    simp only
    rw [if_neg (ne_of_isDigit hb (by decide)), if_neg (ne_of_isDigit hb (by decide)),
      if_neg (ne_of_isDigit hb (by decide)), if_neg (ne_of_isDigit hb (by decide)), if_pos hb, hskip]
    rfl
  | string h =>
    have hskip := skipString_of_text h
    have hlength := length_skipString hskip
    refine ⟨fuel, Nat.lt_succ_self _, by omega, ?_⟩
    simp only
    rw [if_neg (by decide), if_neg (by decide), if_neg (by decide), if_neg (by decide),
      if_neg (by decide), if_pos trivial, hskip]
    rfl
  | array hsome h =>
    obtain ⟨fuel', hless, hfuel', hresume⟩ :=
      listAt_passes (hinner _ hsome) h frames hfit
    refine ⟨fuel', Nat.lt_succ_of_le hless, hfuel', ?_⟩
    simp only
    rw [if_neg (by decide), if_neg (by decide), if_neg (by decide), if_neg (by decide),
      if_neg (by decide), if_neg (by decide), if_pos trivial]
    exact hresume
  | object hsome h =>
    obtain ⟨fuel', hless, hfuel', hresume⟩ :=
      objectAt_passes (hinner _ hsome) h frames hfit
    refine ⟨fuel', Nat.lt_succ_of_le hless, hfuel', ?_⟩
    simp only
    rw [if_neg (by decide), if_neg (by decide), if_neg (by decide), if_neg (by decide),
      if_neg (by decide), if_neg (by decide), if_neg (by decide), if_pos trivial]
    exact hresume

/-- **Values** are passed over at every depth. Induction on the depth. -/
theorem value_passes (depth : Nat) : Passes (value depth) := by
  induction depth with
  | zero =>
    refine @valueWith_passes none fun item hitem => ?_
    cases hitem
  | succ depth ih =>
    refine @valueWith_passes (some (value depth)) fun item hitem => ?_
    cases hitem
    exact ih

/-- **Skipping a value** leaves what reading it leaves. -/
theorem skipValue_of_value {depth : Nat} {v : Json} (h : value depth unread = .ok (v, rest)) :
    skipValue unread = .ok ((), rest) := by
  obtain ⟨fuel, -, -, hskip⟩ := value_passes depth h [] (Nat.lt_succ_self _)
  rw [skipValue, hskip, resume_nil]

theorem length_value {depth : Nat} {v : Json} (h : value depth unread = .ok (v, rest)) :
    rest.length < unread.length := by
  obtain ⟨fuel, hless, hfuel, -⟩ := value_passes depth h [] (Nat.lt_succ_self _)
  omega

end

end Stowage.Json
