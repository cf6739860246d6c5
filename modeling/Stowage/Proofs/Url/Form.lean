import Stowage.Proofs.Url.Percent
import Stowage.Url.Form
/-!
# Stowage — form fields read back

Fields whose names and values are words, letters and digits and underscores, are written as they are:
none of their bytes separates fields, is escaped, or stands for a blank. Such fields, joined by
ampersands, are read back in order (`decode_line`).
-/

namespace Stowage.Form

/-! ## Words

Letters, digits and underscores are written as they are. The names and values of the fields here are
made of nothing else. -/

/-- Letters, digits and underscores. -/
def IsWord (cs : List Char) : Prop := ∀ c ∈ cs, c.isAlphanum = true ∨ c = '_'

instance (cs : List Char) : Decidable (IsWord cs) := List.decidableBAll ..

theorem toNat_of_isAlphanum {c : Char} (h : c.isAlphanum = true) :
    (48 ≤ c.toNat ∧ c.toNat ≤ 57) ∨ (65 ≤ c.toNat ∧ c.toNat ≤ 90) ∨
      (97 ≤ c.toNat ∧ c.toNat ≤ 122) := by
  have hranges : (decide (65 ≤ c.toNat ∧ c.toNat ≤ 90) ||
      (decide (97 ≤ c.toNat) && decide (c.toNat ≤ 122)) ||
      (decide (48 ≤ c.toNat) && decide (c.toNat ≤ 57))) = true := h
  simp only [Bool.or_eq_true, Bool.and_eq_true, decide_eq_true_eq] at hranges
  omega

/-- A byte that stands for itself in a field: no ampersand, no equals sign, no plus sign and no percent
sign. -/
def Inert (b : UInt8) : Prop := b ≠ 38 ∧ b ≠ 61 ∧ b ≠ 43 ∧ b ≠ 37

theorem IsWord.inert {cs : List Char} (h : IsWord cs) : ∀ b ∈ Utf8.encode cs, Inert b := by
  intro b hb
  obtain ⟨c, hc, hmem⟩ := List.mem_flatMap.mp hb
  rcases h c hc with hletter | rfl
  · have hrange := toNat_of_isAlphanum hletter
    rw [Utf8.encodeChar_ascii (by omega), List.mem_singleton] at hmem
    subst hmem
    refine ⟨?_, ?_, ?_, ?_⟩ <;> rw [Ne, Utf8.ofNat_eq (by omega)]
    · show ¬ c.toNat = 38
      omega
    · show ¬ c.toNat = 61
      omega
    · show ¬ c.toNat = 43
      omega
    · show ¬ c.toNat = 37
      omega
  · have hunder : b = 95 := List.mem_singleton.mp hmem
    subst hunder
    exact ⟨by decide, by decide, by decide, by decide⟩

theorem decode_inert {bytes : Bytes} (h : ∀ b ∈ bytes, Inert b) : Percent.decode bytes = bytes := by
  induction bytes with
  | nil => rfl
  | cons b bytes ih =>
    rw [Percent.decode_cons_of_ne (h b (List.mem_cons_self ..)).2.2.2,
      ih fun x hx => h x (List.mem_cons_of_mem _ hx)]

/-- A word is read as it is written. -/
theorem text_word {cs : List Char} (h : IsWord cs) : text (Utf8.encode cs) = String.ofList cs := by
  have hblank : (Utf8.encode cs).map (fun b => if b = 43 then 32 else b) = Utf8.encode cs := by
    rw [List.map_congr_left fun b hb => if_neg (h.inert b hb).2.2.1, List.map_id']
  rw [text, hblank, decode_inert h.inert, Utf8.decodeLossy_encode]

/-! ## Fields

Fields are split at ampersands and at the first equals sign, and words have neither. -/

theorem split_ne_nil (bytes : Bytes) : split bytes ≠ [] := by
  cases bytes with
  | nil => nofun
  | cons b rest =>
    rw [split]
    split
    · split <;> nofun
    · nofun

theorem split_inert {part : Bytes} (h : ∀ b ∈ part, b ≠ 38) : split part = [part] := by
  induction part with
  | nil => rfl
  | cons b part ih =>
    rw [split, ih fun x hx => h x (List.mem_cons_of_mem _ hx)]
    exact if_neg (h b (List.mem_cons_self ..))

/-- The first ampersand ends the first part. -/
theorem split_append {part : Bytes} (h : ∀ b ∈ part, b ≠ 38) (rest : Bytes) :
    split (part ++ 38 :: rest) = part :: split rest := by
  induction part with
  | nil =>
    rw [List.nil_append, split]
    cases hrest : split rest with
    | nil => exact absurd hrest (split_ne_nil rest)
    | cons next parts => rfl
  | cons b part ih =>
    rw [List.cons_append, split, ih fun x hx => h x (List.mem_cons_of_mem _ hx)]
    exact if_neg (h b (List.mem_cons_self ..))

/-- Fields as they are written: a name, an equals sign and a value, joined by ampersands. -/
def line : List (String × String) → List Char
  | [] => []
  | [(key, value)] => key.toList ++ '=' :: value.toList
  | (key, value) :: rest => key.toList ++ '=' :: value.toList ++ '&' :: line rest

/-- The bytes of a field as it is written. -/
theorem encode_field (key value : List Char) :
    Utf8.encode (key ++ '=' :: value) = Utf8.encode key ++ 61 :: Utf8.encode value := by
  rw [Utf8.encode_append, Utf8.encode_cons]
  rfl

/-- A field of two words is read as they are written. -/
theorem field_word {key value : String} (hkey : IsWord key.toList) (hvalue : IsWord value.toList) :
    field (Utf8.encode (key.toList ++ '=' :: value.toList)) = (key, value) := by
  have hall : ∀ b ∈ Utf8.encode key.toList, (decide (b ≠ 61)) = true := fun b hb =>
    decide_eq_true (hkey.inert b hb).2.1
  rw [field, encode_field, List.takeWhile_append_of_pos hall, List.dropWhile_append_of_pos hall]
  show (text (Utf8.encode key.toList ++ []), text (Utf8.encode value.toList)) = _
  rw [List.append_nil, text_word hkey, text_word hvalue, String.ofList_toList, String.ofList_toList]

/-- No ampersand stands in a field. -/
theorem ne_of_mem_field {key value : String} (hkey : IsWord key.toList)
    (hvalue : IsWord value.toList) :
    ∀ b ∈ Utf8.encode (key.toList ++ '=' :: value.toList), b ≠ 38 := by
  intro b hb
  rw [encode_field, List.mem_append, List.mem_cons] at hb
  rcases hb with hb | rfl | hb
  · exact (hkey.inert b hb).1
  · decide
  · exact (hvalue.inert b hb).1

theorem encode_field_ne_nil (key value : List Char) : Utf8.encode (key ++ '=' :: value) ≠ [] := by
  rw [encode_field]
  exact List.append_ne_nil_of_right_ne_nil _ (List.cons_ne_nil _ _)

/-- **Fields are read back.** Induction on the fields as they are written; the ampersand after a field
is the first one. -/
theorem decode_line {fields : List (String × String)}
    (h : ∀ f ∈ fields, IsWord f.1.toList ∧ IsWord f.2.toList) :
    decode (Utf8.encode (line fields)) = fields := by
  induction fields using line.induct with
  | case1 => rfl
  | case2 key value =>
    obtain ⟨hkey, hvalue⟩ := h _ (List.mem_singleton_self _)
    have hempty := encode_field_ne_nil key.toList value.toList
    rw [line, decode, split_inert (ne_of_mem_field hkey hvalue), List.filter_cons,
      if_pos (by simpa using hempty), List.filter_nil, List.map_singleton, field_word hkey hvalue]
  | case3 key value rest hrest ih =>
    obtain ⟨hkey, hvalue⟩ := h _ (List.mem_cons_self ..)
    have hempty := encode_field_ne_nil key.toList value.toList
    have hbytes : Utf8.encode (line ((key, value) :: rest)) =
        Utf8.encode (key.toList ++ '=' :: value.toList) ++ 38 :: Utf8.encode (line rest) := by
      rw [line, Utf8.encode_append, Utf8.encode_cons]
      · rfl
      · exact hrest
    rw [hbytes, decode, split_append (ne_of_mem_field hkey hvalue), List.filter_cons,
      if_pos (by simpa using hempty), List.map_cons, field_word hkey hvalue, ← decode,
      ih fun f hf => h f (List.mem_cons_of_mem _ hf)]

end Stowage.Form
