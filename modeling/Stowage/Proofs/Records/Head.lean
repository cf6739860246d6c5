import Stowage.Proofs.Json.RoundTrip
import Stowage.Proofs.Json.Tree
import Stowage.Proofs.Text.Strict
import Stowage.Record
/-!
# Stowage — the heads of records

A record shows the first 100 bytes of a text. They are the characters that end within them, and perhaps
some bytes of one character more (`Cut`), which are one broken part and no character
(`pieces_take_encodeChar`). So the head is the longest run of whole characters, and one U+FFFD if the cut
goes through a character (`Record.reference_size_head`).
-/

namespace Stowage.Utf8

/-! ## A character cut in two

A head may end in the middle of a character. What is there of the character then begins rightly and is
not completed, so the decoder takes all of it for one broken part. -/

theorem continuation_take {more : Nat} : ∀ {v : Nat} {bytes left : Bytes} {c : Char},
    continuation more v bytes = (.char c, left) → bytes.length = more + left.length ∧
      ∀ n < more, continuation more v (bytes.take n) = (.broken, []) := by
  -- induction on the bytes that are announced; a byte that is missing leaves the character broken
  induction more with
  | zero =>
    intro v bytes left c h
    rw [continuation_zero] at h
    rw [(Prod.mk.inj h).2, Nat.zero_add]
    exact ⟨rfl, fun n hn => absurd hn (Nat.not_lt_zero n)⟩
  | succ more ih =>
    intro v bytes left c h
    cases bytes with
    | nil => cases h
    | cons b rest =>
      rw [continuation] at h
      split at h
      · rename_i hbounds
        obtain ⟨hlength, hcut⟩ := ih h
        refine ⟨by rw [List.length_cons, hlength]; omega, fun n hn => ?_⟩
        cases n with
        | zero => rfl
        | succ n =>
          rw [List.take_succ_cons, continuation, if_pos hbounds]
          exact hcut n (Nat.lt_of_succ_lt_succ hn)
      · cases h

/-- A character that is cut off is one broken part. -/
theorem piece_take {b : UInt8} {rest left : Bytes} {c : Char} (h : piece b rest = (.char c, left))
    {n : Nat} (hn : n + left.length < rest.length) : piece b (rest.take n) = (.broken, []) := by
  have hb : ¬ b < 0x80 := by
    intro hascii
    rw [piece, if_pos hascii] at h
    rw [(Prod.mk.inj h).2] at hn
    omega
  obtain ⟨lead, d, more, hlead, rfl, hlow, hhigh, hmore⟩ := piece_lead_eq_char hb h
  rw [piece, if_neg hb, hlead]
  cases n with
  | zero => rfl
  | succ n =>
    obtain ⟨hlength, hcut⟩ := continuation_take hmore
    rw [List.length_cons] at hn
    rw [List.take_succ_cons]
    simp only
    rw [if_pos ⟨hlow, hhigh⟩]
    exact hcut n (by omega)

/-- The first bytes of a character, but not all of them, are one broken part. -/
theorem pieces_take_encodeChar {c : Char} {n : Nat} (hpos : 0 < n)
    (hn : n < (String.utf8EncodeChar c).length) :
    pieces ((String.utf8EncodeChar c).take n) = [.broken] := by
  obtain ⟨b, more, hbytes, hpiece⟩ := piece_encodeChar c []
  rw [List.append_nil] at hpiece
  obtain ⟨n, rfl⟩ : ∃ m, n = m + 1 := ⟨n - 1, by omega⟩
  rw [hbytes, List.length_cons] at hn
  rw [hbytes, List.take_succ_cons, pieces_cons, piece_take hpiece (by rw [List.length_nil]; omega),
    pieces_nil]

/-! ## A text cut after some bytes

A text is taken apart at the last character that fits. The next one either starts at the limit, and
nothing of it is left, or straddles the limit. -/

theorem encode_prefix_iff {cs ds : List Char} : encode cs <+: encode ds ↔ cs <+: ds := by
  constructor
  · rintro ⟨rest, hrest⟩
    have hpieces := congrArg pieces hrest
    rw [pieces_encode_append, pieces_encode] at hpieces
    obtain ⟨front, hfront, hcs⟩ := List.prefix_map_iff.mp ⟨_, hpieces⟩
    rw [List.map_inj_right fun _ _ => Piece.char.inj] at hcs
    exact hcs ▸ hfront
  · rintro ⟨rest, rfl⟩
    exact ⟨encode rest, (encode_append cs rest).symm⟩

theorem length_encode_le {cs ds : List Char} (h : cs <+: ds) :
    (encode cs).length ≤ (encode ds).length := (encode_prefix_iff.mpr h).length_le

/-- `LongestRun limit bytes run`: the longest run of whole characters at the start of a byte string that
ends within its first `limit` bytes. -/
structure LongestRun (limit : Nat) (bytes : Bytes) (run : List Char) : Prop where
  starts : encode run <+: bytes
  within : (encode run).length ≤ limit
  longest : ∀ other, encode other <+: bytes → (encode other).length ≤ limit → other <+: run

/-- A character of a byte string starts before byte `limit` and ends after it. -/
def Straddles (limit : Nat) (bytes : Bytes) : Prop :=
  ∃ front c, encode (front ++ [c]) <+: bytes ∧ (encode front).length < limit ∧
    limit < (encode (front ++ [c])).length

/-- `Cut limit run rest`: a text that is cut after the last character that ends within the limit. -/
structure Cut (limit : Nat) (run rest : List Char) : Prop where
  within : (encode run).length ≤ limit
  beyond : ∀ c more, rest = c :: more → limit < (encode (run ++ [c])).length

/-- Every text can be cut at every limit. Induction on its characters. -/
theorem exists_cut (cs : List Char) :
    ∀ limit : Nat, ∃ run rest, cs = run ++ rest ∧ Cut limit run rest := by
  induction cs with
  | nil => exact fun limit => ⟨[], [], rfl, Nat.zero_le _, fun c more h => by cases h⟩
  | cons c cs ih =>
    intro limit
    by_cases hfits : (String.utf8EncodeChar c).length ≤ limit
    · obtain ⟨run, rest, rfl, hcut⟩ := ih (limit - (String.utf8EncodeChar c).length)
      refine ⟨c :: run, rest, rfl, ?_, fun d more hrest => ?_⟩
      · have := hcut.within
        rw [encode_cons, List.length_append]
        omega
      · have := hcut.beyond d more hrest
        rw [List.cons_append, encode_cons, List.length_append]
        omega
    · refine ⟨[], c :: cs, rfl, Nat.zero_le _, fun d more hrest => ?_⟩
      obtain ⟨rfl, rfl⟩ := List.cons.inj hrest
      rw [List.nil_append, encode_cons, encode_nil, List.append_nil]
      omega

section

variable {limit : Nat} {run rest : List Char}

theorem Cut.longestRun (h : Cut limit run rest) : LongestRun limit (encode (run ++ rest)) run := by
  refine ⟨encode_prefix_iff.mpr (List.prefix_append ..), h.within, fun other hother hwithin => ?_⟩
  have hprefix := encode_prefix_iff.mp hother
  rcases List.prefix_or_prefix_of_prefix hprefix (List.prefix_append run rest) with hshort | hlong
  · exact hshort
  obtain ⟨added, rfl⟩ := hlong
  cases added with
  | nil => simp
  | cons c added =>
    -- the first character that is added is the one that is over the limit
    obtain ⟨left, hleft⟩ := (List.prefix_append_right_inj run).mp hprefix
    have hbeyond := h.beyond c (added ++ left) hleft.symm
    have hadded : run ++ [c] <+: run ++ c :: added :=
      (List.prefix_append_right_inj run).mpr ⟨added, rfl⟩
    have := length_encode_le hadded
    omega

/-- The one character that can go over the limit is the first of the rest. -/
theorem Cut.straddles_iff (h : Cut limit run rest) :
    Straddles limit (encode (run ++ rest)) ↔ rest ≠ [] ∧ (encode run).length < limit := by
  constructor
  · rintro ⟨front, c, hprefix, hstart, hend⟩
    have hbeyond : ¬ front ++ [c] <+: run := fun hrun => by
      have := length_encode_le hrun
      have := h.within
      omega
    -- the character ends beyond the limit, so it is no part of the run
    have hall := encode_prefix_iff.mp hprefix
    refine ⟨?_, ?_⟩
    · rintro rfl
      rw [List.append_nil] at hall
      exact hbeyond hall
    · have hrun : run <+: front ++ [c] :=
        (List.prefix_or_prefix_of_prefix (List.prefix_append run rest) hall).resolve_right hbeyond
      rcases List.prefix_concat_iff.mp hrun with hwhole | hfront
      · exact absurd (hwhole ▸ List.prefix_rfl) hbeyond
      · exact Nat.lt_of_le_of_lt (length_encode_le hfront) hstart
  · rintro ⟨hne, hlt⟩
    obtain ⟨c, more, rfl⟩ := List.exists_cons_of_ne_nil hne
    refine ⟨run, c, encode_prefix_iff.mpr ⟨more, ?_⟩, hlt, h.beyond c more rfl⟩
    rw [List.append_assoc, List.singleton_append]

theorem Cut.take (h : Cut limit run rest) :
    (encode (run ++ rest)).take limit =
      encode run ++ (encode rest).take (limit - (encode run).length) := by
  rw [encode_append, List.take_append, List.take_of_length_le h.within]

theorem decodeLossy_encode_append (cs : List Char) (bytes : Bytes) :
    decodeLossy (encode cs ++ bytes) = String.ofList (cs ++ (pieces bytes).map Piece.toChar) := by
  rw [decodeLossy, pieces_encode_append, List.map_append, List.map_map]
  exact congrArg (fun front => String.ofList (front ++ _)) (List.map_id' cs)

/-- What is left of a character that is cut is shown as one U+FFFD. -/
theorem Cut.decodeLossy_of_straddles (h : Cut limit run rest)
    (hstraddles : Straddles limit (encode (run ++ rest))) :
    decodeLossy ((encode (run ++ rest)).take limit) = String.ofList (run ++ ['\uFFFD']) := by
  obtain ⟨hne, hlt⟩ := h.straddles_iff.mp hstraddles
  obtain ⟨c, more, rfl⟩ := List.exists_cons_of_ne_nil hne
  have hbeyond := h.beyond c more rfl
  rw [encode_append, List.length_append, encode_cons, encode_nil, List.append_nil] at hbeyond
  rw [h.take, decodeLossy_encode_append, encode_cons, List.take_append_of_le_length (by omega),
    pieces_take_encodeChar (by omega) (by omega)]
  rfl

theorem Cut.decodeLossy_of_not_straddles (h : Cut limit run rest)
    (hwhole : ¬ Straddles limit (encode (run ++ rest))) :
    decodeLossy ((encode (run ++ rest)).take limit) = String.ofList run := by
  have hnone : (encode rest).take (limit - (encode run).length) = [] := by
    cases rest with
    | nil => exact List.take_nil
    | cons c more =>
      have hlimit : ¬ (encode run).length < limit := fun hlt =>
        hwhole (h.straddles_iff.mpr ⟨List.cons_ne_nil c more, hlt⟩)
      rw [Nat.sub_eq_zero_of_le (Nat.le_of_not_lt hlimit), List.take_zero]
  rw [h.take, hnone, List.append_nil, decodeLossy_encode]

end

/-- **A text that is cut** shows the whole characters before the cut, and one U+FFFD if the cut goes
through a character. -/
theorem decodeLossy_take (limit : Nat) (cs : List Char) :
    ∃ run, LongestRun limit (encode cs) run ∧
      (Straddles limit (encode cs) →
        decodeLossy ((encode cs).take limit) = String.ofList (run ++ ['\uFFFD'])) ∧
      (¬ Straddles limit (encode cs) →
        decodeLossy ((encode cs).take limit) = String.ofList run) := by
  obtain ⟨run, rest, rfl, hcut⟩ := exists_cut cs limit
  exact ⟨run, hcut.longestRun, hcut.decodeLossy_of_straddles, hcut.decodeLossy_of_not_straddles⟩

end Stowage.Utf8

namespace Stowage.Record

/-- **The head of a record.** For every text, whether it is the text of a JSON value or another one, the
record shows its size and its first characters: the longest run of whole characters that ends within the
first 100 bytes, one U+FFFD after them just if a character goes over the byte 100, and nothing else. -/
theorem reference_size_head :
    (∀ value : Json, (Utf8.decode? value.print).isSome = true) ∧
      ∀ (id : String) (bytes : Bytes), (Utf8.decode? bytes).isSome = true →
        (reference id bytes).size = bytes.length ∧
          ∃ run, Utf8.LongestRun 100 bytes run ∧
            (Utf8.Straddles 100 bytes →
              (reference id bytes).head = String.ofList (run ++ ['\uFFFD'])) ∧
            (¬ Utf8.Straddles 100 bytes → (reference id bytes).head = String.ofList run) := by
  constructor
  · intro value
    have hnumbers : Json.AllNumbers (fun _ => True) value :=
      Json.allNumbers_of_forall (fun _ => trivial) value
    obtain ⟨cs, hcs⟩ := Json.isText_print hnumbers
    rw [hcs, Utf8.decode?_encode]
    rfl
  · intro id bytes hvalid
    obtain ⟨text, htext⟩ := Option.isSome_iff_exists.mp hvalid
    obtain rfl := Utf8.decode?_eq_some_iff.mp htext
    exact ⟨rfl, Utf8.decodeLossy_take 100 text.toList⟩

/-- A character of four bytes, cut after two of them. -/
theorem reference_size_head_split :
    let bytes := (Json.string (String.ofList (List.replicate 97 'x' ++ ['😀']))).print
    (reference "r" bytes).size = 103 ∧ Utf8.Straddles 100 bytes ∧
      Utf8.LongestRun 100 bytes ('"' :: List.replicate 97 'x') ∧
      (reference "r" bytes).head = String.ofList ('"' :: List.replicate 97 'x' ++ ['\uFFFD']) := by
  intro bytes
  obtain ⟨hvalid, hheads⟩ := reference_size_head
  obtain ⟨hsize, run, hrun, hsplit, -⟩ := hheads "r" bytes (hvalid _)
  have hstraddles : Utf8.Straddles 100 bytes :=
    ⟨'"' :: List.replicate 97 'x', '😀', by decide +kernel, by decide +kernel, by decide +kernel⟩
  have hhead : (reference "r" bytes).head =
      String.ofList ('"' :: List.replicate 97 'x' ++ ['\uFFFD']) := by decide +kernel
  have hshown := String.ofList_inj.mp ((hsplit hstraddles).symm.trans hhead)
  rw [List.append_cancel_right hshown] at hrun
  exact ⟨hsize.trans (by decide +kernel), hstraddles, hrun, hhead⟩

end Stowage.Record
