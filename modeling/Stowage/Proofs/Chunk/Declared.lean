import Stowage.Proofs.Chunk.Fetch
import Stowage.World
/-!
# Stowage — declared sizes

A reference declares the size of its payload, and a fetch believes it. This module says what comes of
a declared size that is not the size of what is stored: `fetch_declared` gives the result of a fetch
for every declared size, in any world that answers its calls as a store with all of the payload does
(`Served`). A size that is too large is noticed when the payload ends. One that is too small is
noticed by the window that goes beyond it, and there is such a window only if the declared size is not
where a window ends anyway: otherwise the fetch succeeds with a proper prefix of the payload.
-/

namespace Stowage.Chunk

/-- A call for a window that was answered by a store, however long it took. -/
def Served (store : Store) : (c : Call) × c.Reply → Prop
  | ⟨.get r _, reply⟩ => ∃ spent, reply = some (spent, store.get r)
  | _ => True

namespace Transfer

/-- What becomes of a fetch of `data` with a declared size. -/
def verdict (t : Transfer) (data : Bytes) (total : Nat) : Except Failure Bytes :=
  if data.length < total then .error (.transport data.length (.endedEarly data.length total))
  else if total = data.length ∨ t.chunkSize ∣ total then .ok (data.take total)
  else .error (.transport (total / t.chunkSize * t.chunkSize) (.overrun total))

/-- A declared size above the length of the payload is noticed at its end. -/
theorem verdict_of_lt {t : Transfer} {data : Bytes} {total : Nat} (h : data.length < total) :
    t.verdict data total = .error (.transport data.length (.endedEarly data.length total)) :=
  if_pos h

/-- A declared size that is the length of the payload, or a multiple of the chunk size below it, is
taken for the truth. -/
theorem verdict_of_dvd {t : Transfer} {data : Bytes} {total : Nat} (hle : total ≤ data.length)
    (h : total = data.length ∨ t.chunkSize ∣ total) :
    t.verdict data total = .ok (data.take total) := by
  unfold verdict
  rw [if_neg (Nat.not_lt.mpr hle), if_pos h]

/-- Any other declared size is noticed at the window that goes beyond it. -/
theorem verdict_of_not_dvd {t : Transfer} {data : Bytes} {total : Nat} (hlt : total < data.length)
    (h : ¬ t.chunkSize ∣ total) :
    t.verdict data total =
      .error (.transport (total / t.chunkSize * t.chunkSize) (.overrun total)) := by
  have hne : ¬(total = data.length ∨ t.chunkSize ∣ total) := by
    rintro (heq | hdvd)
    · omega
    · exact h hdvd
  unfold verdict
  rw [if_neg (by omega), if_neg hne]

/-- Between two multiples of the chunk size there is none, and the lower one is what division finds. -/
theorem div_mul_chunkSize {size offset total : Nat} (hdvd : size ∣ offset) (hlt : offset < total)
    (hlt' : total < offset + size) : ¬ size ∣ total ∧ total / size * size = offset := by
  obtain ⟨n, rfl⟩ := hdvd
  refine ⟨?_, ?_⟩
  · rintro ⟨m, rfl⟩
    rw [← Nat.mul_succ] at hlt'
    have hlow : n < m := Nat.lt_of_mul_lt_mul_left hlt
    have hhigh : m < n + 1 := Nat.lt_of_mul_lt_mul_left hlt'
    omega
  · have hdiv : total / size = n := by
      refine Nat.div_eq_of_lt_le ?_ ?_
      · rw [Nat.mul_comm]
        exact Nat.le_of_lt hlt
      · rw [Nat.succ_mul, Nat.mul_comm]
        exact hlt'
    rw [hdiv, Nat.mul_comm]

variable {t : Transfer} {ref : String} {total : Nat} {store : Store} {data : Bytes}

/-- After windows that were all full, the window that ends a fetch leads to the verdict. -/
theorem Ends.eq_verdict {offset spent : Nat} {result : Except Failure Bytes}
    (h : Ends t total (data.take offset) (some (spent, .ok (windowAt data offset t.chunkSize)))
      result)
    (hle : offset ≤ data.length) (hmore : offset < total) (hdvd : t.chunkSize ∣ offset) :
    result = t.verdict data total := by
  have hone := t.one_le_chunkSize
  have hlength := length_windowAt hle t.chunkSize
  have hreceived : (data.take offset).length = offset := List.length_take_of_le hle
  cases h with
  | empty _ _ hempty =>
    -- there was nothing left to ask for
    rw [hempty, List.length_nil] at hlength
    have hend : offset = data.length := by omega
    rw [verdict_of_lt (by omega), hreceived, hend]
  | tooLong _ _ hlong => omega
  | overrun _ _ hover =>
    rw [hreceived] at hover
    obtain ⟨hnot, hdiv⟩ := div_mul_chunkSize hdvd hmore (by omega : total < offset + t.chunkSize)
    rw [verdict_of_not_dvd (by omega) hnot, hdiv, hreceived]
  | last _ _ _ hlast hall =>
    -- the last window ends where the payload does
    rw [isLast_windowAt, decide_eq_true_iff] at hlast
    rw [hreceived, hlength] at hall
    rw [verdict_of_dvd (by omega) (.inl (by omega)), take_append_windowAt hle,
      List.take_of_length_le hlast, List.take_of_length_le (by omega)]
  | early _ _ _ hlast hshort =>
    rw [isLast_windowAt, decide_eq_true_iff] at hlast
    have hend : offset + (windowAt data offset t.chunkSize).data.length = data.length := by omega
    rw [hreceived, hend] at hshort
    rw [verdict_of_lt hshort, hreceived, hend]

/-- A fetch that has received full windows only goes on to the verdict. Induction on the transcript: a
window that is not the last ends before the payload does, so it is full. -/
theorem Transcript.eq_verdict (hstored : store.find? ref = some ⟨data.length, data⟩)
    {received : Bytes} {log : List Inquiry} {result : Except Failure Bytes}
    (h : Transcript t ref total received log result)
    (hserved : ∀ q ∈ log, Served store q.exchange) :
    -- induction on the transcript; full windows keep the offset a multiple of the chunk size
    ∀ offset, received = data.take offset → offset ≤ data.length → offset ≤ total →
      t.chunkSize ∣ offset → result = t.verdict data total := by
  induction h with
  | whole received htotal =>
    rintro offset rfl hle _ hdvd
    rw [List.length_take] at htotal
    have hend : offset = total := by omega
    subst hend
    exact (verdict_of_dvd hle (.inr hdvd)).symm
  | ends received patience reply result hmore hends =>
    rintro offset rfl hle _ hdvd
    have hreceived : (data.take offset).length = offset := List.length_take_of_le hle
    obtain ⟨spent, hreply⟩ := hserved _ (List.mem_singleton.mpr rfl)
    rw [hreceived, Store.get_of_find? hstored hle] at hreply
    subst hreply
    exact hends.eq_verdict hle (by rwa [hreceived] at hmore) hdvd
  -- a window that is not the last is full, so the next offset is one chunk size further
  | goesOn received patience spent w log result h hlast _ ih =>
    rintro offset rfl hle _ hdvd
    have hreceived : (data.take offset).length = offset := List.length_take_of_le hle
    obtain ⟨spent', hreply⟩ := hserved _ (List.mem_cons_self ..)
    rw [hreceived, Store.get_of_find? hstored hle] at hreply
    cases hreply
    rw [isLast_windowAt, decide_eq_false_iff_not, Nat.not_le] at hlast
    have hfits := h.2.2
    rw [hreceived, length_windowAt hle] at hfits
    exact ih (fun q hq => hserved q (List.mem_cons_of_mem _ hq)) (offset + t.chunkSize)
      (take_append_windowAt hle _) (by omega) (by omega) (Nat.dvd_add hdvd (Nat.dvd_refl _))

/-- **Declared sizes.** Where all of a payload is stored, a fetch that is answered by the store succeeds
exactly if the declared size is the size of the payload, or is smaller and a multiple of the chunk
size; it gives as many bytes of the payload as were declared. Any other size is a transport fault: at
the end of the payload if the size is too large, and else where the last window within it ends. -/
theorem fetch_declared (t : Transfer) {ref : String} {store : Store} {data : Bytes}
    (hstored : store.find? ref = some ⟨data.length, data⟩) (total : Nat) {σ : Type}
    (world : Answering σ) (s : σ)
    (hserved : ∀ x ∈ (t.fetch ref total).exchanges world s, Served store x) :
    (∀ bytes, ((t.fetch ref total).run world s).1 = .ok bytes ↔
        (total = data.length ∨ (total < data.length ∧ t.chunkSize ∣ total)) ∧
          bytes = data.take total) ∧
      (data.length < total → ((t.fetch ref total).run world s).1 =
        .error (.transport data.length (.endedEarly data.length total))) ∧
      (total < data.length → ¬ t.chunkSize ∣ total → ((t.fetch ref total).run world s).1 =
        .error (.transport (total / t.chunkSize * t.chunkSize) (.overrun total))) := by
  obtain ⟨log, hlog, h⟩ := transcript_fetch t ref total world s
  have hserved' : ∀ q ∈ log, Served store q.exchange := fun q hq =>
    hserved _ (hlog ▸ List.mem_map_of_mem hq)
  rw [h.eq_verdict hstored hserved' 0 rfl (Nat.zero_le _) (Nat.zero_le _) (Nat.dvd_zero _)]
  refine ⟨fun bytes => ?_, fun hlt => verdict_of_lt hlt, fun hlt hnot =>
    verdict_of_not_dvd hlt hnot⟩
  -- what decides is how the declared size lies to the stored one
  rcases Nat.lt_trichotomy total data.length with hlt | heq | hgt
  · by_cases hdvd : t.chunkSize ∣ total
    · rw [verdict_of_dvd (Nat.le_of_lt hlt) (.inr hdvd), Except.ok.injEq]
      exact ⟨fun h => ⟨.inr ⟨hlt, hdvd⟩, h.symm⟩, fun h => h.2.symm⟩
    · rw [verdict_of_not_dvd hlt hdvd]
      refine ⟨nofun, ?_⟩
      rintro ⟨heq | ⟨-, hdvd'⟩, -⟩
      · omega
      · exact absurd hdvd' hdvd
  · rw [verdict_of_dvd (Nat.le_of_eq heq) (.inl heq), Except.ok.injEq]
    exact ⟨fun h => ⟨.inl heq, h.symm⟩, fun h => h.2.symm⟩
  · rw [verdict_of_lt hgt]
    refine ⟨nofun, ?_⟩
    rintro ⟨heq | ⟨hlt, -⟩, -⟩ <;> omega

/-- Four bytes. -/
def fourBytes : Bytes := [97, 98, 99, 100]

/-- A world with four bytes at its host. -/
def withFourBytes : World :=
  ⟨⟨[], 0⟩, .clear, 0, [], (Store.empty 8).put "r" ⟨fourBytes.length, fourBytes⟩, .nobody,
    .fresh [], []⟩

/-- Half of a payload passes for all of it, since a window ends there. -/
theorem fetch_declared_half :
    withFourBytes.host.find? "r" = some ⟨fourBytes.length, fourBytes⟩ ∧
      (∀ x ∈ ((make 2 ⟨10⟩).fetch "r" 2).exchanges World.answer withFourBytes,
        Served withFourBytes.host x) ∧
      (((make 2 ⟨10⟩).fetch "r" 2).run World.answer withFourBytes).1 = .ok [97, 98] := by
  have hstored : withFourBytes.host.find? "r" = some ⟨fourBytes.length, fourBytes⟩ := by decide
  have hserved : ∀ x ∈ ((make 2 ⟨10⟩).fetch "r" 2).exchanges World.answer withFourBytes,
      Served withFourBytes.host x := by
    have hcalls : ((make 2 ⟨10⟩).fetch "r" 2).exchanges World.answer withFourBytes =
        [⟨.get ⟨"r", 0, 2⟩ 10, some (0, withFourBytes.host.get ⟨"r", 0, 2⟩)⟩] := by rfl
    intro x hx
    rw [hcalls, List.mem_singleton] at hx
    subst hx
    exact ⟨0, rfl⟩
  have hresult := (fetch_declared (make 2 ⟨10⟩) hstored 2 World.answer withFourBytes hserved).1
  exact ⟨hstored, hserved, (hresult [97, 98]).mpr ⟨.inr (by decide), rfl⟩⟩

end Transfer

end Stowage.Chunk
