import Stowage.Proofs.Chunk.Windows
import Stowage.Proofs.Program
/-!
# Stowage — storing a payload

A transfer stores a payload window by window. `Takes` says of a world that it carries out every store
call that the store behind it accepts and says so; how the call gets there is left open. In such a
world a payload under a fresh reference arrives in full, if the deadline leaves time for as many calls
as there are windows: `run_store_of_takes`.
-/

namespace Stowage.Chunk

/-- `Takes world host Fits delay Steady`: in a steady state, a fitting window that the store behind the
world accepts is stored there, the answer says so after the delay, and the state stays steady. -/
def Takes {σ : Type} (world : Answering σ) (host : σ → Store) (Fits : StoreRequest → Prop)
    (delay : Nat) (Steady : σ → Prop) : Prop :=
  ∀ s, Steady s → ∀ r patience, Fits r → delay ≤ patience → ((host s).answerStore r).1 = .ok () →
    ∃ s', world (.store r patience) s = (some (delay, .ok ()), s') ∧
      host s' = ((host s).answerStore r).2 ∧ Steady s'

/-- `before` and `after` differ at most in the entry of a reference. -/
structure SameBut (ref : String) (before after : Store) : Prop where
  maximum : after.maximum = before.maximum
  others : ∀ other, other ≠ ref → after.find? other = before.find? other

theorem SameBut.refl (ref : String) (s : Store) : SameBut ref s s := ⟨rfl, fun _ _ => rfl⟩

theorem SameBut.trans {ref : String} {s s' s'' : Store} (h : SameBut ref s s')
    (h' : SameBut ref s' s'') : SameBut ref s s'' :=
  ⟨h'.maximum.trans h.maximum, fun other hne => (h'.others other hne).trans (h.others other hne)⟩

theorem sameBut_put (s : Store) (ref : String) (p : Payload) : SameBut ref s (s.put ref p) :=
  ⟨s.maximum_put ref p, fun _ hne => s.find?_put_of_ne p hne⟩

namespace Transfer

variable {σ : Type} {world : Answering σ} {host : σ → Store} {Fits : StoreRequest → Prop}
  {delay : Nat} {Steady : σ → Prop}

/-- The windows that are left of a payload are stored one after the other, also over what is there of
them already. Induction on the windows; `k` counts the bytes that are there. -/
theorem run_storeAll_of_takes (t : Transfer) (htakes : Takes world host Fits delay Steady)
    {size offset : Nat} {rest : Bytes} {windows : List (Nat × Bytes)}
    (h : Tiles size offset rest windows) (ref : String) (data : Bytes) :
    ∀ (before : Bytes) (k patience : Nat) (s : σ), Steady s →
      (∀ w ∈ windows, Fits (request ref data.length w)) → data = before ++ rest →
      offset = before.length → before.length ≤ k → k ≤ data.length →
      Holds ((host s).find? ref) data.length (data.take k) → data.length ≤ (host s).maximum →
      data.length < offsetLimit → windows.length * delay ≤ patience →
      ∃ s', (t.storeAll (windows.map (request ref data.length)) patience).run world s = (.ok (), s') ∧
        Holds ((host s').find? ref) data.length data ∧ SameBut ref (host s) (host s') ∧
        Steady s' := by
  induction h with
  | nil offset =>
    intro before k patience s hs _ hdata _ hbefore _ hholds _ _ _
    rw [List.append_nil] at hdata
    rw [← hdata] at hbefore
    rw [List.take_of_length_le hbefore] at hholds
    exact ⟨s, rfl, hholds, .refl ref (host s), hs⟩
  | cons offset chunk rest windows hne hle hfull _ ih =>
    intro before k patience s hs hfits hdata hoffset hbefore hk hholds hmaximum hlimit htime
    subst hoffset
    rw [List.length_cons, Nat.add_mul, Nat.one_mul] at htime
    have hlength : (before ++ chunk).length + rest.length = data.length := by
      rw [← List.length_append, List.append_assoc, ← hdata]
    rw [List.length_append] at hlength
    -- the next window goes with the prefix that has arrived
    have hanswer := Store.answerStore_window ref hholds hdata hbefore hmaximum hlimit
    obtain ⟨s₁, hcall, hhost, hs₁⟩ := htakes s hs (request ref data.length (before.length, chunk))
      patience (hfits _ (List.mem_cons_self ..)) (by omega) (by rw [hanswer])
    rw [hanswer] at hhost
    have hsame : SameBut ref (host s) (host s₁) := hhost ▸ sameBut_put (host s) ref _
    obtain ⟨s₂, hrun, hholds₂, hsame₂, hs₂⟩ := ih (before ++ chunk)
      (max k (before.length + chunk.length)) (patience - delay) s₁ hs₁
      (fun w hw => hfits w (List.mem_cons_of_mem _ hw)) (by rw [hdata, List.append_assoc])
      (by rw [List.length_append]) (by rw [List.length_append]; omega) (by omega)
      (by rw [hhost, Store.find?_put_self]; exact .inr rfl) (by rw [hsame.maximum]; exact hmaximum)
      hlimit (by omega)
    rw [List.map_cons, storeAll, Program.run_call, hcall]
    exact ⟨s₂, hrun, hholds₂, hsame.trans hsame₂, hs₂⟩

/-- **Storing.** A payload arrives in full where nothing or a prefix of it is. An empty one leaves no
trace. -/
theorem run_store_of_holds (t : Transfer) (htakes : Takes world host Fits delay Steady) {ref : String}
    {data : Bytes} {k : Nat} {s : σ} (hs : Steady s)
    (hfits : ∀ w ∈ windows t.chunkSize data, Fits (request ref data.length w))
    (hk : k ≤ data.length) (hholds : Holds ((host s).find? ref) data.length (data.take k))
    (hmaximum : data.length ≤ (host s).maximum) (hlimit : data.length < offsetLimit)
    (htime : t.calls data.length * delay ≤ t.deadline.nanoseconds) :
    ∃ s', (t.store ref data).run world s = (.ok (), s') ∧
      Holds ((host s').find? ref) data.length data ∧ SameBut ref (host s) (host s') ∧ Steady s' := by
  have htiles := tiles_windows t.one_le_chunkSize data
  have hlength : (windows t.chunkSize data).length = t.calls data.length :=
    htiles.length_windows t.one_le_chunkSize
  exact t.run_storeAll_of_takes htakes htiles ref data [] k t.deadline.nanoseconds s hs hfits rfl rfl
    (Nat.zero_le k) hk hholds hmaximum hlimit (by rw [hlength]; exact htime)

/-- A payload under a fresh reference arrives in full. -/
theorem run_store_of_takes (t : Transfer) (htakes : Takes world host Fits delay Steady) {ref : String}
    {data : Bytes} {s : σ} (hs : Steady s)
    (hfits : ∀ w ∈ windows t.chunkSize data, Fits (request ref data.length w))
    (hfresh : (host s).find? ref = none) (hmaximum : data.length ≤ (host s).maximum)
    (hlimit : data.length < offsetLimit)
    (htime : t.calls data.length * delay ≤ t.deadline.nanoseconds) :
    ∃ s', (t.store ref data).run world s = (.ok (), s') ∧
      Holds ((host s').find? ref) data.length data ∧ SameBut ref (host s) (host s') ∧ Steady s' :=
  t.run_store_of_holds htakes hs hfits (Nat.zero_le _) (.inl ⟨List.take_zero, hfresh⟩) hmaximum hlimit
    htime

/-- No window is longer than the chunk size, and none reaches beyond the payload. -/
theorem Tiles.bounds {size offset : Nat} {data : Bytes} {ws : List (Nat × Bytes)}
    (h : Tiles size offset data ws) :
    ∀ w ∈ ws, w.2.length ≤ min size data.length ∧ w.1 + w.2.length ≤ offset + data.length := by
  induction h with
  | nil offset => exact fun w hw => absurd hw List.not_mem_nil
  | cons offset chunk rest ws hne hle hfull _ ih =>
    intro w hw
    rw [List.length_append]
    obtain rfl | hw := List.mem_cons.mp hw
    · simp only
      omega
    · have hrest := ih w hw
      omega

end Transfer

end Stowage.Chunk
