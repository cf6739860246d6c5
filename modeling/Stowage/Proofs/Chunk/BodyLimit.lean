import Stowage.Backend.Selection
import Stowage.Proofs.Chunk.Boundary
import Stowage.Proofs.Chunk.Fetch
import Stowage.Proofs.Chunk.Storing
import Stowage.Proofs.Sharing.View
/-!
# Stowage — payloads and the longest body a host takes

Three sizes meet when a payload is stored over HTTP: the chunk size of the configuration, the largest
payload of the store, and the longest body that the host takes (`Host.maxBody`). The configuration is
checked against none of the others. `Config.Hosted.store_fetch` says what comes of it: with windows that
the host takes, every payload within the maximum is stored and can be fetched; with a first window that
is too long, nothing is stored and the transfer fails with status 413.

A program over HTTP runs in a world of its own, the calls of which are answered over HTTP
(`run_overHttp`). What is known of transfers in any world that takes and serves windows holds there.
-/

namespace Stowage

open Chunk Http

/-! ## The world behind an endpoint

A transfer over HTTP is a program in which every call has become a request. Its lemmas speak of calls,
though, so the requests are put on the side of the world: a call is answered there by whatever its
request leads to. -/

/-- Answers every call by what becomes of it over HTTP. -/
def Chunk.Endpoint.world (e : Endpoint) : Answering World := fun c w =>
  ((Program.perform c).overHttp e).run World.answer w

/-- A program over HTTP runs as it does where every call is answered over HTTP. -/
theorem run_overHttp {α : Type} (e : Endpoint) (p : Program α) :
    ∀ w : World, (p.overHttp e).run World.answer w = p.run e.world w := by
  induction p with
  | done a => exact fun _ => rfl
  | call c next ih =>
    intro w
    -- only the two calls to the chunk host become requests; the others are left as they are
    rw [Program.run_call, ← ih]
    cases c with
    | store r patience =>
      unfold Endpoint.world Program.perform
      rw [Program.overHttp, Program.overHttp]
      cases e.storeRequest r <;> rfl
    | get r patience =>
      unfold Endpoint.world Program.perform
      rw [Program.overHttp, Program.overHttp]
      cases e.getRequest r <;> rfl
    | draw => rfl
    | send place request patience => rfl
    | input => rfl
    | read path => rfl
    | change step => rfl
    | listen port maximum => rfl

namespace Chunk

variable {e : Endpoint} {home : Place} {w : World}

/-- A window that a store behind HTTP takes: it has a name, its numbers fit 64 bits, and its body is not
too long. -/
structure Carried (r : StoreRequest) : Prop where
  names : Names r.ref
  offset_lt : r.offset < Word64.limit
  total_lt : r.total < Word64.limit
  body_le : r.data.length ≤ Host.maxBody

/-- `w` differs from `start` at most in the store of the host. -/
def OnlyHost (start w : World) : Prop := w = { start with host := w.host }

/-- The world behind an endpoint takes the windows that its host can carry, and does so at once. -/
theorem takes_world (hroot : e.IsRoot home) {start : World} (hpeer : start.peer = .host home) :
    Takes e.world World.host Carried 0 (OnlyHost start) := by
  intro w hw r patience hcarried _ hok
  have hpeer' : w.peer = .host home := by
    rw [hw]
    exact hpeer
  obtain ⟨out, hrun, hout⟩ := overHttp_store hroot hpeer' hcarried.names hcarried.offset_lt
    hcarried.total_lt hcarried.body_le patience
  rw [hok] at hout
  cases hout
  refine ⟨_, hrun, rfl, ?_⟩
  unfold OnlyHost
  rw [hw]

/-- A payload that the store holds is served over HTTP, in windows of any size that fits 64 bits. -/
theorem serves_world (hroot : e.IsRoot home) (hpeer : w.peer = .host home)
    (hstored : ∀ ref p, w.host.find? ref = some p → p.total < Word64.limit) {ref : String}
    (hnames : Names ref) {data : Bytes}
    (hfind : data ≠ [] → w.host.find? ref = some ⟨data.length, data⟩) {size : Nat}
    (hsize : size < Word64.limit) (hlength : data.length < Word64.limit) :
    ServesWindows e.world ref data size 0 fun w' => w' = w := by
  intro w' hw offset patience hoffset _
  subst hw
  have hne : data ≠ [] := List.length_pos_iff.mp (by omega)
  have hlow : offset < Word64.limit := by omega
  obtain ⟨out, hrun, hout⟩ := overHttp_get hroot hpeer hstored (r := ⟨ref, offset, size⟩) hnames
    hlow hsize patience
  rw [Store.get_of_find? (hfind hne) (Nat.le_of_lt hoffset) size] at hout
  cases hout
  exact ⟨w', hrun, rfl⟩

/-! ## Bodies that are too long

A host reads no body that is longer than its limit, and turns such a request down before its store has
seen it. The limit is one of the host alone; a chunk size may well be above it. -/

/-- The failure of a transfer whose first body is too long for the host. -/
def bodyTooLong : Failure :=
  .transport 0 (.call (.http (.status "413 Payload Too Large"
    "Failed to buffer the request body: length limit exceeded")))

/-- A request whose body is too long is turned down with status 413, once its query has been read. -/
theorem put_tooLong (s : Store) (r : StoreRequest) {query : Bytes}
    (hquery : Query.placement query = .ok ⟨r.offset, r.total, r.isLast⟩)
    (hbody : Host.maxBody < r.data.length) :
    Host.put s r.ref query r.data = (Host.tooLong, s) := by
  rw [Host.put, hquery]
  exact if_pos hbody

/-- The client reports a body that was too long by the status and the text of the answer. -/
theorem stored_tooLong (ref : String) (url : Url) :
    Endpoint.stored ref url (.ok (opened Host.tooLong)) =
      .error (.http (.status "413 Payload Too Large"
        "Failed to buffer the request body: length limit exceeded")) := by
  have hstatus : Http.statusText 413 = "413 Payload Too Large" := by decide
  have htext : (opened Host.tooLong).text =
      "Failed to buffer the request body: length limit exceeded" := by
    decide +kernel
  have hrefusal : Endpoint.refusal ref (opened Host.tooLong) =
      .http (.status (Http.statusText 413) (opened Host.tooLong).text) := rfl
  rw [Endpoint.stored, hrefusal, hstatus, htext]
  exact if_neg (by decide)

/-- A window that is too long comes back as status 413, and the store does not hear of it. -/
theorem world_store_tooLong (hroot : e.IsRoot home) (hpeer : w.peer = .host home) {r : StoreRequest}
    (h : Names r.ref) (hoffset : r.offset < Word64.limit) (htotal : r.total < Word64.limit)
    (hbody : Host.maxBody < r.data.length) (patience : Nat) :
    e.world (.store r patience) w =
      (some (0, .error (.http (.status "413 Payload Too Large"
        "Failed to buffer the request body: length limit exceeded"))), w) := by
  obtain ⟨url, hrun⟩ := overHttp_placedAt hroot hpeer h patience
  rw [answer_placedAt w.host h, put_tooLong w.host r (placement_placedAt hoffset htotal) hbody,
    stored_tooLong] at hrun
  exact hrun

namespace Transfer

variable {t : Transfer} {ref : String} {data : Bytes}

/-- The first window of a payload is as long as the chunk size, or as the payload if that is less. -/
theorem exists_first_window (t : Transfer) (hne : data ≠ []) :
    ∃ chunk rest, windows t.chunkSize data = (0, chunk) :: rest ∧
      chunk.length = min t.chunkSize data.length := by
  have htiles := tiles_windows t.one_le_chunkSize data
  generalize windows t.chunkSize data = ws at htiles
  cases htiles with
  | nil => exact absurd rfl hne
  | cons _ chunk rest ws hchunk hle hfull _ =>
    refine ⟨chunk, ws, rfl, ?_⟩
    rw [List.length_append]
    by_cases hrest : rest = []
    · subst hrest
      rw [List.length_nil]
      omega
    · have hwhole := hfull hrest
      omega

/-- **Too long.** If the host does not take the first window, nothing is stored and the transfer fails. -/
theorem run_store_tooLong (hroot : e.IsRoot home) (hpeer : w.peer = .host home) (hnames : Names ref)
    (hlength : data.length < Word64.limit)
    (hbody : Host.maxBody < min t.chunkSize data.length) :
    ((t.store ref data).overHttp e).run World.answer w = (.error bodyTooLong, w) := by
  have hne : data ≠ [] := List.length_pos_iff.mp (by omega)
  obtain ⟨chunk, rest, hwindows, hchunk⟩ := t.exists_first_window hne
  have hcall := world_store_tooLong hroot hpeer
    (r := ⟨ref, chunk, 0, data.length, data.length ≤ 0 + chunk.length⟩) hnames
    (show 0 < Word64.limit by decide) hlength (by rw [hchunk]; exact hbody) t.deadline.nanoseconds
  rw [run_overHttp, store, plan, hwindows, List.map_cons, storeAll, Program.run_call, hcall]
  rfl

/-- **Short enough.** If the host takes the windows and the store the payload, it is stored under a fresh
reference and can be fetched. -/
theorem run_store_carried (hroot : e.IsRoot home) (hpeer : w.peer = .host home)
    (hstored : ∀ ref p, w.host.find? ref = some p → p.total < Word64.limit) (hnames : Names ref)
    (hfresh : w.host.find? ref = none) (hsize : t.chunkSize < Word64.limit)
    (hmaximum : data.length ≤ w.host.maximum) (hlength : data.length < Word64.limit)
    (hbody : min t.chunkSize data.length ≤ Host.maxBody) :
    ∃ host, ((t.store ref data).overHttp e).run World.answer w = (.ok (), { w with host }) ∧
      SameBut ref w.host host ∧ (data ≠ [] → host.find? ref = some ⟨data.length, data⟩) ∧
      ((t.fetch ref data.length).overHttp e).run World.answer { w with host } =
        (.ok data, { w with host }) := by
  have hfits : ∀ v ∈ windows t.chunkSize data, Carried (request ref data.length v) := by
    intro v hv
    obtain ⟨hshort, hin⟩ := (tiles_windows t.one_le_chunkSize data).bounds v hv
    have hoffset : v.1 < Word64.limit := by omega
    exact ⟨hnames, hoffset, hlength, Nat.le_trans hshort hbody⟩
  obtain ⟨w', hrun, hholds, hsame, hw'⟩ := t.run_store_of_takes (takes_world hroot hpeer)
    (s := w) rfl hfits hfresh hmaximum hlength (by omega)
  unfold OnlyHost at hw'
  have hfind : data ≠ [] → w'.host.find? ref = some ⟨data.length, data⟩ := hholds.eq_some
  -- what is stored besides was there before, so that every size still fits its header
  have hstored' : ∀ other p, w'.host.find? other = some p → p.total < Word64.limit := by
    intro other p hp
    by_cases hother : other = ref
    · subst hother
      rw [hholds.total hp]
      exact hlength
    · rw [hsame.others other hother] at hp
      exact hstored other p hp
  have hserves := serves_world (w := w') hroot (by rw [hw']; exact hpeer) hstored' hnames hfind hsize
    hlength
  obtain ⟨w'', hfetch, hw''⟩ := t.run_fetch_windows hserves (by omega) rfl
  rw [hw''] at hfetch
  refine ⟨w'.host, ?_, hsame, hfind, ?_⟩
  · rw [run_overHttp, ← hw']
    exact hrun
  · rw [run_overHttp, ← hw']
    exact hfetch

end Transfer

/-! ## References that were drawn

The names below `chunks` are drawn at random as UUIDs. Such a name is spelled as it is, so storing under
it goes through whatever was drawn. -/

/-- A drawn reference is made of small hexadecimal digits and hyphens. -/
theorem mem_refOf {draw : Bytes} {c : Char} (h : c ∈ (Uuid.refOf draw).toList) :
    c = '-' ∨ ∃ k : Fin 16, c = Nat.digitChar k := by
  have hpair : ∀ b : UInt8, c ∈ Hex.pair b → ∃ k : Fin 16, c = Nat.digitChar k := by
    intro b hc
    have hbyte := b.toNat_lt
    simp only [Hex.pair, List.mem_cons, List.not_mem_nil, or_false] at hc
    obtain rfl | rfl := hc
    · exact ⟨⟨b.toNat / 16, by omega⟩, rfl⟩
    · exact ⟨⟨b.toNat % 16, by omega⟩, rfl⟩
  rw [Uuid.refOf, Uuid.text, String.toList_ofList] at h
  simp only [List.mem_append, List.mem_cons, List.mem_flatMap, or_assoc] at h
  -- the groups of digits and the hyphens between them, in order
  obtain ⟨b, -, hc⟩ | heq | ⟨b, -, hc⟩ | heq | ⟨b, -, hc⟩ | heq | ⟨b, -, hc⟩ | heq | ⟨b, -, hc⟩ := h
  · exact .inr (hpair b hc)
  · exact .inl heq
  · exact .inr (hpair b hc)
  · exact .inl heq
  · exact .inr (hpair b hc)
  · exact .inl heq
  · exact .inr (hpair b hc)
  · exact .inl heq
  · exact .inr (hpair b hc)

/-- A drawn reference has hyphens, so it is no dot name. -/
theorem hyphen_mem_refOf (draw : Bytes) : '-' ∈ (Uuid.refOf draw).toList := by
  rw [Uuid.refOf, Uuid.text, String.toList_ofList]
  simp

/-- A drawn reference is the name of a payload. -/
theorem names_refOf (draw : Bytes) : Names (Uuid.refOf draw) := by
  have hhyphen := hyphen_mem_refOf draw
  have habsent : ∀ c : Char, c ≠ '-' → (∀ k : Fin 16, c ≠ Nat.digitChar k) →
      c ∉ (Uuid.refOf draw).toList := by
    intro c hne hdigit hc
    obtain heq | ⟨k, heq⟩ := mem_refOf hc
    · exact hne heq
    · exact hdigit k heq
  refine ⟨fun hdots => ?_, ?_, ?_, ?_⟩
  · obtain heq | heq | heq := hdots <;> rw [heq] at hhyphen <;> exact absurd hhyphen (by decide)
  · exact habsent '\t' (by decide) (by decide)
  · exact habsent '\n' (by decide) (by decide)
  · exact habsent '\r' (by decide) (by decide)

end Chunk

/-! ## Configurations

A configuration that passes its own check may still ask for windows that the host will not take. What
decides is the smaller of the chunk size and the length of the payload. -/

namespace Config

/-- A configuration that can be used, with the remote place enabled and the root of a host for its
endpoint. Its chunk size is a number of 64 bits. -/
structure Hosted (c : Config) (e : Endpoint) (home : Place) : Prop where
  valid : c.validate = .ok ()
  enabled : c.remote.enabled = true
  endpoint : c.endpoint = .ok (some e)
  root : e.IsRoot home
  chunkSize_lt : c.remote.chunkSize < Word64.limit

variable {c : Config} {e : Endpoint} {home : Place}

/-- A configuration that can be used has a chunk size, and its transfers keep to it. -/
theorem Hosted.chunkSize_transfer (h : c.Hosted e home) : c.transfer.chunkSize = c.remote.chunkSize := by
  have hvalid := h.valid
  have hpos : c.remote.chunkSize ≠ 0 := by
    intro hzero
    rw [validate, h.enabled, if_pos rfl, checkRemote] at hvalid
    split at hvalid
    · cases hvalid
    · rw [if_pos (.inr hzero)] at hvalid
      cases hvalid
  exact Nat.max_eq_left (by omega)

/-- **Storing under a configuration.** The chunk host of a configuration has seen any calls and takes
payloads of up to a maximum. A payload within the maximum is stored under a fresh reference, and fetched
again, exactly if the host takes its first window, which is as long as the chunk size, or as the payload
if that is less. Otherwise the transfer fails with status 413 and changes nothing. -/
theorem Hosted.store_fetch (h : c.Hosted e home) {maximum : Nat} (hmaximum : maximum < Word64.limit)
    (ops : List Store.Operation) {w : World}
    (hhost : w.host = (Store.empty maximum).performAll ops) (hpeer : w.peer = .host home)
    (draw : Bytes) (hfresh : w.host.find? (Uuid.refOf draw) = none) (data : Bytes)
    (hdata : data.length ≤ maximum) :
    (min c.remote.chunkSize data.length ≤ Host.maxBody →
      ∃ host, ((c.transfer.store (Uuid.refOf draw) data).overHttp e).run World.answer w =
          (.ok (), { w with host }) ∧
        SameBut (Uuid.refOf draw) w.host host ∧
        (data ≠ [] → host.find? (Uuid.refOf draw) = some ⟨data.length, data⟩) ∧
        ((c.transfer.fetch (Uuid.refOf draw) data.length).overHttp e).run World.answer
          { w with host } = (.ok data, { w with host })) ∧
    (Host.maxBody < min c.remote.chunkSize data.length →
      ((c.transfer.store (Uuid.refOf draw) data).overHttp e).run World.answer w =
        (.error bodyTooLong, w)) := by
  have hnames := names_refOf draw
  have hlength : data.length < Word64.limit := Nat.lt_of_le_of_lt hdata hmaximum
  have hsize : c.transfer.chunkSize < Word64.limit := h.chunkSize_transfer ▸ h.chunkSize_lt
  -- stored payloads fit the 64 bits of a header, because the maximum does
  have hstored := total_performAll hmaximum ops
  rw [← hhost] at hstored
  have hlimit : w.host.maximum = maximum := by
    rw [hhost, Store.maximum_performAll, Store.maximum_empty]
  rw [← h.chunkSize_transfer]
  constructor
  · intro hbody
    exact Transfer.run_store_carried h.root hpeer hstored hnames hfresh hsize
      (by rw [hlimit]; exact hdata) hlength hbody
  · intro hbody
    exact Transfer.run_store_tooLong h.root hpeer hnames hlength hbody

/-- A configuration with nothing but a chunk host, and a chunk size. -/
def hosted (chunkSize : Nat) : Config :=
  ⟨⟨true, some "http://user@localhost:7420#top", 1, chunkSize, 120⟩, defaultLocal⟩

/-- A world with a chunk host at which nothing is stored. -/
def vacantHost : World := { hosting with host := Store.empty defaultMaximum }

theorem hosted_hosted {chunkSize : Nat} (hpos : 0 < chunkSize) (hlt : chunkSize < Word64.limit) :
    (hosted chunkSize).Hosted hostingRoot ⟨"127.0.0.1", 7420, false⟩ := by
  have hendpoint : Endpoint.ofText "http://user@localhost:7420#top" = .ok hostingRoot := by
    decide +kernel
  have hsome : ("http://user@localhost:7420#top" : String).isEmpty = false := by decide +kernel
  refine ⟨?_, rfl, ?_, ⟨rfl, rfl, rfl, "localhost", rfl, rfl⟩, hlt⟩
  · have hsizes : ¬((1 : Nat) = 0 ∨ chunkSize = 0) := by omega
    rw [validate, hosted]
    simp only [checkRemote, Option.getD_some, hsome, Bool.false_eq_true, if_false, if_true, hsizes]
    rfl
  · rw [endpoint, hosted]
    simp only [hendpoint]
    rfl

/-- With windows of one byte more than a host takes, a payload of that length cannot be stored; with
windows of three bytes it could. -/
theorem store_fetch_longest :
    ((((hosted (Host.maxBody + 1)).transfer.store (Uuid.refOf [])
        (List.replicate (Host.maxBody + 1) 120)).overHttp hostingRoot).run World.answer vacantHost).1 =
      .error bodyTooLong ∧
    ((((hosted 3).transfer.store (Uuid.refOf [])
        (List.replicate (Host.maxBody + 1) 120)).overHttp hostingRoot).run World.answer vacantHost).1 =
      .ok () := by
  have hdata : (List.replicate (Host.maxBody + 1) (120 : UInt8)).length ≤ defaultMaximum := by
    rw [List.length_replicate]
    decide
  -- both transfers send the same bytes to the same host, in windows of different sizes
  have hstore (chunkSize : Nat) (hpos : 0 < chunkSize) (hlt : chunkSize < Word64.limit) :=
    (hosted_hosted hpos hlt).store_fetch (by decide : defaultMaximum < Word64.limit) []
      (rfl : vacantHost.host = (Store.empty defaultMaximum).performAll []) rfl []
      (Store.find?_empty _ _) (List.replicate (Host.maxBody + 1) 120) hdata
  constructor
  · rw [(hstore (Host.maxBody + 1) (by decide) (by decide)).2 ?_]
    rw [List.length_replicate]
    decide
  · obtain ⟨host, hrun, -⟩ := (hstore 3 (by decide) (by decide)).1 (by
      rw [List.length_replicate]
      decide)
    rw [hrun]

end Config

end Stowage
