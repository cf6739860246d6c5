import Mathlib.Data.List.TakeWhile
import Stowage.Chunk.Client
import Stowage.Proofs.Chunk.Bounds
import Stowage.Proofs.Chunk.Route
import Stowage.Proofs.Json.RoundTrip
import Stowage.Proofs.Number.Word64
import Stowage.Proofs.Url.Form
import Stowage.World
/-!
# Stowage — a chunk store behind HTTP

A call that is sent over HTTP to a chunk host does to the store of the host what the call itself
does, and comes back with the same outcome (`overHttp_transparent`). Only a refusal changes its form:
it comes back as status 400 with the wording of the refusal in its body (`Relayed`).

Every part of a request is followed through both sides. The reference is the last name of the path
(`routeOf_targetOf`, `Names.reference?_payloadName`), the numbers are the fields of the query
(`placement_fields`, `extent_fields`), a window comes back with its size and its end in two headers
(`windowOf_window`), and a refusal in a JSON text (`refusal_failed`).
-/

namespace Stowage.Chunk

open Http

/-! ## Fields

The numbers of a request travel as the fields of its query. They are made of letters and digits only, so
nothing in them is escaped and the host reads back what was written. -/

/-- The fields of a request to store a chunk, as they are written. -/
def placementFields (offset total : Nat) (isLast : Bool) : List (String × String) :=
  [("offset", toString offset), ("total_size", toString total), ("is_last", toString isLast)]

/-- The fields of a request for a chunk, as they are written. -/
def extentFields (offset length : Nat) : List (String × String) :=
  [("offset", toString offset), ("length", toString length)]

theorem isWord_toString (n : Nat) : Form.IsWord (toString n).toList := by
  intro c hc
  have hdigit := Word64.isDigit_of_mem_toString hc
  exact .inl (by rw [Char.isAlphanum, hdigit, Bool.or_true])

theorem isWord_flag (b : Bool) : Form.IsWord (toString b).toList := by
  cases b <;> decide

theorem isWord_placementFields (offset total : Nat) (isLast : Bool) :
    ∀ f ∈ placementFields offset total isLast, Form.IsWord f.1.toList ∧ Form.IsWord f.2.toList := by
  intro f hf
  simp only [placementFields, List.mem_cons, List.not_mem_nil, or_false] at hf
  rcases hf with rfl | rfl | rfl
  · exact ⟨(by decide : Form.IsWord "offset".toList), isWord_toString offset⟩
  · exact ⟨(by decide : Form.IsWord "total_size".toList), isWord_toString total⟩
  · exact ⟨(by decide : Form.IsWord "is_last".toList), isWord_flag isLast⟩

theorem isWord_extentFields (offset length : Nat) :
    ∀ f ∈ extentFields offset length, Form.IsWord f.1.toList ∧ Form.IsWord f.2.toList := by
  intro f hf
  simp only [extentFields, List.mem_cons, List.not_mem_nil, or_false] at hf
  rcases hf with rfl | rfl
  · exact ⟨(by decide : Form.IsWord "offset".toList), isWord_toString offset⟩
  · exact ⟨(by decide : Form.IsWord "length".toList), isWord_toString length⟩

theorem flag_toString (b : Bool) : Query.flag (toString b) = .ok b := by
  cases b <;> decide

/-- A number that was written as a field is read from it. -/
theorem read_number {n : Nat} (h : n < Word64.limit) :
    Query.read .number (toString n) = .ok (.number n) := by
  rw [Query.read, Word64.read_toString h]

theorem read_flag (b : Bool) : Query.read .flag (toString b) = .ok (.flag b) := by
  rw [Query.read, flag_toString]
  rfl

/-- A field that is asked for and was not there before is read and kept. -/
theorem collect_next {kinds : List (String × Query.Kind)} {got : List (String × Query.Value)}
    {key text : String} {kind : Query.Kind} {value : Query.Value}
    (hkind : (kinds.find? fun k => k.1 == key) = some (key, kind))
    (hnew : (got.any fun g => g.1 == key) = false) (hread : Query.read kind text = .ok value)
    (rest : List (String × String)) :
    Query.collect kinds got ((key, text) :: rest) =
      Query.collect kinds (got ++ [(key, value)]) rest := by
  rw [Query.collect, hkind]
  simp only [hnew, hread, Bool.false_eq_true, if_false]

/-- The host reads back where a chunk belongs. -/
theorem placement_fields {offset total : Nat} (hoffset : offset < Word64.limit)
    (htotal : total < Word64.limit) (isLast : Bool) :
    Query.placement (Utf8.encode (Form.line (placementFields offset total isLast))) =
      .ok ⟨offset, total, isLast⟩ := by
  rw [Query.placement, Form.decode_line (isWord_placementFields offset total isLast),
    placementFields, collect_next (by decide) (by decide) (read_number hoffset),
    collect_next (by decide) (by rfl) (read_number htotal),
    collect_next (by decide) (by rfl) (read_flag isLast)]
  rfl

/-- The host reads back which chunk is wanted. -/
theorem extent_fields {offset length : Nat} (hoffset : offset < Word64.limit)
    (hlength : length < Word64.limit) :
    Query.extent (Utf8.encode (Form.line (extentFields offset length))) = .ok ⟨offset, length⟩ := by
  rw [Query.extent, Form.decode_line (isWord_extentFields offset length), extentFields,
    collect_next (by decide) (by decide) (read_number hoffset),
    collect_next (by decide) (by rfl) (read_number hlength)]
  rfl

/-! ## Targets

The target of a request is a path and a query. The path ends in the name of the payload, and the host
takes it apart again without knowing how it was put together. -/

/-- A reference that is a payload's name in its own right: no dot name, and without tabs and line
breaks. -/
structure Names (ref : String) : Prop where
  notDots : ¬ Endpoint.IsDotName ref
  unbroken : Endpoint.Unbroken ref

namespace Names

variable {ref : String} (h : Names ref)

include h

/-- The name of a payload spells all of its reference. -/
theorem spelled_eq : Endpoint.spelled ref = ref.toList :=
  (Endpoint.spelled_eq_iff fun heq => h.notDots (.inr (.inl heq))).mpr h.unbroken

/-- The reference of a payload with a name is not two dots, not even after tabs and line breaks are
dropped. -/
theorem significant_ne : Endpoint.significant ref ≠ ['.', '.'] := by
  rw [(Endpoint.significant_eq_iff ref).mpr h.unbroken]
  intro hdots
  exact h.notDots (.inr (.inr (String.toList_inj.mp (hdots.trans (by decide)))))

/-- The name of the payload decodes to the reference. -/
theorem decode_payloadName : Percent.decode (utf8 (Endpoint.payloadName true ref)) = utf8 ref := by
  rw [Endpoint.decode_payloadName, h.spelled_eq, utf8]

/-- **Names.** The host reads the reference back from the name of the payload. -/
theorem reference?_payloadName : Host.reference? (Endpoint.payloadName true ref) = some ref := by
  rw [Host.reference?, h.decode_payloadName, utf8, Utf8.decode?_encode, String.ofList_toList]

theorem payloadName_ne_nil : (Endpoint.payloadName true ref).toList ≠ [] := by
  intro hnil
  have hdecode := h.decode_payloadName
  rw [utf8, hnil, utf8] at hdecode
  have hempty : [] = ref.toList := Utf8.encode_inj.mp hdecode
  exact h.notDots (.inl (String.toList_eq_nil_iff.mp hempty.symm))

end Names

/-- The path of a payload below the root of a host. -/
def pathTo (ref : String) : List Char := Host.payloads ++ (Endpoint.payloadName true ref).toList

/-- What is asked for at a host: the path of a payload and fields. -/
def targetOf (ref : String) (fields : List (String × String)) : String :=
  String.ofList (pathTo ref ++ '?' :: Form.line fields)

/-- A path has nothing in it that ends it. -/
theorem plain_pathTo (ref : String) : ∀ c ∈ pathTo ref, c ≠ '?' ∧ c ≠ '#' := by
  have hname : ∀ d ∈ Percent.webSegment, d ≠ '%' → (∀ k : Fin 16, d ≠ Hex.capital k) →
      d ∉ (Endpoint.payloadName true ref).toList := by
    intro d hset hmark hdigit
    rw [Endpoint.payloadName, String.toList_ofList]
    exact Percent.notMem_encode hset hmark (fun n hn => hdigit ⟨n, hn⟩) _
  intro c hc
  rcases List.mem_append.mp hc with hprefix | hc
  · have hpayloads : '?' ∉ Host.payloads ∧ '#' ∉ Host.payloads := by decide
    refine ⟨?_, ?_⟩ <;> rintro rfl
    · exact hpayloads.1 hprefix
    · exact hpayloads.2 hprefix
  · refine ⟨?_, ?_⟩ <;> rintro rfl
    · exact hname '?' (by decide) (by decide) (by decide) hc
    · exact hname '#' (by decide) (by decide) (by decide) hc

/-- A line of fields that are made of letters and digits has no number sign in it, so no fragment starts
there. -/
theorem notMem_line {fields : List (String × String)}
    (h : ∀ f ∈ fields, Form.IsWord f.1.toList ∧ Form.IsWord f.2.toList) : '#' ∉ Form.line fields := by
  have hword : ∀ {cs : List Char}, Form.IsWord cs → '#' ∉ cs := fun hcs hc =>
    absurd (hcs '#' hc) (by decide)
  induction fields using Form.line.induct with
  | case1 => exact List.not_mem_nil
  | case2 key value =>
    obtain ⟨hkey, hvalue⟩ := h _ (List.mem_singleton_self _)
    simp [Form.line, hword hkey, hword hvalue]
  | case3 key value rest hrest ih =>
    obtain ⟨hkey, hvalue⟩ := h _ (List.mem_cons_self ..)
    have hmore := ih fun f hf => h f (List.mem_cons_of_mem _ hf)
    simp [Form.line, hword hkey, hword hvalue, hmore]

/-- The path of a target ends where its query starts. -/
theorem pathOf_targetOf (ref : String) (fields : List (String × String)) :
    Host.pathOf (targetOf ref fields) = pathTo ref := by
  have hall : ∀ c ∈ pathTo ref, decide (c ≠ '?' ∧ c ≠ '#') = true := fun c hc =>
    decide_eq_true (plain_pathTo ref c hc)
  have htake : (pathTo ref ++ '?' :: Form.line fields).takeWhile
      (fun c => decide (c ≠ '?' ∧ c ≠ '#')) = pathTo ref := by
    rw [List.takeWhile_append_of_pos hall, List.takeWhile_cons_of_neg (by decide), List.append_nil]
  rw [Host.pathOf, targetOf, String.toList_ofList, htake]
  rfl

/-- The query of a target starts behind its path and has no fragment behind it. -/
theorem queryOf_targetOf (ref : String) {fields : List (String × String)}
    (h : ∀ f ∈ fields, Form.IsWord f.1.toList ∧ Form.IsWord f.2.toList) :
    Host.queryOf (targetOf ref fields) = Utf8.encode (Form.line fields) := by
  have hhash : ∀ c ∈ pathTo ref ++ '?' :: Form.line fields, decide (c ≠ '#') = true := by
    intro c hc
    rw [decide_eq_true_iff]
    rcases List.mem_append.mp hc with hpath | hquery
    · exact (plain_pathTo ref c hpath).2
    · rintro rfl
      rcases List.mem_cons.mp hquery with heq | hline
      · exact absurd heq (by decide)
      · exact notMem_line h hline
  have hquestion : ∀ c ∈ pathTo ref, decide (c ≠ '?') = true := fun c hc =>
    decide_eq_true (plain_pathTo ref c hc).1
  rw [Host.queryOf, targetOf, String.toList_ofList, List.takeWhile_eq_self_iff.mpr hhash,
    List.dropWhile_append_of_pos hquestion, List.dropWhile_cons_of_neg (by decide)]
  rfl

/-- The host takes the target for one of its payload. -/
theorem routeOf_targetOf {ref : String} (h : Names ref) (fields : List (String × String)) :
    Host.routeOf (targetOf ref fields) = .payload (Endpoint.payloadName true ref) := by
  -- the tests of the route, one by one: the prefix, the name behind it, and no slash in it
  have hname : (pathTo ref).drop Host.payloads.length = (Endpoint.payloadName true ref).toList :=
    List.drop_left
  have hprefix : Host.payloads.isPrefixOf (pathTo ref) = true :=
    List.isPrefixOf_iff_prefix.mpr (List.prefix_append ..)
  have hhealth : pathTo ref ≠ "/health".toList := by
    intro heq
    have hsecond := congrArg (fun cs => cs[1]?) heq
    exact absurd hsecond (by
      show ¬ some 'c' = some 'h'
      decide)
  have hslash : (Endpoint.payloadName true ref).toList.contains '/' = false := by
    rw [List.contains_eq_mem, decide_eq_false_iff_not]
    exact Endpoint.slash_payloadName true ref
  have hempty : (Endpoint.payloadName true ref).toList.isEmpty = false :=
    List.isEmpty_eq_false_iff.mpr h.payloadName_ne_nil
  rw [Host.routeOf, pathOf_targetOf]
  simp only [hname, hprefix, hslash, hempty]
  rw [if_neg hhealth]
  simp only [if_true, Bool.false_eq_true, or_false, if_false, String.ofList_toList]

/-! ## Requests

An endpoint at the root of a place asks that place for `/chunks/` and a name. The machine and the port
are those of the endpoint; only path and query depend on the request. -/

/-- The endpoint is the root of a place: a web address without a path and without a query, at which a
machine is found that is there. -/
structure Endpoint.IsRoot (e : Endpoint) (home : Place) : Prop where
  scheme : e.url.scheme = "http"
  path : e.url.path = .rooted [""]
  query : e.url.query = none
  machine : ∃ machine, e.url.machine? = some machine ∧
    World.address ⟨machine, e.url.port, false⟩ = home

/-- The URL that a payload is asked for at: no user, the path of the payload and its fields. -/
def askedAt (e : Endpoint) (ref written : String) : Url :=
  (Endpoint.anonymous { e.url with
    path := .rooted ["chunks", Endpoint.payloadName true ref] }).addQuery written

/-- An endpoint at a root has a URL for every payload with a name. -/
theorem payloadUrl_root {e : Endpoint} {home : Place} (hroot : e.IsRoot home) {ref : String}
    (h : Names ref) : e.payloadUrl ref =
      .ok { e.url with path := .rooted ["chunks", Endpoint.payloadName true ref] } := by
  have hweb : Url.isWeb e.url.scheme = true := by
    rw [hroot.scheme]
    decide
  have hnames := Endpoint.addReference_payloadNames true [""] ref
  rw [if_neg h.significant_ne, show Endpoint.stem [""] = [] from rfl, List.nil_append] at hnames
  rw [Endpoint.payloadUrl_rooted hroot.path, hweb, hnames]
  exact ⟨h.notDots, rfl⟩

theorem machine?_askedAt (e : Endpoint) (ref written : String) :
    (askedAt e ref written).machine? = e.url.machine? := by
  unfold askedAt Endpoint.anonymous Url.addQuery Url.machine?
  cases e.url.authority <;> rfl

theorem port_askedAt (e : Endpoint) (ref written : String) :
    (askedAt e ref written).port = e.url.port := by
  unfold askedAt Endpoint.anonymous Url.addQuery Url.port
  cases e.url.authority <;> rfl

theorem target_askedAt {e : Endpoint} (hquery : e.url.query = none) (ref : String) {written : String}
    {fields : List (String × String)} (hwritten : written.toList = Form.line fields) :
    (askedAt e ref written).target = targetOf ref fields := by
  have htarget : (askedAt e ref written).target =
      "" ++ ("/" ++ "chunks") ++ ("/" ++ Endpoint.payloadName true ref) ++ ("?" ++ written) := by
    unfold askedAt Endpoint.anonymous Url.addQuery Url.target Url.queryText
    rw [hquery]
    rfl
  rw [htarget, targetOf, ← hwritten, pathTo, ← String.toList_inj, String.toList_ofList]
  simp only [String.toList_append, List.append_assoc]
  rfl

/-- The request for a payload goes to the place, and asks for the payload's own target there. -/
theorem request_root {e : Endpoint} {home : Place} (hroot : e.IsRoot home) {ref : String}
    (h : Names ref) (method : String) {written : String} {fields : List (String × String)}
    (hwritten : written.toList = Form.line fields) (body : Bytes) :
    ∃ out, e.request method ref written body = .ok out ∧ World.address out.place = home ∧
      out.request = ⟨method, targetOf ref fields, body⟩ := by
  obtain ⟨machine, hmachine, haddress⟩ := hroot.machine
  have hscheme : (askedAt e ref written).scheme = "http" := hroot.scheme
  refine ⟨⟨askedAt e ref written, ⟨method, (askedAt e ref written).target, body⟩⟩, ?_, ?_, ?_⟩
  · rw [Endpoint.request, payloadUrl_root hroot h]
    show (if e.url.machine?.isNone then _ else
      if (askedAt e ref written).scheme = "http" ∨ (askedAt e ref written).scheme = "https" then _
      else _) = _
    rw [hmachine, if_neg (by simp), if_pos (.inl hscheme)]
    rfl
  · rw [Endpoint.Outgoing.place, machine?_askedAt, hmachine, port_askedAt]
    simp only [hscheme, Option.getD_some]
    exact haddress
  · rw [target_askedAt hroot.query ref hwritten]

/-! ## Answers

An answer carries its outcome in three places: the status says whether there is one, two headers say how
a window lies in its payload, and the body holds the bytes or the wording of a refusal. -/

/-- `Relayed direct over`: the outcome of a call over HTTP, given the outcome of the same call on the
store itself. Data and a missing reference arrive as they are. A refusal arrives as status 400, and the
body is a JSON text with its wording. -/
inductive Relayed {α : Type} : Except CallError α → Except CallError α → Prop where
  | ok (a : α) : Relayed (.ok a) (.ok a)
  | notFound (ref : String) : Relayed (.error (.notFound ref)) (.error (.notFound ref))
  | refused (why : Refusal) (body : String)
      (hbody : Json.read? (utf8 body) = some (.object [("error", .string why.message)])) :
      Relayed (.error (.refused why)) (.error (.http (.status "400 Bad Request" body)))

/-- The answer of a host with the headers that it sends with every answer. -/
def opened (r : Response) : Response :=
  { r with headers := Host.exposeHeader :: Host.openHeaders ++ r.headers }

/-- The body of a failed answer reads as an object with the wording of the failure. -/
theorem read?_text_failed (why : CallError) :
    Json.read? (utf8 (opened (Host.failed why)).text) =
      some (.object [("error", .string why.message)]) := by
  have hwhole : Json.IsWhole (.object [("error", .string why.message)]) :=
    .object _ fun m hm => by
      rw [List.mem_singleton] at hm
      subst hm
      exact .string _
  have hnested : Json.Nested 1 (.object [("error", .string why.message)]) :=
    .object 0 _ (by simp [Json.Members.keys]) fun m hm => by
      rw [List.mem_singleton] at hm
      subst hm
      exact .string 0 _
  obtain ⟨cs, hcs⟩ := Json.isText_print hwhole
  -- a text that starts with a brace has no byte order mark
  have hbrace := Json.print_object_append [("error", .string why.message)] []
  rw [List.append_nil] at hbrace
  have htext : (opened (Host.failed why)).text = String.ofList cs := by
    show Marked.decode (Json.object [("error", .string why.message)]).print = _
    rw [← Utf8.decodeLossy_encode, ← hcs, hbrace]
    rfl
  rw [htext, utf8, String.toList_ofList, ← hcs,
    Json.read?_print (hnested.mono (by decide)) hwhole]

/-- What the client makes of a failed answer: a missing reference by its status, a refusal with its
wording. -/
theorem refusal_failed (ref : String) {why : CallError}
    (hwhy : why = .notFound ref ∨ ∃ r, why = .refused r) {α : Type} :
    Relayed (.error why : Except CallError α)
      (.error (Endpoint.refusal ref (opened (Host.failed why)))) := by
  rcases hwhy with rfl | ⟨r, rfl⟩
  · exact .notFound ref
  · have hstatus : Http.statusText 400 = "400 Bad Request" := by decide
    have hrefusal : Endpoint.refusal ref (opened (Host.failed (.refused r))) =
        .http (.status (Http.statusText 400) (opened (Host.failed (.refused r))).text) := rfl
    rw [hrefusal, hstatus]
    exact .refused r _ (read?_text_failed (.refused r))

/-- Words can stand in a header. -/
theorem isVisible_word {cs : List Char} (h : Form.IsWord cs) :
    (Utf8.encode cs).all Response.isVisible = true := by
  rw [List.all_eq_true]
  intro b hb
  obtain ⟨c, hc, hmem⟩ := List.mem_flatMap.mp hb
  -- the code points of letters, digits and the underscore lie between those of `0` and `z`
  have hrange : 48 ≤ c.toNat ∧ c.toNat ≤ 122 := by
    rcases h c hc with hletter | rfl
    · have := Form.toNat_of_isAlphanum hletter
      omega
    · decide
  rw [Utf8.encodeChar_ascii (by omega), List.mem_singleton] at hmem
  subst hmem
  have hlow : (32 : UInt8) ≤ UInt8.ofNat c.toNat := by
    rw [Utf8.le_ofNat (by omega)]
    exact Nat.le_trans (by decide) hrange.1
  have hhigh : UInt8.ofNat c.toNat < 127 := by
    rw [Utf8.ofNat_lt (by omega)]
    exact Nat.lt_of_le_of_lt hrange.2 (by decide)
  rw [Response.isVisible, decide_eq_true hlow, decide_eq_true hhigh]
  rfl

/-- A header that holds a word is read as that word, if those before it have other names. -/
theorem header?_word {r : Response} {name word : String} (others : List String)
    (before after : List (String × Bytes))
    (hheaders : r.headers = before ++ (name, utf8 word) :: after)
    (hothers : before.map Prod.fst = others) (hname : (name.toLower == name) = true)
    (hbefore : (others.any fun n => n.toLower == name) = false)
    (hword : Form.IsWord word.toList) : r.header? name = some word := by
  subst hothers
  have hfind : (r.headers.find? fun h => h.1.toLower == name) = some (name, utf8 word) := by
    rw [List.find?_eq_some_iff_append]
    refine ⟨hname, before, after, hheaders, fun header hheader => ?_⟩
    rw [List.any_eq_false] at hbefore
    rw [Bool.not_eq_true']
    exact Bool.eq_false_iff.mpr (hbefore header.1 (List.mem_map_of_mem hheader))
  rw [Response.header?, hfind]
  show (if (utf8 word).all Response.isVisible then some (Utf8.decodeLossy (utf8 word)) else none) = _
  rw [utf8, if_pos (isVisible_word hword), Utf8.decodeLossy_encode, String.ofList_toList]

theorem header?_total (w : Window) :
    (opened (Host.window w)).header? totalHeader = some (toString w.total) :=
  header?_word ["access-control-expose-headers", "access-control-allow-origin", "vary",
      "content-type"]
    (Host.exposeHeader :: Host.openHeaders ++
      [("content-type", utf8 "application/octet-stream")])
    _ rfl rfl (by decide +kernel) (by decide +kernel) (isWord_toString w.total)

theorem header?_last (w : Window) :
    (opened (Host.window w)).header? lastHeader = some (toString w.isLast) := by
  have hflag : (if w.isLast then "true" else "false") = toString w.isLast := by
    cases w.isLast <;> rfl
  refine header?_word ["access-control-expose-headers", "access-control-allow-origin",
      "vary", "content-type", totalHeader]
    (Host.exposeHeader :: Host.openHeaders ++
      [("content-type", utf8 "application/octet-stream"), (totalHeader, utf8 (toString w.total))])
    [Host.lengthHeader w.data] ?_ rfl (by decide +kernel) (by decide +kernel) (isWord_flag w.isLast)
  rw [← hflag]
  rfl

/-- A window is read back from the answer that holds it. -/
theorem windowOf_window {w : Window} (h : w.total < Word64.limit) :
    Endpoint.windowOf (opened (Host.window w)) = .ok w := by
  have hlast : (decide (some (toString w.isLast) = some "true")) = w.isLast := by
    cases w.isLast <;> decide
  rw [Endpoint.windowOf, header?_total, header?_last, Option.map_some, Word64.read_toString h]
  show Except.ok (Window.mk w.data w.total (decide (some (toString w.isLast) = some "true"))) = _
  rw [hlast]

/-! ## The host

What a request does on the side of the host, where it has been taken apart again: exactly what the call
does to the store, and an answer made of its outcome. -/

/-- The answer that stands for the outcome of a call without a result. -/
def outcome : Except CallError Unit → Response
  | .ok () => Host.done
  | .error why => Host.failed why

/-- The answer that stands for the outcome of a call for a window. -/
def windowOutcome : Except CallError Window → Response
  | .ok w => Host.window w
  | .error why => Host.failed why

/-- A request to store a chunk whose query can be read and whose body is not too long does what the call
does. -/
theorem put_fields (s : Store) (r : StoreRequest) {query : Bytes}
    (hquery : Query.placement query = .ok ⟨r.offset, r.total, r.isLast⟩)
    (hbody : r.data.length ≤ Host.maxBody) :
    Host.put s r.ref query r.data = (outcome (s.answerStore r).1, (s.answerStore r).2) := by
  rw [Host.put, hquery]
  simp only
  rw [if_neg (Nat.not_lt.mpr hbody)]
  rcases s.answerStore r with ⟨_ | _, s'⟩
  · rfl
  · rfl

/-- A request for a chunk whose query can be read does what the call does. -/
theorem get_fields (s : Store) (r : GetRequest) {query : Bytes}
    (hquery : Query.extent query = .ok ⟨r.offset, r.length⟩) :
    Host.get s r.ref query = windowOutcome (s.get r) := by
  rw [Host.get, hquery]
  simp only
  cases s.get r <;> rfl

/-- The target of a request to store a chunk. -/
def placedAt (r : StoreRequest) : String :=
  targetOf r.ref (placementFields r.offset r.total r.isLast)

/-- The host reads back where the chunk that a request carries belongs. -/
theorem placement_placedAt {r : StoreRequest} (hoffset : r.offset < Word64.limit)
    (htotal : r.total < Word64.limit) :
    Query.placement (Host.queryOf (placedAt r)) = .ok ⟨r.offset, r.total, r.isLast⟩ := by
  rw [placedAt, queryOf_targetOf r.ref (isWord_placementFields r.offset r.total r.isLast)]
  exact placement_fields hoffset htotal r.isLast

/-- The host takes a request to store a chunk to the reference it was made for. -/
theorem answer_placedAt (s : Store) {r : StoreRequest} (h : Names r.ref) :
    Host.answer s ⟨"PUT", placedAt r, r.data⟩ =
      (opened (Host.put s r.ref (Host.queryOf (placedAt r)) r.data).1,
        (Host.put s r.ref (Host.queryOf (placedAt r)) r.data).2) := by
  have hroute : Host.routeOf (placedAt r) = .payload (Endpoint.payloadName true r.ref) :=
    routeOf_targetOf h _
  have hanswer : Host.answerRoute s ⟨"PUT", placedAt r, r.data⟩ =
      Host.put s r.ref (Host.queryOf (placedAt r)) r.data := by
    rw [Host.answerRoute]
    simp only [hroute, Host.answerPayload, h.reference?_payloadName]
    rw [if_pos (by decide), if_pos trivial]
  rw [Host.answer]
  simp only [hanswer]
  rw [if_neg (by decide), if_neg (by decide)]
  rfl

/-- The host stores the chunk that a request carries, and answers with the outcome. -/
theorem answer_put (s : Store) {r : StoreRequest} (h : Names r.ref)
    (hoffset : r.offset < Word64.limit) (htotal : r.total < Word64.limit)
    (hbody : r.data.length ≤ Host.maxBody) :
    Host.answer s ⟨"PUT", placedAt r, r.data⟩ =
      (opened (outcome (s.answerStore r).1), (s.answerStore r).2) := by
  rw [answer_placedAt s h, put_fields s r (placement_placedAt hoffset htotal) hbody]

/-- The host reads the chunk that a request asks for, and answers with the outcome. -/
theorem answer_get (s : Store) {r : GetRequest} (h : Names r.ref)
    (hoffset : r.offset < Word64.limit) (hlength : r.length < Word64.limit) :
    Host.answer s ⟨"GET", targetOf r.ref (extentFields r.offset r.length), []⟩ =
      (opened (windowOutcome (s.get r)), s) := by
  have hquery := extent_fields hoffset hlength
  rw [← queryOf_targetOf r.ref (isWord_extentFields r.offset r.length)] at hquery
  have hget := get_fields s r hquery
  generalize htarget : targetOf r.ref (extentFields r.offset r.length) = target at *
  have hroute : Host.routeOf target = .payload (Endpoint.payloadName true r.ref) :=
    htarget ▸ routeOf_targetOf h _
  have hanswer : Host.answerRoute s ⟨"GET", target, []⟩ = (windowOutcome (s.get r), s) := by
    rw [Host.answerRoute, hroute]
    simp only [Host.answerPayload, h.reference?_payloadName]
    rw [if_pos (by decide), if_neg (by decide), if_neg (by decide), hget]
  rw [Host.answer]
  simp only [hanswer]
  rw [if_neg (by decide), if_neg (by decide)]
  rfl

/-! ## The boundary -/

/-- What the client makes of the answer to a request to store a chunk. -/
theorem stored_outcome (s : Store) (r : StoreRequest) (url : Url) :
    Relayed (s.answerStore r).1
      (Endpoint.stored r.ref url (.ok (opened (outcome (s.answerStore r).1)))) := by
  rcases s.answerStore_cases r with ⟨-, heq⟩ | ⟨-, why, heq⟩
  · rw [heq]
    exact .ok ()
  · rw [heq]
    exact refusal_failed r.ref (.inr ⟨why, rfl⟩)

/-- What the client makes of the answer to a request for a chunk. The size of a payload fits its header. -/
theorem fetched_outcome {s : Store} (htotal : ∀ ref p, s.find? ref = some p → p.total < Word64.limit)
    (r : GetRequest) (url : Url) :
    Relayed (s.get r) (Endpoint.fetched r.ref url (.ok (opened (windowOutcome (s.get r))))) := by
  rcases s.get_outcome r with ⟨p, hfind, hcomplete, hoffset, heq⟩ | ⟨why, hunreadable, heq⟩
  · set w := windowAt p.data r.offset r.length
    have hsize : w.total = p.total := (Store.reads_windowAt hcomplete hoffset).total
    have hwindow := windowOf_window (hsize ▸ htotal r.ref p hfind)
    have hfetched : Endpoint.fetched r.ref url (.ok (opened (Host.window w))) =
        Endpoint.windowOf (opened (Host.window w)) := rfl
    rw [heq, windowOutcome, hfetched, hwindow]
    exact .ok w
  · rw [heq]
    cases hunreadable with
    | notFound => exact refusal_failed r.ref (.inl rfl)
    | incomplete | beyondEnd => exact refusal_failed r.ref (.inr ⟨_, rfl⟩)

/-- Every payload of a store that has only seen calls is within the maximum. -/
theorem total_performAll {maximum : Nat} (hmaximum : maximum < Word64.limit)
    (ops : List Store.Operation) :
    ∀ ref p, ((Store.empty maximum).performAll ops).find? ref = some p → p.total < Word64.limit := by
  intro ref p hfind
  rw [← History.store_run] at hfind
  have hbounded := ((History.reflects_run maximum ops).2 ref).bounded p hfind
  omega

/-- A place where a chunk host listens answers a request by what the host makes of it. -/
theorem exchange_host {w : World} {home place : Place} (hpeer : w.peer = .host home)
    (hplace : World.address place = home) (request : Request) :
    w.exchange place request =
      (.ok (Host.answer w.host request).1, { w with host := (Host.answer w.host request).2 }) := by
  unfold World.exchange
  rw [hpeer]
  simp only [World.Peer.exchange]
  rw [if_pos hplace, ← hpeer]

/-- A store call over HTTP is answered by the host with what it makes of the request. -/
theorem overHttp_placedAt {e : Endpoint} {home : Place} (hroot : e.IsRoot home) {w : World}
    (hpeer : w.peer = .host home) {r : StoreRequest} (h : Names r.ref) (patience : Nat) :
    ∃ url, ((Program.perform (.store r patience)).overHttp e).run World.answer w =
      (some (0, Endpoint.stored r.ref url
          (.ok (Host.answer w.host ⟨"PUT", placedAt r, r.data⟩).1)),
        { w with host := (Host.answer w.host ⟨"PUT", placedAt r, r.data⟩).2 }) := by
  -- the query is written as one text, and it is that of the three fields
  have hwritten : (s!"offset={r.offset}&total_size={r.total}&is_last={r.isLast}").toList =
      Form.line (placementFields r.offset r.total r.isLast) := by
    simp only [String.toList_append]
    show "offset=".toList ++ _ ++ "&total_size=".toList ++ _ ++ "&is_last=".toList ++ _ = _
    simp only [List.append_assoc]
    rfl
  obtain ⟨out, hout, hplace, hrequest⟩ := request_root hroot h "PUT" hwritten r.data
  have hstoreRequest : e.storeRequest r = .ok out := hout
  refine ⟨out.url, ?_⟩
  rw [Program.perform, Program.overHttp, hstoreRequest]
  show (some (0, Endpoint.stored r.ref out.url (w.exchange out.place out.request).1),
    (w.exchange out.place out.request).2) = _
  rw [exchange_host hpeer hplace, hrequest]
  rfl

/-- Storing a chunk over HTTP. -/
theorem overHttp_store {e : Endpoint} {home : Place} (hroot : e.IsRoot home) {w : World}
    (hpeer : w.peer = .host home) {r : StoreRequest} (h : Names r.ref)
    (hoffset : r.offset < Word64.limit) (htotal : r.total < Word64.limit)
    (hbody : r.data.length ≤ Host.maxBody) (patience : Nat) :
    ∃ out, ((Program.perform (.store r patience)).overHttp e).run World.answer w =
        (some (0, out), { w with host := (w.host.answerStore r).2 }) ∧
      Relayed (w.host.answerStore r).1 out := by
  obtain ⟨url, hrun⟩ := overHttp_placedAt hroot hpeer h patience
  refine ⟨_, ?_, stored_outcome w.host r url⟩
  rw [hrun, answer_put w.host h hoffset htotal hbody]

/-- Reading a chunk over HTTP. -/
theorem overHttp_get {e : Endpoint} {home : Place} (hroot : e.IsRoot home) {w : World}
    (hpeer : w.peer = .host home)
    (hstored : ∀ ref p, w.host.find? ref = some p → p.total < Word64.limit)
    {r : GetRequest} (h : Names r.ref)
    (hoffset : r.offset < Word64.limit) (hlength : r.length < Word64.limit) (patience : Nat) :
    ∃ out, ((Program.perform (.get r patience)).overHttp e).run World.answer w =
        (some (0, out), w) ∧
      Relayed (w.host.get r) out := by
  -- here it is two fields
  have hwritten : (s!"offset={r.offset}&length={r.length}").toList =
      Form.line (extentFields r.offset r.length) := by
    simp only [String.toList_append]
    show "offset=".toList ++ _ ++ "&length=".toList ++ _ = _
    simp only [List.append_assoc]
    rfl
  obtain ⟨out, hout, hplace, hrequest⟩ := request_root hroot h "GET" hwritten []
  have hgetRequest : e.getRequest r = .ok out := hout
  refine ⟨_, ?_, fetched_outcome hstored r out.url⟩
  rw [Program.perform, Program.overHttp, hgetRequest]
  show (some (0, Endpoint.fetched r.ref out.url (w.exchange out.place out.request).1),
    (w.exchange out.place out.request).2) = _
  rw [exchange_host hpeer hplace, hrequest, answer_get w.host h hoffset hlength]

/-- **HTTP is transparent.** The store of a host has seen any operations, and an endpoint is the root
of the host. For a reference that is no dot name and has no tab and no line break, numbers of 64 bits
and a body that a host takes, a call over HTTP leaves the store of the host as the call itself does, and
nothing else is changed. It comes back with the outcome of the call itself: the same window, the same
missing reference, or status 400 with the wording of the refusal. -/
theorem overHttp_transparent {maximum : Nat} (hmaximum : maximum < Word64.limit)
    (ops : List Store.Operation) {e : Endpoint} {home : Place} (hroot : e.IsRoot home) {w : World}
    (hhost : w.host = (Store.empty maximum).performAll ops) (hpeer : w.peer = .host home)
    {ref : String} (hdots : ¬ Endpoint.IsDotName ref) (hunbroken : Endpoint.Unbroken ref)
    (patience : Nat) :
    (∀ (data : Bytes) (offset total : Nat) (isLast : Bool), data.length ≤ Host.maxBody →
      offset < Word64.limit → total < Word64.limit →
        let direct := w.host.answerStore ⟨ref, data, offset, total, isLast⟩
        ∃ out, ((Program.perform (.store ⟨ref, data, offset, total, isLast⟩ patience)).overHttp e).run
            World.answer w = (some (0, out), { w with host := direct.2 }) ∧
          Relayed direct.1 out) ∧
    (∀ offset length : Nat, offset < Word64.limit → length < Word64.limit →
      ∃ out, ((Program.perform (.get ⟨ref, offset, length⟩ patience)).overHttp e).run World.answer w =
          (some (0, out), w) ∧
        Relayed (w.host.get ⟨ref, offset, length⟩) out) := by
  have h : Names ref := ⟨hdots, hunbroken⟩
  constructor
  · intro data offset total isLast hbody hoffset htotal direct
    exact overHttp_store hroot hpeer (r := ⟨ref, data, offset, total, isLast⟩) h hoffset htotal hbody
      patience
  -- a read needs to know that the sizes it sends back fit their headers
  · intro offset length hoffset hlength
    have hstored := total_performAll hmaximum ops
    rw [← hhost] at hstored
    exact overHttp_get hroot hpeer hstored (r := ⟨ref, offset, length⟩) h hoffset hlength patience

/-- A world with a chunk host, at which three bytes are stored. -/
def hosting : World :=
  { dice := ⟨[], 0⟩, link := .clear, made := 0, log := [],
    host := (Store.empty 8).performAll [.store ⟨"../é?", [1, 2, 3], 0, 3, true⟩],
    peer := .host ⟨"127.0.0.1", 7420, false⟩, disk := .fresh [], input := [] }

/-- The root of that host, with a user and a fragment that the host does not see. -/
def hostingRoot : Endpoint :=
  ⟨⟨"http", some ⟨"user", "localhost", some 7420⟩, .rooted [""], none, some "top"⟩⟩

/-- A reference that looks like a path with a query and is none: its last bytes are read, and a chunk
of another size is refused. -/
theorem overHttp_transparent_lookalike :
    Endpoint.ofText "http://user@localhost:7420#top" = .ok hostingRoot ∧
      ((Program.perform (.get ⟨"../é?", 1, 9⟩ 0)).overHttp hostingRoot).run World.answer hosting =
        (some (0, .ok ⟨[2, 3], 3, true⟩), hosting) ∧
      ∃ body, ((Program.perform (.store ⟨"../é?", [4], 0, 2, false⟩ 0)).overHttp hostingRoot).run
          World.answer hosting =
            (some (0, .error (.http (.status "400 Bad Request" body))), hosting) ∧
        Json.read? (utf8 body) = some (.object
          [("error", .string "total size 2 does not match stored size 3 for ../é?")]) := by
  have hroot : hostingRoot.IsRoot ⟨"127.0.0.1", 7420, false⟩ := ⟨rfl, rfl, rfl, "localhost", rfl, rfl⟩
  obtain ⟨hstore, hget⟩ := overHttp_transparent (by decide : 8 < Word64.limit) _ hroot
    (rfl : hosting.host = (Store.empty 8).performAll [.store ⟨"../é?", [1, 2, 3], 0, 3, true⟩]) rfl
    (by rintro (h | h | h) <;> exact absurd h (by decide) : ¬ Endpoint.IsDotName "../é?")
    ⟨by decide, by decide, by decide⟩ 0
  -- what the store itself answers; the theorem carries it over
  have hwindow : hosting.host.get ⟨"../é?", 1, 9⟩ = .ok ⟨[2, 3], 3, true⟩ := by decide
  have hrefused : hosting.host.answerStore ⟨"../é?", [4], 0, 2, false⟩ =
      (.error (.refused (.totalDiffers 2 3 "../é?")), hosting.host) := by decide
  refine ⟨by decide +kernel, ?_, ?_⟩
  · obtain ⟨out, hrun, hout⟩ := hget 1 9 (by decide) (by decide)
    rw [hwindow] at hout
    cases hout
    exact hrun
  · obtain ⟨out, hrun, hout⟩ := hstore [4] 0 2 false (by decide) (by decide) (by decide)
    rw [hrefused] at hrun hout
    cases hout with
    | refused why body hbody => exact ⟨body, hrun, hbody⟩

end Stowage.Chunk
