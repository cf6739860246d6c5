import Stowage.Chunk.Endpoint
import Stowage.Proofs.Url.Percent
/-!
# Stowage — the route to a payload

Where a reference leads below an endpoint. Of a reference only the characters that are no tabs and
no line breaks count, and a single dot counts for nothing either (`spelled`). Two dots that are left
lead back out of `chunks`; anything else is one more name there, which decodes to what counts
(`addReference_payloadNames`). `payloadUrl_route` says for which references a URL is made, where it
leads, for which of them the last name decodes to the reference itself, and which references share
a URL.
-/

namespace Stowage.Chunk.Endpoint

/-! ## What counts of a reference

A path that is built up segment by segment drops tabs and line breaks from each, and takes a single dot
for the directory itself. Both happen after the reference was checked. -/

/-- The characters of a reference that count. -/
def significant (ref : String) : List Char :=
  ref.toList.filter fun c => c ≠ '\t' ∧ c ≠ '\n' ∧ c ≠ '\r'

/-- What the name of a payload spells. -/
def spelled (ref : String) : List Char :=
  if significant ref = ['.'] then [] else significant ref

/-- A reference without tabs and line breaks. -/
def Unbroken (ref : String) : Prop := '\t' ∉ ref.toList ∧ '\n' ∉ ref.toList ∧ '\r' ∉ ref.toList

/-- All characters of a reference count exactly if it is unbroken. -/
theorem significant_eq_iff (ref : String) : significant ref = ref.toList ↔ Unbroken ref := by
  rw [significant, List.filter_eq_self]
  constructor
  · intro h
    refine ⟨fun hc => ?_, fun hc => ?_, fun hc => ?_⟩ <;> exact absurd (h _ hc) (by decide)
  · rintro ⟨htab, hfeed, hreturn⟩ c hc
    rw [decide_eq_true_iff]
    refine ⟨?_, ?_, ?_⟩ <;> rintro rfl
    · exact htab hc
    · exact hfeed hc
    · exact hreturn hc

/-- A reference that is no dot name is spelled by its name exactly if it has no tab and no line break. -/
theorem spelled_eq_iff {ref : String} (hdot : ref ≠ ".") :
    spelled ref = ref.toList ↔ Unbroken ref := by
  rw [← significant_eq_iff, spelled]
  by_cases hsingle : significant ref = ['.']
  · rw [if_pos hsingle, hsingle]
    constructor
    · intro h
      -- nothing was left out of the empty text
      rw [significant, ← h] at hsingle
      cases hsingle
    · intro h
      exact absurd (String.toList_inj.mp (h.symm.trans (by decide))) hdot
  · rw [if_neg hsingle]

/-! ## Names

The names of a path are those of the endpoint, `chunks`, and the reference; an empty name at the end
gives way. -/

/-- The names of an endpoint that stand before `chunks`. -/
def stem (names : List String) : List String :=
  let names := if names.getLast? = some "" then names.dropLast else names
  if names = [""] then [] else names

/-- The characters that the name of a payload escapes. -/
def escapes (isWeb : Bool) : List Char := if isWeb then Percent.webSegment else Percent.segment

/-- A percent sign is always escaped, so no name decodes to more than it spells. -/
theorem mark_mem_escapes (isWeb : Bool) : '%' ∈ escapes isWeb := by
  cases isWeb <;> decide

/-- A slash is always escaped, so a reference is never more than one name. -/
theorem slash_mem_escapes (isWeb : Bool) : '/' ∈ escapes isWeb := by
  cases isWeb <;> decide

def payloadName (isWeb : Bool) (ref : String) : String :=
  String.ofList (Percent.encode (escapes isWeb) (spelled ref))

/-- Where a reference leads: back out of `chunks`, or to one name in it. -/
theorem addReference_payloadNames (isWeb : Bool) (names : List String) (ref : String) :
    addReference isWeb (payloadNames names) ref =
      if significant ref = ['.', '.'] then stem names ++ [""]
      else stem names ++ ["chunks", payloadName isWeb ref] := by
  have hnames : payloadNames names = stem names ++ ["chunks"] := rfl
  have hsignificant :
      ref.toList.filter (fun c => decide (c ≠ '\t' ∧ c ≠ '\n' ∧ c ≠ '\r')) = significant ref := rfl
  unfold addReference
  rw [hsignificant, hnames, List.dropLast_concat]
  simp only [payloadName, spelled]
  by_cases hdots : significant ref = ['.', '.']
  · rw [if_pos hdots, if_pos hdots]
  · rw [if_neg hdots, if_neg hdots]
    by_cases hdot : significant ref = ['.']
    · rw [if_pos hdot, if_pos hdot, List.append_assoc]
      rfl
    · rw [if_neg hdot, if_neg hdot, List.append_assoc]
      rfl

/-- The name of a payload decodes to what it spells. -/
theorem decode_payloadName (isWeb : Bool) (ref : String) :
    Percent.decode (utf8 (payloadName isWeb ref)) = Utf8.encode (spelled ref) := by
  rw [utf8, payloadName, String.toList_ofList]
  exact Percent.decode_encode (mark_mem_escapes isWeb) _

/-- The name of a payload is one name: it has no slash in it. -/
theorem slash_payloadName (isWeb : Bool) (ref : String) : '/' ∉ (payloadName isWeb ref).toList := by
  rw [payloadName, String.toList_ofList]
  refine Percent.notMem_encode (slash_mem_escapes isWeb) (by decide) ?_ _
  intro n hn
  have hall : ∀ k : Fin 16, '/' ≠ Hex.capital k := by decide
  exact hall ⟨n, hn⟩

/-- Two references have one name exactly if they spell the same. -/
theorem payloadName_inj {isWeb : Bool} {ref other : String} :
    payloadName isWeb ref = payloadName isWeb other ↔ spelled ref = spelled other := by
  constructor
  · intro h
    exact Percent.encode_injective (mark_mem_escapes isWeb) (String.ofList_inj.mp h)
  · intro h
    rw [payloadName, h, payloadName]

/-- Two references lead to the same names exactly if they spell the same. -/
theorem addReference_inj {isWeb : Bool} {names : List String} {ref other : String} :
    addReference isWeb (payloadNames names) ref = addReference isWeb (payloadNames names) other ↔
      spelled ref = spelled other := by
  have hspelled : ∀ r, significant r = ['.', '.'] ↔ spelled r = ['.', '.'] := by
    intro r
    unfold spelled
    split
    · next hdot =>
      rw [hdot]
      decide
    · rfl
  rw [addReference_payloadNames, addReference_payloadNames]
  by_cases href : significant ref = ['.', '.'] <;> by_cases hother : significant other = ['.', '.']
  · rw [if_pos href, if_pos hother, (hspelled ref).mp href, (hspelled other).mp hother]
    simp
  -- one of the two leads out of `chunks`, to fewer names than the other
  · rw [if_pos href, if_neg hother, (hspelled ref).mp href, eq_comm (a := ['.', '.']),
      ← hspelled other]
    simp [hother]
  · rw [if_neg href, if_pos hother, (hspelled other).mp hother, ← hspelled ref]
    simp [href]
  · rw [if_neg href, if_neg hother]
    simp [payloadName_inj]

/-! ## URLs

An endpoint may also have a path that is not a list of names, and then there is no URL. For the others
everything is said by what the reference adds to the names. -/

/-- The dot names, and no name at all. -/
def IsDotName (ref : String) : Prop := ref = "" ∨ ref = "." ∨ ref = ".."

/-- An endpoint whose path cannot be extended has no URL for any payload. -/
theorem payloadUrl_bare {e : Endpoint} {text : String} (hpath : e.url.path = .bare text)
    (ref : String) : ∃ why, e.payloadUrl ref = .error why := by
  unfold payloadUrl
  rw [hpath]
  split
  · exact ⟨_, rfl⟩
  · exact ⟨_, rfl⟩

/-- An endpoint with a path of names has a URL for every reference that is not empty, a dot or two dots.
-/
theorem payloadUrl_rooted {e : Endpoint} {names : List String} (hpath : e.url.path = .rooted names)
    {ref : String} {url : Url} :
    e.payloadUrl ref = .ok url ↔ ¬ IsDotName ref ∧
      url = { e.url with
        path := .rooted (addReference (Url.isWeb e.url.scheme) (payloadNames names) ref) } := by
  unfold payloadUrl IsDotName
  rw [hpath]
  by_cases hdot : ref = "" ∨ ref = "." ∨ ref = ".."
  · rw [if_pos hdot]
    simp [hdot]
  · rw [if_neg hdot]
    simp only [hdot, not_false_eq_true, true_and]
    exact ⟨fun h => (Except.ok.inj h).symm, fun h => h ▸ rfl⟩

/-- **The route of a payload.** There is no URL for the empty reference, for one or two dots, and below an
endpoint without a structured path. Otherwise the URL differs from the endpoint in its path alone. What
counts of a reference is all but tabs and line breaks. If that is two dots, the path leads out of
`chunks`, to the endpoint itself. If not, it ends with `chunks` and one more name, which decodes to what
counts, without a single dot; that is the reference itself exactly if it has no tab and no line break.
Two references share a URL exactly if the same counts of them. -/
theorem payloadUrl_route (e : Endpoint) (ref : String) :
    ((∃ why, e.payloadUrl ref = .error why) ↔
      IsDotName ref ∨ ∃ text, e.url.path = .bare text) ∧
    ∀ url, e.payloadUrl ref = .ok url →
      ∃ names, e.url.path = .rooted names ∧
        (significant ref = ['.', '.'] →
          url = { e.url with path := .rooted (stem names ++ [""]) }) ∧
        (significant ref ≠ ['.', '.'] → ∃ name,
          url = { e.url with path := .rooted (stem names ++ ["chunks", name]) } ∧
          '/' ∉ name.toList ∧ Percent.decode (utf8 name) = Utf8.encode (spelled ref) ∧
          (Percent.decode (utf8 name) = utf8 ref ↔ Unbroken ref)) ∧
        ∀ other, e.payloadUrl other = .ok url ↔ ¬ IsDotName other ∧ spelled other = spelled ref := by
  -- only a path of names can be extended
  cases hpath : e.url.path with
  | bare text =>
    obtain ⟨why, hwhy⟩ := payloadUrl_bare hpath ref
    refine ⟨⟨fun _ => .inr ⟨text, rfl⟩, fun _ => ⟨why, hwhy⟩⟩, fun url hurl => ?_⟩
    rw [hwhy] at hurl
    cases hurl
  | rooted names =>
    have hiff := @payloadUrl_rooted e names hpath
    constructor
    · constructor
      · rintro ⟨why, hwhy⟩
        by_contra hdot
        have hok := hiff.mpr ⟨fun h => hdot (.inl h), rfl⟩
        rw [hwhy] at hok
        cases hok
      · rintro (hdot | ⟨text, heq⟩)
        · cases hresult : e.payloadUrl ref with
          | error why => exact ⟨why, rfl⟩
          | ok url => exact absurd hdot (hiff.mp hresult).1
        · cases heq
    · intro url hurl
      obtain ⟨hdot, rfl⟩ := hiff.mp hurl
      -- the reference counts as two dots, or is one more name; equal URLs mean equal spellings
      refine ⟨names, rfl, fun hdots => ?_, fun hdots => ?_, fun other => ?_⟩
      · rw [addReference_payloadNames, if_pos hdots]
      · refine ⟨payloadName (Url.isWeb e.url.scheme) ref, ?_, slash_payloadName _ ref,
          decode_payloadName _ ref, ?_⟩
        · rw [addReference_payloadNames, if_neg hdots]
        · rw [decode_payloadName, utf8, Utf8.encode_inj]
          exact spelled_eq_iff fun h => hdot (.inr (.inl h))
      · rw [hiff, and_congr_right_iff]
        intro _
        have hinj := @addReference_inj (Url.isWeb e.url.scheme) names ref other
        rw [eq_comm (a := spelled other), ← hinj]
        simp

/-- An endpoint with a path. -/
def shelf : Endpoint := ⟨⟨"http", some ⟨"", "h", none⟩, .rooted ["s", ""], none, none⟩⟩

/-- Two dots with a tab between them lead out of `chunks`, and so do two dots with a line break. -/
theorem payloadUrl_route_dots :
    Endpoint.ofText "http://h/s" = .ok shelf ∧ ∃ url, shelf.payloadUrl ".\t." = .ok url ∧
      url = { shelf.url with path := .rooted ["s", ""] } ∧ shelf.payloadUrl ".\n." = .ok url := by
  refine ⟨by decide +kernel, { shelf.url with path := .rooted ["s", ""] }, by decide +kernel, ?_⟩
  obtain ⟨names, hnames, hdots, -, hshared⟩ :=
    (payloadUrl_route shelf ".\t.").2 { shelf.url with path := .rooted ["s", ""] } (by decide +kernel)
  cases hnames
  refine ⟨hdots (by decide), (hshared ".\n.").mpr ⟨?_, by decide⟩⟩
  rintro (h | h | h) <;> exact absurd h (by decide)

end Stowage.Chunk.Endpoint
