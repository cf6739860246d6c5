import Stowage.Yaml.Token
/-!
# Stowage — YAML events

The structure of a text as a sequence of events: collections start and end, scalars and aliases stand
alone, and left-out nodes are empty plain scalars. Events come from tokens by a machine with a stack of
states. When the text is malformed the events before the problem are still given.
-/

namespace Stowage.Yaml

inductive Event.Kind where
  | documentStart
  | documentEnd
  | streamEnd
  | alias (name : String)
  | scalar (anchor tag : Option String) (text : String) (style : Style)
  | sequenceStart (anchor : Option String)
  | sequenceEnd
  | mappingStart (anchor : Option String)
  | mappingEnd
deriving DecidableEq, Repr

structure Event where
  kind : Event.Kind
  mark : Mark
deriving DecidableEq, Repr

namespace Event

inductive Expected where
  | firstDocument
  | document
  | documentContent
  | documentEnd
  | blockNode
  | blockEntryFirst
  | blockEntry
  | looseEntry
  | blockKeyFirst
  | blockKey
  | blockValue
  | flowEntryFirst
  | flowEntry
  | pairKey
  | pairValue
  | pairEnd
  | flowKeyFirst
  | flowKey
  | flowValue
  | flowEmptyValue
  | nothing
deriving DecidableEq, Repr

/-- The machine: the tokens to come, what is expected, what is expected after the node at hand and
around it, where the open collections started, and the handles that tags may use. -/
structure Machine where
  tokens : List Token
  expected : Expected
  stack : List Expected
  starts : List Mark
  handles : List (String × String)

/-- What a step of the machine comes to: an event, or the problem that ends the events. Without tokens
there is no problem of the machine's own. -/
inductive Outcome where
  | event (e : Event) (m : Machine)
  | problem (fault : Fault)
  | starved

/-- The handles that need no directive. -/
def defaultHandles : List (String × String) := [("!", "!"), ("!!", "tag:yaml.org,2002:")]

namespace Machine

def init (tokens : List Token) : Machine := ⟨tokens, .firstDocument, [], [], []⟩

/-- An event with what is expected after it. -/
def emit (m : Machine) (kind : Kind) (mark : Mark) (expected : Expected) : Outcome :=
  .event ⟨kind, mark⟩ { m with expected }

def emitEmpty (m : Machine) (mark : Mark) (expected : Expected) : Outcome :=
  m.emit (.scalar none none "" .plain) mark expected

def skip (m : Machine) : Machine := { m with tokens := m.tokens.tail }

/-- What is expected around the node at hand. -/
def pop (m : Machine) : Expected × Machine :=
  (m.stack.headD .nothing, { m with stack := m.stack.tail })

/-- An event that ends the node at hand. -/
def emitLast (m : Machine) (kind : Kind) (mark : Mark) : Outcome :=
  let (expected, m) := m.pop
  m.emit kind mark expected

/-- Notes what is expected after the node that comes next. -/
def await (m : Machine) (expected : Expected) : Machine := { m with stack := expected :: m.stack }

def mismatch (text during : String) (start place : Mark) : Outcome :=
  .problem (.malformed text place (some (during, start)))

def mismatchInCollection (m : Machine) (text during : String) (place : Mark) : Outcome :=
  mismatch text during (m.starts.headD Mark.start) place

/-- The properties of a node: its anchor and its tag, where they start, and where the tag is. -/
structure Properties where
  anchor : Option String
  tag : Option (String × String)
  start : Option Mark
  tagMark : Mark

/-- Reads an anchor and a tag, in either order. -/
def readProperties (m : Machine) : Properties × Machine :=
  match m.tokens with
  | ⟨.anchor name, a, _⟩ :: ⟨.tag handle suffix, t, _⟩ :: rest =>
    (⟨some name, some (handle, suffix), some a, t⟩, { m with tokens := rest })
  | ⟨.tag handle suffix, t, _⟩ :: ⟨.anchor name, _, _⟩ :: rest =>
    (⟨some name, some (handle, suffix), some t, t⟩, { m with tokens := rest })
  | ⟨.anchor name, a, _⟩ :: rest => (⟨some name, none, some a, a⟩, { m with tokens := rest })
  | ⟨.tag handle suffix, t, _⟩ :: rest =>
    (⟨none, some (handle, suffix), some t, t⟩, { m with tokens := rest })
  | _ => (⟨none, none, none, Mark.start⟩, m)

def resolveTag (m : Machine) : String × String → Option String
  | ("", suffix) => some suffix
  | (handle, suffix) =>
    (m.handles.find? fun h => h.1 == handle).map fun h => h.2 ++ suffix

/-- The node that comes next. `block` says whether block collections may start here, `loose` whether
a sequence may start without more indentation. -/
def node (m : Machine) (block loose : Bool) : Outcome :=
  match m.tokens with
  -- an alias has neither anchor nor tag
  | ⟨.alias name, mark, _⟩ :: _ => m.skip.emitLast (.alias name) mark
  | _ =>
    let (p, after) := m.readProperties
    match after.tokens with
    | [] => .starved
    | token :: _ =>
      let start := p.start.getD token.start
      let withTag (tag : Option String) : Outcome :=
        let bare := p.anchor.isNone ∧ tag.isNone
        match token.kind with
        | .blockEntry =>
          if loose then after.emit (.sequenceStart p.anchor) start .looseEntry
          -- properties with nothing behind them belong to an empty scalar
          else if !bare then after.emitLast (.scalar p.anchor tag "" .plain) start
          else
            mismatch "did not find expected node content"
              (if block then "while parsing a block node" else "while parsing a flow node") start
              token.start
        | .scalar text style => after.skip.emitLast (.scalar p.anchor tag text style) start
        | .flowSequenceStart => after.emit (.sequenceStart p.anchor) start .flowEntryFirst
        | .flowMappingStart => after.emit (.mappingStart p.anchor) start .flowKeyFirst
        | kind =>
          if block ∧ kind = .sequenceStart then
            after.emit (.sequenceStart p.anchor) start .blockEntryFirst
          else if block ∧ kind = .mappingStart then
            after.emit (.mappingStart p.anchor) start .blockKeyFirst
          else if !bare then after.emitLast (.scalar p.anchor tag "" .plain) start
          else
            mismatch "did not find expected node content"
              (if block then "while parsing a block node" else "while parsing a flow node") start
              token.start
      match p.tag with
      | none => withTag none
      | some tag =>
        match m.resolveTag tag with
        | some tag => withTag (some tag)
        | none =>
          mismatch "found undefined tag handle" "while parsing a node" start p.tagMark

/-- Reads directives and adds the default handles. -/
def readDirectives (m : Machine) : Nat → Bool → List (String × String) →
    List Token → Except Fault (Machine)
  | 0, _, _, _ => .ok m
  | _ + 1, _, handles, [] => .ok { m with handles, tokens := [] }
  | fuel + 1, versioned, handles, token :: rest =>
    let fault (text : String) : Except Fault Machine :=
      .error (.malformed text token.start none)
    match token.kind with
    | .version major minor =>
      if versioned then fault "found duplicate %YAML directive"
      else if major ≠ 1 ∨ (minor ≠ 1 ∧ minor ≠ 2) then
        fault "found incompatible YAML document"
      else m.readDirectives fuel true handles rest
    | .tagHandle handle base =>
      if handles.any fun h => h.1 == handle then fault "found duplicate %TAG directive"
      else m.readDirectives fuel versioned (handles ++ [(handle, base)]) rest
    | _ => .ok { m with tokens := token :: rest, handles := handles ++ defaultHandles }

def document (m : Machine) (first : Bool) : Outcome :=
  let m := if first then m else
    { m with tokens := m.tokens.dropWhile fun t => t.kind == .documentEnd }
  match m.tokens with
  | [] => .starved
  | token :: _ =>
    let explicit := match token.kind with
      | .version .. => true
      | .tagHandle .. => true
      | .documentStart => true
      | _ => false
    if token.kind = .streamEnd then m.skip.emit .streamEnd token.start .nothing
    -- only the first document may start without a mark
    else if first ∧ !explicit then
      ({ m with handles := defaultHandles }.await .documentEnd).emit .documentStart token.start
        .blockNode
    else
      match m.readDirectives (m.tokens.length + 1) false [] m.tokens with
      | .error fault => .problem fault
      | .ok m =>
        match m.tokens with
        | [] => .starved
        | token' :: _ =>
          if token'.kind = .documentStart then
            (m.skip.await .documentEnd).emit .documentStart token.start .documentContent
          else .problem (.malformed "did not find expected <document start>" token'.start none)

/-- The node that comes next, unless one of some tokens comes instead: then an empty scalar. -/
def nodeUnless (m : Machine) (ends : List Token.Kind) (after : Expected) (mark : Mark)
    (block loose : Bool) : Outcome :=
  match m.tokens with
  | [] => .starved
  | token :: _ =>
    if ends.contains token.kind then m.emitEmpty mark after
    else (m.await after).node block loose

def close (m : Machine) (kind : Kind) (mark : Mark) : Outcome :=
  { m with starts := m.starts.tail }.emitLast kind mark

/-- Notes where a collection starts, and passes over its first token. -/
def enter (m : Machine) : Machine :=
  match m.tokens with
  | token :: rest => { m with tokens := rest, starts := token.start :: m.starts }
  | [] => m

def blockEntry (m : Machine) : Outcome :=
  match m.tokens with
  | [] => .starved
  | token :: _ =>
    if token.kind = .blockEntry then
      m.skip.nodeUnless [.blockEntry, .blockEnd] .blockEntry token.stop true false
    else if token.kind = .blockEnd then m.skip.close .sequenceEnd token.start
    else
      m.mismatchInCollection "did not find expected '-' indicator"
        "while parsing a block collection" token.start

/-- An entry of a block sequence that is not indented. -/
def looseEntry (m : Machine) : Outcome :=
  match m.tokens with
  | [] => .starved
  | token :: _ =>
    if token.kind = .blockEntry then
      m.skip.nodeUnless [.blockEntry, .key, .value, .blockEnd] .looseEntry token.stop true false
    else m.emitLast .sequenceEnd token.start

def blockKey (m : Machine) : Outcome :=
  match m.tokens with
  | [] => .starved
  | token :: _ =>
    if token.kind = .key then
      m.skip.nodeUnless [.key, .value, .blockEnd] .blockValue token.stop true true
    else if token.kind = .blockEnd then m.skip.close .mappingEnd token.start
    else
      m.mismatchInCollection "did not find expected key" "while parsing a block mapping" token.start

def blockValue (m : Machine) : Outcome :=
  match m.tokens with
  | [] => .starved
  | token :: _ =>
    if token.kind = .value then
      m.skip.nodeUnless [.key, .value, .blockEnd] .blockKey token.stop true true
    else m.emitEmpty token.start .blockKey

def flowEntry (m : Machine) (first : Bool) : Outcome :=
  match m.tokens with
  | [] => .starved
  | token :: _ =>
    if token.kind = .flowSequenceEnd then m.skip.close .sequenceEnd token.start
    else if !first ∧ token.kind ≠ .flowEntry then
      m.mismatchInCollection "did not find expected ',' or ']'" "while parsing a flow sequence"
        token.start
    else
      let m := if first then m else m.skip
      match m.tokens with
      | [] => .starved
      | token :: _ =>
        if token.kind = .key then m.skip.emit (.mappingStart none) token.start .pairKey
        else if token.kind = .flowSequenceEnd then m.skip.close .sequenceEnd token.start
        else (m.await .flowEntry).node false false

def pairKey (m : Machine) : Outcome :=
  match m.tokens with
  | [] => .starved
  | token :: _ =>
    if [.value, .flowEntry, .flowSequenceEnd].contains token.kind then
      m.skip.emitEmpty token.stop .pairValue
    else (m.await .pairValue).node false false

def pairValue (m : Machine) : Outcome :=
  match m.tokens with
  | [] => .starved
  | token :: _ =>
    if token.kind = .value then
      match m.skip.tokens with
      | [] => .starved
      | next :: _ =>
        m.skip.nodeUnless [.flowEntry, .flowSequenceEnd] .pairEnd next.start false false
    else m.emitEmpty token.start .pairEnd

def pairEnd (m : Machine) : Outcome :=
  match m.tokens with
  | [] => .starved
  | token :: _ => m.emit .mappingEnd token.start .flowEntry

def flowKey (m : Machine) (first : Bool) : Outcome :=
  match m.tokens with
  | [] => .starved
  | token :: _ =>
    if token.kind = .flowMappingEnd then m.skip.close .mappingEnd token.start
    else if !first ∧ token.kind ≠ .flowEntry then
      m.mismatchInCollection "did not find expected ',' or '\x7d'" "while parsing a flow mapping"
        token.start
    else
      let m := if first then m else m.skip
      match m.tokens with
      | [] => .starved
      | token :: _ =>
        if token.kind = .key then
          match m.skip.tokens with
          | [] => .starved
          | next :: _ =>
            m.skip.nodeUnless [.value, .flowEntry, .flowMappingEnd] .flowValue next.start false false
        else if token.kind = .flowMappingEnd then m.skip.close .mappingEnd token.start
        else (m.await .flowEmptyValue).node false false

def flowValue (m : Machine) : Outcome :=
  match m.tokens with
  | [] => .starved
  | token :: _ =>
    if token.kind = .value then
      match m.skip.tokens with
      | [] => .starved
      | next :: _ => m.skip.nodeUnless [.flowEntry, .flowMappingEnd] .flowKey next.start false false
    else m.emitEmpty token.start .flowKey

def step (m : Machine) : Outcome :=
  match m.tokens with
  | [] => .starved
  | token :: _ =>
    match m.expected with
    | .firstDocument => m.document true
    | .document => m.document false
    | .documentContent =>
      match token.kind with
      | .version .. | .tagHandle .. | .documentStart | .documentEnd | .streamEnd =>
        m.pop.2.emitEmpty token.start m.pop.1
      | _ => m.node true false
    | .documentEnd =>
      let m' := if token.kind = .documentEnd then m.skip else m
      { m' with handles := [] }.emit .documentEnd token.start .document
    | .blockNode => m.node true false
    | .blockEntryFirst => m.enter.blockEntry
    | .blockEntry => m.blockEntry
    | .looseEntry => m.looseEntry
    | .blockKeyFirst => m.enter.blockKey
    | .blockKey => m.blockKey
    | .blockValue => m.blockValue
    | .flowEntryFirst => m.enter.flowEntry true
    | .flowEntry => m.flowEntry false
    | .pairKey => m.pairKey
    | .pairValue => m.pairValue
    | .pairEnd => m.pairEnd
    | .flowKeyFirst => m.enter.flowKey true
    | .flowKey => m.flowKey false
    | .flowValue => m.flowValue
    | .flowEmptyValue => m.emitEmpty token.start .flowKey
    | .nothing => .starved

/-- The events of a machine, up to the end of the stream, and the problem that ends them early.
`cut` is the problem that ended the tokens early. -/
def run (cut : Option Fault) : Nat → Machine → List Event × Option Fault
  | 0, _ => ([], cut)
  | fuel + 1, m =>
    match m.step with
    | .problem fault => ([], some fault)
    | .starved => ([], cut)
    | .event e m =>
      if e.kind = .streamEnd then ([e], none)
      else
        let (events, fault) := run cut fuel m
        (e :: events, fault)

end Machine

/-- The events of a text, and the problem that ends them early. A token is the cause of at most four
events. -/
def ofText (text : String) : List Event × Option Fault :=
  let (tokens, cut) := Token.ofText text
  Machine.run cut (4 * tokens.length + 8) (Machine.init tokens.tail)

end Event

end Stowage.Yaml
