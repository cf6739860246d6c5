import Stowage.Yaml.Document
import Stowage.Yaml.Number
/-!
# Stowage — decoding YAML

Reads the nodes of a document as data of a known form. A record is a mapping, or nothing at all; its
unknown members are skipped. What does not fit is a mismatch at the place and under the path of the
node it is found in.
-/

namespace Stowage.Yaml

inductive Data where
  | flag (b : Bool)
  | natural (n : Nat)
  | text (s : String)
  | optional (s : Option String)
  | record (members : List (String × Data))

namespace Data

def get? : Data → String → Option Data
  | record members, key => (members.find? fun m => m.1 == key).map Prod.snd
  | _, _ => none

def flag? (data : Data) (key : String) : Option Bool :=
  match data.get? key with
  | some (flag b) => some b
  | _ => none

def natural? (data : Data) (key : String) : Option Nat :=
  match data.get? key with
  | some (natural n) => some n
  | _ => none

def text? (data : Data) (key : String) : Option String :=
  match data.get? key with
  | some (text s) => some s
  | _ => none

/-- A text of a record that may be given as nothing. -/
def optional? (data : Data) (key : String) : Option (Option String) :=
  match data.get? key with
  | some (optional s) => some s
  | _ => none

end Data

abbrev Nodes := List (Node × Mark)

/-- Reads data from nodes of a document; the text is the path of what is read. -/
abbrev Decoder := Document → String → Nodes → Except Fault (Data × Nodes)

def Document.next (d : Document) : Nodes → Except Fault (Node × Mark × Nodes)
  | (node, mark) :: rest => .ok (node, mark, rest)
  | [] => .error (d.cut.getD .endOfStream)

def memberPath (path key : String) : String := if path = "." then key else path ++ "." ++ key

namespace Decoder

def tagOf (name : String) : String := "tag:yaml.org,2002:" ++ name

def foundPlain (text : String) : Found :=
  match Meaning.ofPlain text with
  | .nothing => .unit
  | .boolean b => .boolean b
  | .integer i => .integer i
  | .wideInteger i => .wideInteger i
  | .real x => .float x.text
  | .text => .text text

/-- The mismatch of a scalar: its type is wrong, or it is not what its tag says. -/
def scalarMismatch (tag : Option String) (text : String) (style : Style) (expected : String) :
    Mismatch :=
  let wrong (found : Found) : Mismatch := .invalidType found expected
  let untrue (what : String) : Mismatch := .invalidValue (.text text) what
  let untagged : Mismatch :=
    wrong (if style = .plain then foundPlain text else .text text)
  match tag with
  | none => untagged
  | some tag =>
    if tag = tagOf "bool" then
      match Meaning.boolean? text with
      | some b => wrong (.boolean b)
      | none => untrue "a boolean"
    else if tag = tagOf "int" then
      match Meaning.integer? text with
      | some (.integer i) => wrong (.integer i)
      | some (.wideInteger i) => wrong (.wideInteger i)
      | _ => untrue "an integer"
    else if tag = tagOf "float" then
      match Meaning.real? text with
      | some x => wrong (.float x.text)
      | none => untrue "a float"
    else if tag = tagOf "null" then
      if Meaning.isNothing text then wrong .unit else untrue "null"
    else if tag.startsWith "!" then untagged
    else wrong (.text text)

def wrongType {α : Type} (node : Node) (expected path : String) (mark : Mark) : Except Fault α :=
  let mismatch : Mismatch := match node with
    | .scalar tag text style => scalarMismatch tag text style expected
    | .sequenceStart => .invalidType .sequence expected
    | _ => .invalidType .map expected
  .error (.mismatch mismatch path mark)

/-- Whether a scalar can be read as one of the type with a tag: plain ones can, and literal blocks
with that tag. -/
def isBare (name : String) (tag : Option String) (style : Style) : Bool :=
  style = .plain ∨ (style = .literal ∧ tag = some (tagOf name))

/-- Follows an alias: reads its target and goes on after the alias. -/
def follow (d : Document) (target : Nat) (rest : Nodes)
    (decode : Nodes → Except Fault (Data × Nodes)) : Except Fault (Data × Nodes) := do
  let (data, _) ← decode (d.nodes.drop target)
  .ok (data, rest)

/-- Reads a scalar, or the scalar behind an alias. -/
def scalar (read : Node → Mark → Except Fault Data) (d : Document) (nodes : Nodes) :
    Except Fault (Data × Nodes) := do
  let (node, mark, rest) ← d.next nodes
  match node with
  | .alias target =>
    let (node, mark, _) ← d.next (d.nodes.drop target)
    let data ← read node mark
    .ok (data, rest)
  | node =>
    let data ← read node mark
    .ok (data, rest)

def flag : Decoder := fun d path => scalar (fun node mark =>
  match node with
  | .scalar tag text style =>
    match (if isBare "bool" tag style then Meaning.boolean? text else none) with
    | some b => .ok (.flag b)
    | none => wrongType node "a boolean" path mark
  | _ => wrongType node "a boolean" path mark) d

/-- Reads an unsigned 64-bit number. `expected` names its type. -/
def natural (expected : String) : Decoder := fun d path => scalar (fun node mark =>
  match node with
  | .scalar tag text style =>
    match (if isBare "int" tag style then Meaning.unsigned? (1 <<< 64) text.toList else none) with
    | some n => .ok (.natural n)
    | none => wrongType node expected path mark
  | _ => wrongType node expected path mark) d

/-- Reads the text of any scalar. -/
def text (expected : String) : Decoder := fun d path => scalar (fun node mark =>
  match node with
  | .scalar _ text _ => .ok (.text text)
  | _ => wrongType node expected path mark) d

/-- Reads the text of a scalar, or nothing if a plain scalar spells that. The place and the path of a
scalar that is tagged as nothing, but spells something, are those around it. -/
def optionalText (expected outerPath : String) (outerMark : Mark) : Decoder :=
  fun d path => scalar (fun node mark =>
    match node with
    | .scalar tag text style =>
      if style ≠ .plain then .ok (.optional (some text))
      else
        match tag with
        | none =>
          .ok (.optional (if text.isEmpty ∨ Meaning.isNothing text then none else some text))
        | some tag =>
          if tag = tagOf "null" then
            if Meaning.isNothing text then .ok (.optional none)
            else
              .error (.mismatch (.invalidValue (.text text) "null") outerPath outerMark)
          else .ok (.optional (some text))
    | _ => wrongType node expected path mark) d

def skip (d : Document) : Nat → Nodes → Except Fault Nodes
  | _, [] => .error (d.cut.getD .endOfStream)
  | depth, (node, _) :: rest =>
    match node with
    | .sequenceStart => skip d (depth + 1) rest
    | .mappingStart => skip d (depth + 1) rest
    | .sequenceEnd => if depth ≤ 1 then .ok rest else skip d (depth - 1) rest
    | .mappingEnd => if depth ≤ 1 then .ok rest else skip d (depth - 1) rest
    | _ => if depth = 0 then .ok rest else skip d depth rest

/-- A member of a record: its key, and its decoder, which is told the place of the record. -/
structure Field where
  key : String
  decode : String → Mark → Decoder

def members (fields : List Field) (d : Document) (path : String) (start : Mark) :
    Nat → List (String × Data) → Nodes → Except Fault (Data × Nodes)
  | 0, _, _ => .error (d.cut.getD .endOfStream)
  | fuel + 1, read, nodes => do
    let (node, mark, rest) ← d.next nodes
    if node = .mappingEnd then .ok (.record read, rest)
    else
      let (key, rest) ←
        match node with
        | .alias target => follow d target rest ((text "field identifier") d path)
        | node => (text "field identifier") d path ((node, mark) :: rest)
      let name := match key with
        | .text s => s
        | _ => ""
      -- Only a key that stands there itself shows in paths.
      let inner := match node with
        | .scalar .. => memberPath path name
        | _ => memberPath path "" ++ "?"
      match fields.find? fun f => f.key == name with
      | none =>
        let rest ← skip d 0 rest
        members fields d path start fuel read rest
      | some field =>
        if read.any fun r => r.1 == name then
          .error (.mismatch (.duplicate name) path start)
        else
          let (data, rest) ← field.decode path start d inner rest
          members fields d path start fuel ((name, data) :: read) rest

def record (name : String) (fields : List Field) : Decoder := fun d path nodes => do
  let body (node : Node) (mark : Mark) (rest : Nodes) : Except Fault (Data × Nodes) :=
    match node with
    | .mappingStart => members fields d path mark (rest.length + 1) [] rest
    | .void => .ok (.record [], rest)
    | .scalar none "" .plain => .ok (.record [], rest)
    | node => wrongType node name path mark
  let (node, mark, rest) ← d.next nodes
  match node with
  | .alias target =>
    let (node, mark, rest') ← d.next (d.nodes.drop target)
    let (data, _) ← body node mark rest'
    .ok (data, rest)
  | node => body node mark rest

def run (decoder : Decoder) (text : String) : Except Fault Data := do
  let stream := Stream.ofText text
  let (data, _) ← decoder stream.first "." stream.first.nodes
  match stream.first.cut with
  | some fault => .error fault
  | none => if stream.more then .error .severalDocuments else .ok data

end Decoder

end Stowage.Yaml
