import Stowage.Yaml.Event
/-!
# Stowage — YAML documents

The events of one document, with every alias resolved to the event that has its anchor. The problem
that ends a document early only matters to a reader that gets there.
-/

namespace Stowage.Yaml

inductive Node where
  | void
  | alias (target : Nat)
  | scalar (tag : Option String) (text : String) (style : Style)
  | sequenceStart
  | sequenceEnd
  | mappingStart
  | mappingEnd
deriving DecidableEq, Repr

/-- The parts of a document with their places, and the problem that ends it early. -/
structure Document where
  nodes : List (Node × Mark)
  cut : Option Fault
deriving DecidableEq, Repr

/-- A document, and whether anything comes after it. -/
structure Stream where
  first : Document
  more : Bool
deriving DecidableEq, Repr

namespace Document

/-- Collects the nodes of a document, last first, with the numbers of the anchored ones. -/
def collect (cut : Option Fault) :
    List Event → List (Node × Mark) → List (String × Nat) → Stream
  | [], nodes, _ => ⟨⟨nodes.reverse, cut⟩, false⟩
  | e :: rest, nodes, anchors =>
    let add (node : Node) (anchor : Option String) : Stream :=
      let anchors := match anchor with
        | some name => (name, nodes.length) :: anchors
        | none => anchors
      collect cut rest ((node, e.mark) :: nodes) anchors
    match e.kind with
    | .documentStart => collect cut rest nodes anchors
    | .documentEnd =>
      ⟨⟨nodes.reverse, none⟩, (rest.head?.map Event.kind) ≠ some .streamEnd⟩
    | .streamEnd => ⟨⟨[(.void, e.mark)], none⟩, false⟩
    | .alias name =>
      match anchors.find? fun a => a.1 == name with
      | some (_, target) => add (.alias target) none
      | none => ⟨⟨nodes.reverse, some (.unknownAnchor e.mark)⟩, false⟩
    | .scalar anchor tag text style => add (.scalar tag text style) anchor
    | .sequenceStart anchor => add .sequenceStart anchor
    | .sequenceEnd => add .sequenceEnd none
    | .mappingStart anchor => add .mappingStart anchor
    | .mappingEnd => add .mappingEnd none

end Document

/-- The first document of a text. An empty text is a document of nothing. -/
def Stream.ofText (text : String) : Stream :=
  let (events, cut) := Event.ofText text
  Document.collect cut events [] []

end Stowage.Yaml
