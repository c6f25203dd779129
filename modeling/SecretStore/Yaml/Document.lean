import SecretStore.Yaml.Event.Stream

namespace SecretStore.Yaml

inductive Part where
  | void
  | alias (anchor : Nat)
  | scalar (tag : Option Tag) (text : String) (style : Style)
  | listStart (tag : Option Tag)
  | listEnd
  | mapStart (tag : Option Tag)
  | mapEnd
  deriving DecidableEq, Repr

abbrev Parts := List (Part × Mark)

structure Document where
  parts : Parts
  /-- The position of the anchored part. The first entry of a number counts. -/
  anchors : List (Nat × Nat) := []
  fault : Option Fault := none
  followed : Bool := false

namespace Document

structure Draft where
  parts : Parts := []
  count : Nat := 0
  names : List (String × Nat) := []
  anchors : List (Nat × Nat) := []

namespace Draft

def add (part : Part) (mark : Mark) (draft : Draft) : Draft :=
  { draft with parts := (part, mark) :: draft.parts, count := draft.count + 1 }

def anchor (name : Option String) (draft : Draft) : Draft :=
  match name with
  | none => draft
  | some name =>
    let number := draft.names.length
    { draft with
      names := (name, number) :: draft.names.filter (·.1 ≠ name)
      anchors := (number, draft.count) :: draft.anchors }

def number? (name : String) (draft : Draft) : Option Nat :=
  (draft.names.find? (·.1 = name)).map (·.2)

def finish (fault : Option Fault) (followed : Bool) (draft : Draft) : Document :=
  ⟨draft.parts.reverse, draft.anchors, fault, followed⟩

end Draft

def complete (stream : EventStream) (draft : Draft) : List (Event × Mark) → Document
  | [] =>
    match stream.fault with
    | some fault => draft.finish (some (.grammar fault)) false
    | none =>
      let draft := if draft.parts = [] then draft.add .void stream.stop else draft
      draft.finish none false
  | (event, mark) :: rest =>
    match event with
    | .documentStart => complete stream draft rest
    | .documentEnd => draft.finish none (rest ≠ [] || stream.fault.isSome)
    | .alias name =>
      match draft.number? name with
      | some number => complete stream (draft.add (.alias number) mark) rest
      | none => draft.finish (some (.data .unknownAnchor [] mark)) false
    | .scalar anchor tag text style =>
      complete stream ((draft.anchor anchor).add (.scalar tag text style) mark) rest
    | .listStart anchor tag => complete stream ((draft.anchor anchor).add (.listStart tag) mark) rest
    | .mapStart anchor tag => complete stream ((draft.anchor anchor).add (.mapStart tag) mark) rest
    | .listEnd => complete stream (draft.add .listEnd mark) rest
    | .mapEnd => complete stream (draft.add .mapEnd mark) rest

def ofText (text : List Char) : Document :=
  let stream := EventStream.ofText text
  complete stream {} stream.events

def anchored (document : Document) (number : Nat) : Parts :=
  match document.anchors.find? (·.1 = number) with
  | some (_, position) => document.parts.drop position
  | none => []

def ended (document : Document) : Fault := document.fault.getD (.data .endOfEvents [] {})

end Document

end SecretStore.Yaml
