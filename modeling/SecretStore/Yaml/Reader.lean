import SecretStore.Yaml.Document
import SecretStore.Yaml.Scalar

namespace SecretStore.Yaml

structure Place where
  document : Document
  path : List String := []

abbrev Reader (α : Type) := Place → Parts → Except Fault (α × Parts)

namespace Place

def fault {α : Type} (cause : Cause) (mark : Mark) (place : Place) : Except Fault α :=
  .error (.data cause place.path mark)

def under (key : Part) (place : Place) : Place :=
  match key with
  | .scalar _ text _ => { place with path := place.path ++ [text] }
  | _ => { place with path := place.path ++ ["?"] }

end Place

structure Node where
  part : Part
  mark : Mark
  inner : Parts
  after : Option Parts

/-- An alias stands for the node of its anchor. -/
def node (place : Place) : Parts → Except Fault Node
  | [] => .error place.document.ended
  | (.alias number, _) :: rest =>
    match place.document.anchored number with
    | [] => .error place.document.ended
    | (part, mark) :: inner => .ok ⟨part, mark, inner, some rest⟩
  | (part, mark) :: rest => .ok ⟨part, mark, rest, none⟩

def Node.leave (node : Node) (rest : Parts) : Parts := node.after.getD rest

def Node.mismatch {α : Type} (wanted : String) (place : Place) (node : Node) : Except Fault α :=
  match node.part with
  | .scalar tag text style =>
    match Found.ofScalar tag text style with
    | .ok found => place.fault (.mismatch found wanted) node.mark
    | .error cause => place.fault cause node.mark
  | .listStart _ | .listEnd => place.fault (.mismatch .sequence wanted) node.mark
  | .mapStart _ | .mapEnd => place.fault (.mismatch .map wanted) node.mark
  | .void | .alias _ => .error place.document.ended

def ignoreFrom (place : Place) (depth : Nat) : Parts → Except Fault Parts
  | [] => .error place.document.ended
  | (part, _) :: rest =>
    let depth := match part with
      | .listStart _ | .mapStart _ => depth + 1
      | .listEnd | .mapEnd => depth - 1
      | _ => depth
    if depth = 0 then .ok rest else ignoreFrom place depth rest

def ignore (place : Place) (rest : Parts) : Except Fault Parts := ignoreFrom place 0 rest

def textWanted (wanted : String) : Reader String := fun place rest => do
  let node ← node place rest
  match node.part with
  | .scalar _ text _ => return (text, node.leave node.inner)
  | _ => node.mismatch wanted place

def text : Reader String := textWanted "a string"

/-- A plain scalar may be a boolean whatever its tag, and a literal one only if it is tagged as one. -/
def readsAsBoolean (tag : Option Tag) (style : Style) : Bool :=
  style = .plain || (style = .literal && tag = some (standardTag "bool"))

def boolean : Reader Bool := fun place rest => do
  let node ← node place rest
  let value := match node.part with
    | .scalar tag text style => if readsAsBoolean tag style then boolean? text else none
    | _ => none
  match value with
  | some value => return (value, node.leave node.inner)
  | none => node.mismatch "a boolean" place

def members {σ : Type} (step : σ → Place → (key : Part) → Parts → Except Fault (σ × Parts))
    (place : Place) : Nat → σ → Parts → Except Fault (σ × Parts)
  | _, _, [] => .error place.document.ended
  | 0, _, _ => .error place.document.ended
  | fuel + 1, state, (part, mark) :: rest =>
    if part = .mapEnd then .ok (state, rest)
    else do
      let (state, rest) ← step state place part ((part, mark) :: rest)
      members step place fuel state rest

def isEmptyMap : Part → Bool
  | .void => true
  | .scalar _ text style => text = "" && style = .plain
  | _ => false

/-- Each member takes parts, so their number is fuel enough. -/
def map {σ α : Type} (wanted : String) (start : σ)
    (step : Mark → σ → Place → (key : Part) → Parts → Except Fault (σ × Parts))
    (finish : σ → Except Cause α) : Reader α := fun place rest => do
  let node ← node place rest
  let close (state : σ) (rest : Parts) : Except Fault (α × Parts) :=
    match finish state with
    | .ok value => .ok (value, node.leave rest)
    | .error cause => place.fault cause node.mark
  match node.part with
  | .mapStart _ =>
    let (state, rest) ← members (step node.mark) place (node.inner.length + 1) start node.inner
    close state rest
  | part => if isEmptyMap part then close start node.inner else node.mismatch wanted place

inductive Slot (σ : Type) where
  | unknown
  | repeated
  | known (read : Reader σ)

/-- Unknown members are skipped. -/
def record {σ α : Type} (wanted : String) (start : σ) (field : σ → String → Slot σ)
    (finish : σ → Except Cause α) : Reader α :=
  map wanted start
    (fun mark state place key rest => do
      let (name, rest) ← textWanted "field identifier" place rest
      match field state name with
      | .unknown => return (state, ← ignore (place.under key) rest)
      | .repeated => place.fault (.duplicate name) mark
      | .known read => read (place.under key) rest)
    finish

def textMap : Reader (List (String × String)) :=
  map "a map" []
    (fun _ pairs place key rest => do
      let (name, rest) ← text place rest
      let (value, rest) ← text (place.under key) rest
      return ((name, value) :: pairs, rest))
    fun pairs => .ok pairs.reverse

def isLocalTag (tag : Option Tag) : Bool := (tag.bind List.head?) = some 33

def choice {α : Type} (wanted : String) (kinds : List (String × Reader α)) : Reader α :=
  fun place rest => do
    let node ← node place rest
    let named (name : String) (mark : Mark) : Except Fault (Reader α) :=
      match kinds.find? (·.1 = name) with
      | some (_, read) => .ok read
      | none => place.fault (.unknownVariant name (kinds.map (·.1))) mark
    match node.part with
    | .scalar tag text style =>
      if isLocalTag tag then place.fault (.mismatch .tagged wanted) node.mark
      else match Found.ofScalar tag text style with
        | .error cause => place.fault cause node.mark
        | .ok (.text name) =>
          let _ ← named name node.mark
          place.fault (.mismatch .unitVariant "newtype variant") node.mark
        | .ok found => place.fault (.mismatch found wanted) node.mark
    | .listStart tag =>
      place.fault (.mismatch (if isLocalTag tag then .tagged else .sequence) wanted) node.mark
    | .mapStart tag =>
      if isLocalTag tag then place.fault (.mismatch .tagged wanted) node.mark
      else match node.inner with
        | [] => .error place.document.ended
        | (.mapEnd, _) :: _ => place.fault .severalKeys node.mark
        | (key, _) :: _ =>
          let keyNode ← Yaml.node place node.inner
          let (name, rest) ← textWanted "variant identifier" place node.inner
          let read ← named name keyNode.mark
          let (value, rest) ← read (place.under key) rest
          match rest with
          | [] => .error place.document.ended
          | (.mapEnd, _) :: rest => return (value, node.leave rest)
          | _ =>
            let _ ← ignore place rest
            place.fault .severalKeys node.mark
    | _ => .error place.document.ended

def Reader.whole {α : Type} (reader : Reader α) (text : String) : Except Fault α := do
  let document := Document.ofText text.toList
  let (value, _) ← reader { document } document.parts
  match document.fault with
  | some fault => throw fault
  | none =>
    if document.followed then throw (.data .severalDocuments [] {})
    else return value

end SecretStore.Yaml
