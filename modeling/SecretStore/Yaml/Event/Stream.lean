import SecretStore.Yaml.Event
import SecretStore.Yaml.Token.Stream

namespace SecretStore.Yaml

inductive Goal where
  | documents (first : Bool)
  | content
  | documentEnd
  /-- A node. Block collections are allowed in a block, and beside a key a list at the column of the key. -/
  | node (inBlock besideKey : Bool)
  | blockItems (start : Mark)
  | besideItems
  | blockKeys (start : Mark)
  | blockValue (start : Mark)
  | flowItems (start : Mark) (first : Bool)
  | pairKey
  | pairValue
  | pairEnd
  | flowKeys (start : Mark) (first : Bool)
  | flowValue (start : Mark)
  | lone (start : Mark)
  deriving DecidableEq, Repr

structure Reading where
  tokens : List Token
  handles : List (List Char × Tag) := []
  goals : List Goal
  starved : GrammarFault

abbrev Move := Except GrammarFault (Option (Event × Mark) × Reading)

def defaultHandles : List (List Char × Tag) :=
  [(['!'], Utf8.bytes "!"), (['!', '!'], Utf8.bytes "tag:yaml.org,2002:")]

namespace Reading

def emit (event : Event) (mark : Mark) (goals : List Goal) (left : Reading) : Move :=
  .ok (some (event, mark), { left with goals := goals ++ left.goals })

def expand (goals : List Goal) (left : Reading) : Move :=
  .ok (none, { left with goals := goals ++ left.goals })

def emptyScalar : Event := .scalar none none "" .plain

def fault {α : Type} (problem : Problem) (mark : Mark) (during : Option (Activity × Mark)) :
    Except GrammarFault α :=
  .error ⟨problem, mark, 0, during⟩

def skip (left : Reading) : Reading := { left with tokens := left.tokens.tail }

def peek (left : Reading) : Except GrammarFault Token :=
  match left.tokens with
  | [] => .error left.starved
  | token :: _ => .ok token

def nodeOrEmpty (goal : Goal) (follows : TokenKind → Bool) (empty : Mark) (next : Goal)
    (left : Reading) : Move := do
  let token ← left.peek
  if follows token.kind then left.emit emptyScalar empty [next] else left.expand [goal, next]

def isDirective : TokenKind → Bool
  | .version .. | .tagHandle .. => true
  | _ => false

def directives (handles : List (List Char × Tag)) (versioned : Bool) :
    List Token → Except GrammarFault (List (List Char × Tag) × List Token)
  | [] => .ok (handles, [])
  | token :: rest =>
    match token.kind with
    | .version major minor =>
      if versioned then fault .versionRepeated token.start none
      else if major ≠ 1 ∨ (minor ≠ 1 ∧ minor ≠ 2) then fault .versionUnsupported token.start none
      else directives handles true rest
    | .tagHandle handle meaning =>
      if handles.any (·.1 = handle) then fault .tagRepeated token.start none
      else directives (handles ++ [(handle, meaning)]) versioned rest
    | _ => .ok (handles, token :: rest)

def withDirectives (left : Reading) : Except GrammarFault Reading := do
  let (handles, tokens) ← directives [] false left.tokens
  return { left with tokens, handles := handles ++ defaultHandles }

def documents (first : Bool) (left : Reading) : Move := do
  let left := if first then left
    else { left with tokens := left.tokens.dropWhile (·.kind = .documentEnd) }
  let token ← left.peek
  if token.kind = .streamEnd then .ok (none, left)
  else if first ∧ token.kind ≠ .documentStart ∧ !isDirective token.kind then
    let left := { left with handles := defaultHandles }
    left.emit .documentStart token.start [.node true false, .documentEnd, .documents false]
  else
    let left ← left.withDirectives
    let mark ← left.peek
    if mark.kind = .documentStart then
      left.skip.emit .documentStart token.start [.content, .documentEnd, .documents false]
    else fault .documentStart mark.start none

def endsContent (kind : TokenKind) : Bool :=
  isDirective kind || kind = .documentStart || kind = .documentEnd || kind = .streamEnd

def content (left : Reading) : Move := do
  let token ← left.peek
  if endsContent token.kind then left.emit emptyScalar token.start [] else left.expand [.node true false]

def documentEnd (left : Reading) : Move := do
  let token ← left.peek
  let left := if token.kind = .documentEnd then left.skip else left
  left.emit .documentEnd token.start []

structure Properties where
  anchor : Option String := none
  tag : Option (List Char × Tag × Mark) := none

def Properties.isEmpty (properties : Properties) : Bool :=
  properties.anchor.isNone && properties.tag.isNone

def properties : List Token → Properties × List Token
  | ⟨.anchor name, _, _⟩ :: ⟨.tag handle rest, start, _⟩ :: tokens =>
    (⟨some name, some (handle, rest, start)⟩, tokens)
  | ⟨.tag handle rest, start, _⟩ :: ⟨.anchor name, _, _⟩ :: tokens =>
    (⟨some name, some (handle, rest, start)⟩, tokens)
  | ⟨.anchor name, _, _⟩ :: tokens => (⟨some name, none⟩, tokens)
  | ⟨.tag handle rest, start, _⟩ :: tokens => (⟨none, some (handle, rest, start)⟩, tokens)
  | tokens => ({}, tokens)

def resolveTag (left : Reading) (start : Mark) :
    Option (List Char × Tag × Mark) → Except GrammarFault (Option Tag)
  | none => .ok none
  | some (handle, rest, mark) =>
    if handle = [] then .ok (some rest)
    else match left.handles.find? (·.1 = handle) with
      | some (_, meaning) => .ok (some (meaning ++ rest))
      | none => fault .tagUndefined mark (some (.node, start))

/-- The tag `!` of a scalar counts as none. -/
def scalarTag (tag : Option Tag) : Option Tag := if tag = some (Utf8.bytes "!") then none else tag

def node (inBlock besideKey : Bool) (left : Reading) : Move := do
  let first ← left.peek
  let start := first.start
  match first.kind with
  | .alias name => left.skip.emit (.alias name) start []
  | _ =>
    let (found, tokens) := properties left.tokens
    let left := { left with tokens }
    let token ← left.peek
    let anchor := found.anchor
    let tag ← left.resolveTag start found.tag
    match token.kind with
    | .scalar text style => left.skip.emit (.scalar anchor (scalarTag tag) text style) start []
    | .flowListStart =>
      left.skip.emit (.listStart anchor tag) start [.flowItems token.start true]
    | .flowMapStart =>
      left.skip.emit (.mapStart anchor tag) start [.flowKeys token.start true]
    | kind =>
      if besideKey ∧ kind = .item then left.emit (.listStart anchor tag) start [.besideItems]
      else if inBlock ∧ kind = .blockListStart then
        left.skip.emit (.listStart anchor tag) start [.blockItems token.start]
      else if inBlock ∧ kind = .blockMapStart then
        left.skip.emit (.mapStart anchor tag) start [.blockKeys token.start]
      else if found.isEmpty then
        fault .nodeContent token.start (some (if inBlock then .blockNode else .flowNode, start))
      else left.emit (.scalar anchor tag "" .plain) start []

def blockItems (start : Mark) (left : Reading) : Move := do
  let token ← left.peek
  match token.kind with
  | .item =>
    left.skip.nodeOrEmpty (.node true false) (fun k => k = .item || k = .blockEnd) token.stop
      (.blockItems start)
  | .blockEnd => left.skip.emit .listEnd token.start []
  | _ => fault .dashExpected token.start (some (.blockList, start))

def endsMember (kind : TokenKind) : Bool := kind = .key || kind = .value || kind = .blockEnd

def besideItems (left : Reading) : Move := do
  let token ← left.peek
  if token.kind = .item then
    left.skip.nodeOrEmpty (.node true false) (fun k => k = .item || endsMember k) token.stop
      .besideItems
  else left.emit .listEnd token.start []

def blockKeys (start : Mark) (left : Reading) : Move := do
  let token ← left.peek
  match token.kind with
  | .key => left.skip.nodeOrEmpty (.node true true) endsMember token.stop (.blockValue start)
  | .blockEnd => left.skip.emit .mapEnd token.start []
  | _ => fault .keyExpected token.start (some (.blockMap, start))

def blockValue (start : Mark) (left : Reading) : Move := do
  let token ← left.peek
  if token.kind = .value then
    left.skip.nodeOrEmpty (.node true true) endsMember token.stop (.blockKeys start)
  else left.emit emptyScalar token.start [.blockKeys start]

def separator (close : TokenKind) (first : Bool) (problem : Problem) (during : Activity)
    (start : Mark) (left : Reading) : Except GrammarFault Reading := do
  let token ← left.peek
  if first ∨ token.kind = close then return left
  else if token.kind = .comma then return left.skip
  else fault problem token.start (some (during, start))

def flowItems (start : Mark) (first : Bool) (left : Reading) : Move := do
  let left ← left.separator .flowListEnd first .listEndExpected .flowList start
  let token ← left.peek
  match token.kind with
  | .flowListEnd => left.skip.emit .listEnd token.start []
  | .key =>
    left.skip.emit (.mapStart none none) token.start
      [.pairKey, .pairValue, .pairEnd, .flowItems start false]
  | _ => left.expand [.node false false, .flowItems start false]

def endsItem (kind : TokenKind) : Bool := kind = .comma || kind = .flowListEnd

def pairKey (left : Reading) : Move := do
  let token ← left.peek
  if token.kind = .value ∨ endsItem token.kind then left.skip.emit emptyScalar token.stop []
  else left.expand [.node false false]

def pairValue (left : Reading) : Move := do
  let token ← left.peek
  if token.kind = .value then
    let next ← left.skip.peek
    if endsItem next.kind then left.skip.emit emptyScalar next.start []
    else left.skip.expand [.node false false]
  else left.emit emptyScalar token.start []

def pairEnd (left : Reading) : Move := do
  let token ← left.peek
  left.emit .mapEnd token.start []

def endsFlowMember (kind : TokenKind) : Bool := kind = .comma || kind = .flowMapEnd

def flowKeys (start : Mark) (first : Bool) (left : Reading) : Move := do
  let left ← left.separator .flowMapEnd first .objectEndExpected .flowMap start
  let token ← left.peek
  match token.kind with
  | .flowMapEnd => left.skip.emit .mapEnd token.start []
  | .key =>
    let next ← left.skip.peek
    left.skip.nodeOrEmpty (.node false false) (fun k => k = .value || endsFlowMember k) next.start
      (.flowValue start)
  | _ => left.expand [.node false false, .lone start]

def flowValue (start : Mark) (left : Reading) : Move := do
  let token ← left.peek
  if token.kind = .value then
    let next ← left.skip.peek
    left.skip.nodeOrEmpty (.node false false) endsFlowMember next.start (.flowKeys start false)
  else left.emit emptyScalar token.start [.flowKeys start false]

def lone (start : Mark) (left : Reading) : Move := do
  let token ← left.peek
  left.emit emptyScalar token.start [.flowKeys start false]

def attain (left : Reading) : Goal → Move
  | .documents first => left.documents first
  | .content => left.content
  | .documentEnd => left.documentEnd
  | .node inBlock besideKey => left.node inBlock besideKey
  | .blockItems start => left.blockItems start
  | .besideItems => left.besideItems
  | .blockKeys start => left.blockKeys start
  | .blockValue start => left.blockValue start
  | .flowItems start first => left.flowItems start first
  | .pairKey => left.pairKey
  | .pairValue => left.pairValue
  | .pairEnd => left.pairEnd
  | .flowKeys start first => left.flowKeys start first
  | .flowValue start => left.flowValue start
  | .lone start => left.lone start

/-- A token gives rise to fewer than eight goals, so eight times their number is fuel enough. -/
def run : Nat → List (Event × Mark) → Reading → EventStream
  | 0, events, _ => { events := events.reverse }
  | fuel + 1, events, left =>
    match left.goals with
    | [] => { events := events.reverse, stop := (left.tokens.head?.map Token.start).getD {} }
    | goal :: goals =>
      match attain { left with goals } goal with
      | .error fault => { events := events.reverse, fault := some fault }
      | .ok (event, left) => run fuel (event.toList ++ events) left

end Reading

def EventStream.ofTokens (stream : TokenStream) : EventStream :=
  Reading.run (8 * stream.tokens.length + 16) []
    { tokens := stream.tokens
      goals := [.documents true]
      starved := stream.fault.getD ⟨.endOfStream, {}, 0, none⟩ }

def EventStream.ofText (text : List Char) : EventStream := .ofTokens (.ofText text)

end SecretStore.Yaml
