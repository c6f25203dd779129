import SecretStore.Yaml.Token.Block
import SecretStore.Yaml.Token.Directive
import SecretStore.Yaml.Token.Plain
import SecretStore.Yaml.Token.Quoted

/-!
# The tokens of a text

The colon of a value shows only after its key that there was one. The places of possible keys are kept: when the colon
is read, a key token, and the start of a block map if none is open, are inserted at that place. Tokens behind such a
place are held back until then, and are not read if the text breaks the grammar.
-/

namespace SecretStore.Yaml

structure Candidate where
  number : Nat
  mark : Mark
  required : Bool
  deriving Repr

structure TokenStream where
  tokens : List Token
  fault : Option GrammarFault

structure Scan where
  here : Cursor
  tokens : List Token := []
  indents : List Nat := []
  candidate : Option Candidate := none
  outer : List (Option Candidate) := []
  keyAllowed : Bool := true

namespace Scan

def inFlow (scan : Scan) : Bool := scan.outer ≠ []

def innerColumn (scan : Scan) : Nat :=
  match scan.indents with
  | [] => 0
  | column :: _ => column + 1

def push (kind : TokenKind) (start stop : Mark) (scan : Scan) : Scan :=
  { scan with tokens := ⟨kind, start, stop⟩ :: scan.tokens }

def insert (number : Nat) (added : List Token) (scan : Scan) : Scan :=
  let later := scan.tokens.length - number
  { scan with tokens := scan.tokens.take later ++ added ++ scan.tokens.drop later }

def fault {α : Type} (problem : Problem) (scan : Scan) : Except GrammarFault α :=
  .error ⟨problem, scan.here.mark, 0, none⟩

def keyLimit : Nat := 1024

def age (here : Mark) (candidate : Option Candidate) : Except GrammarFault (Option Candidate) :=
  match candidate with
  | none => .ok none
  | some found =>
    if found.mark.line < here.line ∨ found.mark.index + keyLimit < here.index then
      if found.required then
        .error ⟨.simpleKeyColon, here, 0, some (.simpleKey, found.mark)⟩
      else .ok none
    else .ok (some found)

def ageAll (scan : Scan) : Except GrammarFault Scan := do
  let outer ← scan.outer.reverse.mapM (age scan.here.mark)
  let candidate ← age scan.here.mark scan.candidate
  return { scan with outer := outer.reverse, candidate }

def dropCandidate (scan : Scan) : Except GrammarFault Scan :=
  match scan.candidate with
  | some found =>
    if found.required then
      .error ⟨.simpleKeyColon, scan.here.mark, 0, some (.simpleKey, found.mark)⟩
    else .ok { scan with candidate := none }
  | none => .ok scan

def saveCandidate (scan : Scan) : Except GrammarFault Scan :=
  if scan.keyAllowed then
    let required := !scan.inFlow && scan.indents.head? = some scan.here.mark.column
    let found : Candidate := ⟨scan.tokens.length, scan.here.mark, required⟩
    (scan.dropCandidate).map ({ · with candidate := some found })
  else .ok scan

def opensAt (column : Nat) (scan : Scan) : Bool :=
  !scan.inFlow && scan.indents.head?.all (· < column)

def openBlock (kind : TokenKind) (scan : Scan) : Scan :=
  let mark := scan.here.mark
  if scan.opensAt mark.column then
    { scan.push kind mark mark with indents := mark.column :: scan.indents }
  else scan

def closeFrom (stays : Nat → Bool) (mark : Mark) : List Nat → List Token → List Nat × List Token
  | [], tokens => ([], tokens)
  | column :: indents, tokens =>
    if stays column then (column :: indents, tokens)
    else closeFrom stays mark indents (⟨.blockEnd, mark, mark⟩ :: tokens)

def closeBlocks (stays : Nat → Bool) (scan : Scan) : Scan :=
  if scan.inFlow then scan
  else
    let (indents, tokens) := closeFrom stays scan.here.mark scan.indents scan.tokens
    { scan with indents, tokens }

def closeAll (scan : Scan) : Scan := scan.closeBlocks fun _ => false

def passBlanks (tabs : Bool) (here : Cursor) : Cursor :=
  let here := if here.mark.column = 0 && here.startsWith '\ufeff' then here.pass 1 else here
  let here := here.passRun fun c => c = ' ' || (tabs && c = '\t')
  if here.startsWith '#' then here.passRun fun c => !isBreak c else here

theorem passBlanks_length (tabs : Bool) (here : Cursor) :
    (passBlanks tabs here).rest.length ≤ here.rest.length := by
  unfold passBlanks
  dsimp only
  split <;> split <;>
    simp only [Cursor.passRun, Cursor.takeRun, Cursor.pass, List.length_drop] <;> omega

def passGap (inFlow keyAllowed : Bool) (here : Cursor) : Bool × Cursor :=
  match _h : (passBlanks (inFlow || !keyAllowed) here).takeBreak with
  | (some _, after) => passGap inFlow (keyAllowed || !inFlow) after
  | (none, after) => (keyAllowed, after)
termination_by here.rest.length
decreasing_by
  exact Nat.lt_of_lt_of_le (Cursor.takeBreak_length_some _h) (passBlanks_length _ _)

def toToken (scan : Scan) : Scan :=
  let (keyAllowed, here) := passGap scan.inFlow scan.keyAllowed scan.here
  { scan with keyAllowed, here }

def take (kind : TokenKind) (length : Nat) (scan : Scan) : Scan :=
  let after := scan.here.pass length
  { scan.push kind scan.here.mark after.mark with here := after }

def takeDocumentMark (kind : TokenKind) (scan : Scan) : Except GrammarFault Scan := do
  let scan ← scan.closeAll.dropCandidate
  return { scan.take kind 3 with keyAllowed := false }

def takeDirective (scan : Scan) : Except GrammarFault Scan := do
  let scan ← scan.closeAll.dropCandidate
  let (token, here) ← readDirective scan.here
  return { scan with tokens := token :: scan.tokens, here, keyAllowed := false }

def openFlow (kind : TokenKind) (scan : Scan) : Except GrammarFault Scan := do
  let scan ← scan.saveCandidate
  return { scan.take kind 1 with
    outer := scan.candidate :: scan.outer, candidate := none, keyAllowed := true }

def closeFlow (kind : TokenKind) (scan : Scan) : Except GrammarFault Scan := do
  let scan ← scan.dropCandidate
  let scan := { scan.take kind 1 with keyAllowed := false }
  match scan.outer with
  | [] => return scan
  | candidate :: outer => return { scan with candidate, outer }

def takeComma (scan : Scan) : Except GrammarFault Scan := do
  let scan ← scan.dropCandidate
  return { scan.take .comma 1 with keyAllowed := true }

def takeItem (scan : Scan) : Except GrammarFault Scan := do
  if !scan.inFlow ∧ !scan.keyAllowed then scan.fault .blockEntryContext
  else
    let scan ← (scan.openBlock .blockListStart).dropCandidate
    return { scan.take .item 1 with keyAllowed := true }

def takeKey (scan : Scan) : Except GrammarFault Scan := do
  if !scan.inFlow ∧ !scan.keyAllowed then scan.fault .keyContext
  else
    let scan ← (scan.openBlock .blockMapStart).dropCandidate
    return { scan.take .key 1 with keyAllowed := !scan.inFlow }

def keyFrom (found : Candidate) (scan : Scan) : Scan :=
  let key : Token := ⟨.key, found.mark, found.mark⟩
  if scan.opensAt found.mark.column then
    { scan.insert found.number [key, ⟨.blockMapStart, found.mark, found.mark⟩] with
      indents := found.mark.column :: scan.indents }
  else scan.insert found.number [key]

def takeValue (scan : Scan) : Except GrammarFault Scan :=
  match scan.candidate with
  | some found =>
    let scan := { scan.keyFrom found with candidate := none, keyAllowed := false }
    .ok (scan.take .value 1)
  | none =>
    if !scan.inFlow ∧ !scan.keyAllowed then scan.fault .valueContext
    else
      let scan := { scan.openBlock .blockMapStart with keyAllowed := !scan.inFlow }
      .ok (scan.take .value 1)

def takeNode (read : Cursor → Except GrammarFault (Token × Cursor)) (scan : Scan) :
    Except GrammarFault Scan := do
  let scan ← scan.saveCandidate
  let (token, here) ← read scan.here
  return { scan with tokens := token :: scan.tokens, here, keyAllowed := false }

def takeBlock (isLiteral : Bool) (scan : Scan) : Except GrammarFault Scan := do
  let scan ← scan.dropCandidate
  let (token, here) ← readBlock isLiteral scan.innerColumn scan.here
  return { scan with tokens := token :: scan.tokens, here, keyAllowed := true }

def takePlain (scan : Scan) : Except GrammarFault Scan := do
  let scan ← scan.saveCandidate
  let (token, broken, here) ← readPlain ⟨scan.inFlow, scan.innerColumn⟩ scan.here
  return { scan with tokens := token :: scan.tokens, here, keyAllowed := broken }

def endMark (mark : Mark) : Mark := if mark.column = 0 then mark else ⟨mark.index, mark.line + 1, 0⟩

def takeEnd (scan : Scan) : Except GrammarFault Scan := do
  let mark := endMark scan.here.mark
  let scan ← ({ scan with here := ⟨[], mark⟩ }).closeAll.dropCandidate
  return { scan.push .streamEnd mark mark with keyAllowed := false }

def startsPlain (inFlow : Bool) (c : Char) (rest : List Char) : Bool :=
  if c = '-' then !rest.head?.any isBlank
  else if c = '?' || c = ':' then !inFlow && !endsWord rest
  else !isGap c && !isIndicator c

def takeToken (scan : Scan) : Except GrammarFault Scan :=
  let here := scan.here
  let firstColumn := here.mark.column = 0
  match here.rest with
  | [] => scan.takeEnd
  | c :: rest =>
    let alone := endsWord rest
    if firstColumn && c = '%' then scan.takeDirective
    else if firstColumn && isDocumentMark '-' here.rest then scan.takeDocumentMark .documentStart
    else if firstColumn && isDocumentMark '.' here.rest then scan.takeDocumentMark .documentEnd
    else if c = '[' then scan.openFlow .flowListStart
    else if c = '\x7b' then scan.openFlow .flowMapStart
    else if c = ']' then scan.closeFlow .flowListEnd
    else if c = '\x7d' then scan.closeFlow .flowMapEnd
    else if c = ',' then scan.takeComma
    else if c = '-' && alone then scan.takeItem
    else if c = '?' && (scan.inFlow || alone) then scan.takeKey
    else if c = ':' && (scan.inFlow || alone) then scan.takeValue
    else if c = '*' then scan.takeNode readAlias
    else if c = '&' then scan.takeNode readAnchor
    else if c = '!' then scan.takeNode (readTag scan.inFlow)
    else if c = '|' && !scan.inFlow then scan.takeBlock true
    else if c = '>' && !scan.inFlow then scan.takeBlock false
    else if c = '\'' then scan.takeNode (readQuoted .single)
    else if c = '"' then scan.takeNode (readQuoted .double)
    else if startsPlain scan.inFlow c rest then scan.takePlain
    else .error ⟨.badTokenStart, here.mark, 0, some (.nextToken, here.mark)⟩

def advance (scan : Scan) : Except GrammarFault Scan := do
  let scan ← scan.toToken.ageAll
  (scan.closeBlocks (· ≤ scan.here.mark.column)).takeToken

def settledCount (scan : Scan) : Nat :=
  (scan.candidate :: scan.outer).foldl
    (fun least candidate => (candidate.map Candidate.number).elim least (min least))
    scan.tokens.length

def settled (scan : Scan) : List Token :=
  (scan.tokens.drop (scan.tokens.length - scan.settledCount)).reverse

def isOver (scan : Scan) : Bool := (scan.tokens.head?.map Token.kind) = some .streamEnd

/-- Tokens settled by `before` have been read even if a key is missing now. Each token takes a character, so the
length of the text is fuel enough. -/
def run : Nat → (before : Scan) → Scan → TokenStream
  | 0, _, scan => ⟨scan.tokens.reverse, none⟩
  | fuel + 1, before, scan =>
    match scan.ageAll with
    | .error fault => ⟨before.settled, some fault⟩
    | .ok scan =>
      match scan.advance with
      | .error fault => ⟨scan.settled, some fault⟩
      | .ok next => if next.isOver then ⟨next.tokens.reverse, none⟩ else run fuel scan next

end Scan

def strayOffset? : List Char → Option Nat
  | [] => none
  | c :: rest => if isAllowed c then (strayOffset? rest).map (c.utf8Size + ·) else some 0

def withoutEncodingMark : List Char → Nat × List Char
  | '\ufeff' :: rest => (3, rest)
  | rest => (0, rest)

def TokenStream.ofText (text : List Char) : TokenStream :=
  let (skipped, text) := withoutEncodingMark text
  match strayOffset? text with
  | some offset => ⟨[], some ⟨.controlCharacter, {}, skipped + offset, none⟩⟩
  | none =>
    let scan : Scan := { here := ⟨text, {}⟩ }
    scan.run (text.length + 1) scan

end SecretStore.Yaml
