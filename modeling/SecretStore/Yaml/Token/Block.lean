import SecretStore.Yaml.Cursor
import SecretStore.Yaml.Token

namespace SecretStore.Yaml

inductive Chomp where
  | strip
  | clip
  | keep
  deriving DecidableEq, Repr

structure BlockHeader where
  chomp : Chomp := .clip
  indent : Option Nat := none
  deriving DecidableEq, Repr

namespace BlockHeader

def chomp? : Char → Option Chomp
  | '-' => some .strip
  | '+' => some .keep
  | _ => none

def takeChomp (here : Cursor) : Option Chomp × Cursor :=
  match here.rest.head?.bind chomp? with
  | some chomp => (some chomp, here.pass 1)
  | none => (none, here)

def takeIndent (start : Mark) (here : Cursor) : Taken (Option Nat) :=
  match here.rest with
  | c :: _ =>
    if c = '0' then here.fault .indentZero .blockScalar start
    else if c.isDigit then .ok (some (c.toNat - '0'.toNat), here.pass 1)
    else .ok (none, here)
  | [] => .ok (none, here)

def read (start : Mark) (here : Cursor) : Taken BlockHeader :=
  match takeChomp here with
  | (some chomp, here) =>
    (takeIndent start here).map fun (indent, here) => (⟨chomp, indent⟩, here)
  | (none, here) =>
    (takeIndent start here).map fun (indent, here) =>
      let (chomp, here) := if indent.isSome then takeChomp here else (none, here)
      (⟨chomp.getD .clip, indent⟩, here)

end BlockHeader

def belowIndent (indent : Option Nat) (mark : Mark) : Bool := indent.all (mark.column < ·)

/-- Takes empty lines and the indentation of the next line. The result is the breaks, last first, and the furthest
column of blanks. -/
def takeEmptyLines (indent : Option Nat) (start : Mark) (breaks : List Char) (furthest : Nat)
    (here : Cursor) : Taken (List Char × Nat) :=
  let furthest := max furthest here.mark.column
  match _h : here.rest with
  | [] => .ok ((breaks, furthest), here)
  | c :: _ =>
    if belowIndent indent here.mark ∧ c = ' ' then
      takeEmptyLines indent start breaks furthest (here.pass 1)
    else if belowIndent indent here.mark ∧ c = '\t' then
      here.fault .indentTab .blockScalar start
    else match _hb : break? here.rest with
    | some (b, rest, count) =>
      takeEmptyLines indent start (b :: breaks) furthest ⟨rest, here.mark.nextLine count⟩
    | none => .ok ((breaks, furthest), here)
termination_by here.rest.length
decreasing_by
  all_goals first
    | exact Cursor.pass_length_lt (by assumption) _
    | exact break?_length _hb

structure BlockText where
  lines : List Char := []
  ended : Option Char := none
  empty : List Char := []
  blankStart : Bool := false

namespace BlockText

def joint (text : BlockText) (isLiteral nextBlank : Bool) : List Char :=
  if !isLiteral && text.ended = some '\n' && !text.blankStart && !nextBlank then
    if text.empty = [] then [' '] else text.empty.reverse
  else text.ended.toList ++ text.empty.reverse

def addLine (text : BlockText) (isLiteral : Bool) (line : List Char) (ended : Option Char) :
    BlockText :=
  let blankStart := line.head?.any isBlank
  ⟨line.reverseAux ((text.joint isLiteral blankStart).reverseAux text.lines), ended, [], blankStart⟩

def close (text : BlockText) : Chomp → List Char
  | .strip => text.lines.reverse
  | .clip => text.lines.reverse ++ text.ended.toList
  | .keep => text.lines.reverse ++ text.ended.toList ++ text.empty.reverse

end BlockText

theorem takeEmptyLines_length {indent : Option Nat} {start : Mark} {breaks : List Char}
    {furthest : Nat} {here next : Cursor} {taken : List Char × Nat}
    (h : takeEmptyLines indent start breaks furthest here = .ok (taken, next)) :
    next.rest.length ≤ here.rest.length := by
  fun_induction takeEmptyLines indent start breaks furthest here with
  | case1 =>
    simp only [Except.ok.injEq, Prod.mk.injEq] at h
    simp [← h.2]
  | case2 _ _ _ _ _ _ _ _ ih =>
    have := ih h
    simp only [Cursor.pass, List.length_drop] at this
    omega
  | case3 => cases h
  | case4 _ _ _ _ _ _ _ _ _ _ _ _ found ih =>
    have := ih h
    have := break?_length found
    simp only at *
    omega
  | case5 =>
    simp only [Except.ok.injEq, Prod.mk.injEq] at h
    simp [← h.2]

def blockFrom (isLiteral : Bool) (indent : Nat) (start : Mark) (text : BlockText) (here : Cursor) :
    Taken BlockText :=
  if _more : here.mark.column = indent ∧ here.rest ≠ [] then
    match _hl : here.takeLine with
    | (line, ended, after) =>
    match _he : takeEmptyLines (some indent) start [] 0 after with
    | .error fault => .error fault
    | .ok ((empty, _), next) =>
      blockFrom isLiteral indent start { text.addLine isLiteral line ended with empty } next
  else .ok (text, here)
termination_by here.rest.length
decreasing_by
  have := Cursor.takeLine_length _more.2
  have := takeEmptyLines_length _he
  simp_all only
  omega

/-- The column of the lines, if the header does not give it. -/
def firstColumn (outside furthest : Nat) : Nat := max (max furthest outside) 1

def readBlock (isLiteral : Bool) (outside : Nat) (here : Cursor) :
    Except GrammarFault (Token × Cursor) := do
  let start := here.mark
  let (header, here) ← BlockHeader.read start (here.pass 1)
  let here ← here.finishLine .scalarHeaderEnd .blockScalar start
  let indent := header.indent.map (outside - 1 + ·)
  let ((empty, furthest), here) ← takeEmptyLines indent start [] 0 here
  let column := indent.getD (firstColumn outside furthest)
  let (text, after) ← blockFrom isLiteral column start ⟨[], none, empty, false⟩ here
  let style := if isLiteral then Style.literal else .folded
  return (⟨.scalar (String.ofList (text.close header.chomp)) style, start, after.mark⟩, after)

end SecretStore.Yaml
