import SecretStore.Yaml.Cursor

namespace SecretStore.Yaml

inductive Gap where
  | blanks (taken : List Char)
  /-- The first line break, unless it is escaped, and the others, last first. -/
  | lines (first : Option Char) (more : List Char)
  deriving DecidableEq, Repr

namespace Gap

def empty : Gap := .blanks []

def hidden : Gap := .lines none []

def text : Gap → List Char
  | .blanks taken => taken.reverse
  | .lines (some '\n') [] => [' ']
  | .lines (some '\n') more => more.reverse
  | .lines first more => first.toList ++ more.reverse

def isBroken : Gap → Bool
  | .blanks _ => false
  | .lines _ _ => true

def addBlank (c : Char) : Gap → Gap
  | .blanks taken => .blanks (c :: taken)
  | .lines first more => .lines first more

def addBreak (c : Char) : Gap → Gap
  | .blanks _ => .lines (some c) []
  | .lines first more => .lines first (c :: more)

def close (gap : Gap) (text : List Char) : List Char := gap.text.reverseAux text

end Gap

end SecretStore.Yaml
