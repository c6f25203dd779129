import SecretStore.Text.Utf8
import SecretStore.Yaml.Fault

namespace SecretStore.Yaml

inductive Style where
  | plain
  | single
  | double
  | literal
  | folded
  deriving DecidableEq, Repr

/-- The octets of a tag need not be UTF-8. -/
abbrev Tag := Bytes

inductive TokenKind where
  | streamEnd
  | version (major minor : Nat)
  | tagHandle (handle : List Char) (start : Tag)
  | documentStart
  | documentEnd
  | blockListStart
  | blockMapStart
  | blockEnd
  | flowListStart
  | flowListEnd
  | flowMapStart
  | flowMapEnd
  | item
  | comma
  | key
  | value
  | alias (name : String)
  | anchor (name : String)
  | tag (handle : List Char) (rest : Tag)
  | scalar (text : String) (style : Style)
  deriving DecidableEq, Repr

structure Token where
  kind : TokenKind
  start : Mark
  stop : Mark
  deriving DecidableEq, Repr

end SecretStore.Yaml
