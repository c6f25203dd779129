import SecretStore.KeyCursor
import SecretStore.Text.Utf8

namespace SecretStore

inductive Call where
  | status
  | create (key : String) (value : Bytes)
  | set (key : String) (value : Bytes)
  | get (key : String)
  | delete (key : String)
  | list
  | close
  | name
  deriving DecidableEq, Repr

inductive Answer where
  /-- The latency, unless it is measured by the caller. -/
  | healthy (nanoseconds : Option Nat)
  | done
  | value (octets : Bytes)
  | keys (keys : List String)
  | name (name : String)
  deriving DecidableEq, Repr

abbrev Outcome := Except Failure Answer

end SecretStore
