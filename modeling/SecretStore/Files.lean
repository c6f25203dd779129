import SecretStore.Text.Utf8

namespace SecretStore.Files

inductive Fault where
  | notFound
  | notDirectory
  | isDirectory
  | nameTooLong
  | badName
  | notText
  deriving DecidableEq, Repr

def Fault.message : Fault → String
  | .notFound => "No such file or directory (os error 2)"
  | .notDirectory => "Not a directory (os error 20)"
  | .isDirectory => "Is a directory (os error 21)"
  | .nameTooLong => "File name too long (os error 36)"
  | .badName => "file name contained an unexpected NUL byte"
  | .notText => "stream did not contain valid UTF-8"

abbrev FileSystem := String → Except Fault Bytes

def readText (files : FileSystem) (path : String) : Except Fault String := do
  match Utf8.text? (← files path) with
  | some text => return text
  | none => throw .notText

abbrev Names := List String

inductive Item where
  | file (octets : Bytes)
  | directory
  deriving DecidableEq, Repr

structure Tree where
  items : List (Names × Item)

def splitNames (path : String) : Names := (path.splitOn "/")

namespace Tree

def item? (tree : Tree) (names : Names) : Option Item :=
  if names = [] then some .directory
  else match tree.items.find? (·.1 = names) with
    | some (_, item) => some item
    | none => if tree.items.any fun entry => names.isPrefixOf entry.1 then some .directory else none

def nameLimit : Nat := 255
def pathLimit : Nat := 4095

def walk (tree : Tree) (base : Names) : Names → Except Fault Names
  | [] => .ok base
  | name :: rest =>
    match tree.item? base with
    | none => .error .notFound
    | some (.file _) => .error .notDirectory
    | some .directory =>
      if name = "" ∨ name = "." then tree.walk base rest
      else if name = ".." then tree.walk base.dropLast rest
      else if nameLimit < name.utf8ByteSize then .error .nameTooLong
      else tree.walk (base ++ [name]) rest

def read (tree : Tree) : FileSystem := fun path => do
  if path.contains '\x00' then throw .badName
  if path = "" then throw .notFound
  if pathLimit < path.utf8ByteSize then throw .nameTooLong
  let names ← tree.walk [] (splitNames path)
  match tree.item? names with
  | none => throw .notFound
  | some .directory => throw .isDirectory
  | some (.file octets) => return octets

end Tree

end SecretStore.Files
