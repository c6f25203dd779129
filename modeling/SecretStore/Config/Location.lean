import SecretStore.Config.Read

namespace SecretStore.Config

def isAbsolute (path : String) : Bool := path.toList.head? = some '/'

def joinPath (directory inner : String) : String :=
  if isAbsolute inner ∨ directory = "" then inner
  else if directory.toList.getLast? = some '/' then directory ++ inner
  else directory ++ "/" ++ inner

def userDirectory (named : Option String) (home : String) : String :=
  match named with
  | some path => if isAbsolute path then path else joinPath home ".config"
  | none => joinPath home ".config"

def userPath (named : Option String) (home : String) : String :=
  joinPath (joinPath (userDirectory named home) "keystore") "config.yaml"

def load (files : Files.FileSystem) (path : String) : Except Fault Config := do
  let text ← (Files.readText files path).mapError (.unreadableFile path)
  ofYaml text

end SecretStore.Config
