namespace SecretStore.Log

inductive Level where
  | debug
  | info
  | warn
  | error
  deriving DecidableEq, Repr

structure Line where
  level : Level
  text : String
  deriving DecidableEq, Repr

def Line.debug (text : String) : Line := ⟨.debug, text⟩
def Line.warn (text : String) : Line := ⟨.warn, text⟩

def Level.name : Level → String
  | .debug => "debug"
  | .info => "info"
  | .warn => "warn"
  | .error => "error"

def Line.shown (line : Line) : String :=
  line.level.name ++ " " ++ line.text

def Level.heading : Level → String
  | .debug => "DEBUG"
  | .info => "INFO"
  | .warn => "WARN"
  | .error => "ERROR"

structure Console where
  out : String := ""
  err : String := ""
  deriving DecidableEq, Repr

def defaultMarker : String := "[keystore]"

def Console.write (marker : String) (console : Console) (line : Line) : Console :=
  let text := marker ++ " " ++ line.level.heading ++ ": " ++ line.text ++ "\n"
  if line.level = .info then { console with out := console.out ++ text }
  else { console with err := console.err ++ text }

inductive Logger where
  | console (marker : String)
  | silent
  deriving DecidableEq, Repr

def Logger.write : Logger → List Line → Console
  | .console marker, lines => lines.foldl (Console.write marker) ⟨"", ""⟩
  | .silent, _ => ⟨"", ""⟩

end SecretStore.Log
