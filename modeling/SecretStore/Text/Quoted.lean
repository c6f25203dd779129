import SecretStore.Text.Unshown

namespace SecretStore.Quoted

def hexDigits (value : Nat) : List Char :=
  Nat.toDigits 16 value

def codePoint (c : Char) : List Char :=
  "\\u\x7b".toList ++ hexDigits c.toNat ++ ['\x7d']

def isPlain (c : Char) : Bool :=
  if c.toNat < 0x7F then ' ' ≤ c && c != '"' && c != '\\' else !Unshown.isUnshown c

def escaped (c : Char) : List Char :=
  match c with
  | '\x00' => ['\\', '0']
  | '\t' => ['\\', 't']
  | '\r' => ['\\', 'r']
  | '\n' => ['\\', 'n']
  | '\\' => ['\\', '\\']
  | '"' => ['\\', '"']
  | c => if isPlain c then [c] else codePoint c

def quoted (text : String) : String :=
  String.ofList ('"' :: text.toList.flatMap escaped ++ ['"'])

/-- A named value with named parts: `Name { part: value, … }`. -/
def record (name : String) (parts : List (String × String)) : String :=
  name ++ " \x7b " ++ ", ".intercalate (parts.map fun part => part.1 ++ ": " ++ part.2) ++ " \x7d"

def wrapped (name value : String) : String :=
  name ++ "(" ++ value ++ ")"

def list (items : List String) : String :=
  "[" ++ ", ".intercalate items ++ "]"

end SecretStore.Quoted
