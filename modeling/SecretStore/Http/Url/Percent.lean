import SecretStore.Text.Utf8

namespace SecretStore.Http.Url

def isControl (c : Char) : Bool := c.toNat < 0x20 || 0x7E < c.toNat

def hidesInFragment (c : Char) : Bool :=
  isControl c || c = ' ' || c = '"' || c = '<' || c = '>' || c = '`'

def hidesInQuery (c : Char) : Bool :=
  isControl c || c = ' ' || c = '"' || c = '#' || c = '<' || c = '>'

def hidesInSpecialQuery (c : Char) : Bool := hidesInQuery c || c = '\''

def hidesInPath (c : Char) : Bool :=
  hidesInFragment c || c = '#' || c = '?' || c = '\x7b' || c = '\x7d'

def hidesInUser (c : Char) : Bool :=
  hidesInPath c || c = '/' || c = ':' || c = ';' || c = '=' || c = '@' || c = '[' || c = '\\' ||
    c = ']' || c = '^' || c = '|'

def hexLetter (value : Nat) : Char :=
  if value < 10 then Char.ofNat ('0'.toNat + value) else Char.ofNat ('A'.toNat + (value - 10))

def percentOctet (octet : UInt8) : List Char :=
  ['%', hexLetter (octet.toNat / 16), hexLetter (octet.toNat % 16)]

def percentEncode (hides : Char → Bool) (text : List Char) : List Char :=
  text.flatMap fun c =>
    if hides c then (String.utf8EncodeChar c).flatMap percentOctet else [c]

def hexValue? (octet : UInt8) : Option Nat :=
  let n := octet.toNat
  if 48 ≤ n ∧ n ≤ 57 then some (n - 48)
  else if 65 ≤ n ∧ n ≤ 70 then some (n - 55)
  else if 97 ≤ n ∧ n ≤ 102 then some (n - 87)
  else none

/-- A percent sign without two digits stands for itself. -/
def percentDecode : Bytes → Bytes
  | a :: b :: c :: rest =>
    if a = 37 then
      match hexValue? b, hexValue? c with
      | some high, some low => UInt8.ofNat (high * 16 + low) :: percentDecode rest
      | _, _ => a :: percentDecode (b :: c :: rest)
    else a :: percentDecode (b :: c :: rest)
  | rest => rest

end SecretStore.Http.Url
