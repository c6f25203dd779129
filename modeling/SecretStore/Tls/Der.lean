import SecretStore.Text.Utf8

namespace SecretStore.Tls.Der

structure Element where
  tag : UInt8
  content : Bytes
  deriving DecidableEq, Repr

def integer : UInt8 := 0x02
def bitString : UInt8 := 0x03
def octetString : UInt8 := 0x04
def identifier : UInt8 := 0x06
def utcTime : UInt8 := 0x17
def generalTime : UInt8 := 0x18
def sequence : UInt8 := 0x30
def set : UInt8 := 0x31

def context (number : Nat) : UInt8 := UInt8.ofNat (0xA0 + number)

def contextPlain (number : Nat) : UInt8 := UInt8.ofNat (0x80 + number)

def numberOf (octets : Bytes) : Nat := octets.foldl (fun value a => value * 256 + a.toNat) 0

def length? : Bytes → Option (Nat × Bytes)
  | [] => none
  | a :: rest =>
    if a < 0x80 then some (a.toNat, rest)
    else
      let count := a.toNat - 0x80
      let value := numberOf (rest.take count)
      let isShortest := 0x80 ≤ value && Nat.pow 256 (count - 1) ≤ value
      if count = 0 ∨ 4 < count ∨ rest.length < count ∨ !isShortest then none
      else some (value, rest.drop count)

def first? : Bytes → Option (Element × Bytes)
  | [] => none
  | tag :: rest =>
    match length? rest with
    | none => none
    | some (length, rest) =>
      if rest.length < length then none else some (⟨tag, rest.take length⟩, rest.drop length)

/-- Each element takes an octet at least, so the length of the text is fuel enough. -/
def elementsWithin : Nat → Bytes → Option (List Element)
  | _, [] => some []
  | 0, _ => none
  | fuel + 1, octets =>
    match first? octets with
    | none => none
    | some (element, rest) => (elementsWithin fuel rest).map (element :: ·)

def elements? (octets : Bytes) : Option (List Element) := elementsWithin octets.length octets

def Element.inner? (element : Element) (tag : UInt8) : Option (List Element) :=
  if element.tag = tag then elements? element.content else none

def only? (tag : UInt8) (octets : Bytes) : Option (List Element) :=
  match elements? octets with
  | some [element] => element.inner? tag
  | _ => none

def Element.bits? (element : Element) : Option Bytes :=
  match element.content with
  | 0 :: octets => if element.tag = bitString then some octets else none
  | _ => none

def Element.isInteger (element : Element) : Bool := element.tag = integer && element.content ≠ []

def takeTag (tag : UInt8) : List Element → Option Element × List Element
  | element :: rest => if element.tag = tag then (some element, rest) else (none, element :: rest)
  | [] => (none, [])

end SecretStore.Tls.Der
