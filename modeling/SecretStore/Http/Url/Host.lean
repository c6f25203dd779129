import SecretStore.Http.Url.Percent
import SecretStore.Http.Url.Punycode

namespace SecretStore.Http.Url

inductive Host where
  | domain (name : List Char)
  | four (address : Nat)
  | six (pieces : List Nat)
  deriving DecidableEq, Repr

def splitAtSign (sign : Char) : List Char → List (List Char)
  | [] => [[]]
  | c :: rest =>
    if c = sign then [] :: splitAtSign sign rest
    else match splitAtSign sign rest with
      | [] => [[c]]
      | part :: parts => (c :: part) :: parts

def hexDigitValue? (c : Char) : Option Nat :=
  if c.toNat < 128 then hexValue? (UInt8.ofNat c.toNat) else none

def numberIn? (base : Nat) (digits : List Char) : Option Nat :=
  digits.foldl (fun value c =>
    match value, hexDigitValue? c with
    | some value, some digit => if digit < base then some (value * base + digit) else none
    | _, _ => none) (some 0)

def addressNumber? : List Char → Option Nat
  | [] => none
  | '0' :: 'x' :: digits | '0' :: 'X' :: digits => numberIn? 16 digits
  | '0' :: c :: digits => numberIn? 8 (c :: digits)
  | digits => numberIn? 10 digits

def labels (name : List Char) : List (List Char) :=
  let parts := splitAtSign '.' name
  if parts.getLast? = some [] ∧ 1 < parts.length then parts.dropLast else parts

def endsInNumber (name : List Char) : Bool :=
  match (labels name).getLast? with
  | some last => (last ≠ [] && last.all Char.isDigit) || (addressNumber? last).isSome
  | none => false

def four? (name : List Char) : Option Nat :=
  match (labels name).mapM addressNumber? with
  | none => none
  | some numbers =>
    let count := numbers.length
    let before := numbers.dropLast
    let last := numbers.getLastD 0
    if count = 0 ∨ 4 < count ∨ Nat.pow 256 (5 - count) ≤ last ∨ before.any (255 < ·) then none
    else
      some (last + before.zipIdx.foldl (fun sum part => sum + part.1 * Nat.pow 256 (3 - part.2)) 0)

def fourText (address : Nat) : List Char :=
  ['.'].intercalate ([16777216, 65536, 256, 1].map fun unit =>
    (toString (address / unit % 256)).toList)

def takePiece (text : List Char) : Nat × Nat × List Char :=
  let digits := (text.take 4).takeWhile fun c => (hexDigitValue? c).isSome
  ((numberIn? 16 digits).getD 0, digits.length, text.drop digits.length)

def fourPieces? (text : List Char) : Option (List Nat) :=
  let octet? (part : List Char) : Option Nat :=
    match part with
    | [] => none
    | '0' :: _ :: _ => none
    | digits =>
      if digits.all Char.isDigit ∧ digits.length ≤ 3 then
        (numberIn? 10 digits).filter (· ≤ 255)
      else none
  match (splitAtSign '.' text).mapM octet? with
  | some [a, b, c, d] => some [a * 256 + b, c * 256 + d]
  | _ => none

structure SixDraft where
  pieces : List Nat := []
  gap : Option Nat := none

def sixFrom : Nat → SixDraft → List Char → Option SixDraft
  | _, draft, [] => some draft
  | 0, _, _ => none
  | fuel + 1, draft, text =>
    if 8 ≤ draft.pieces.length then none
    else if text.head? = some ':' then
      if draft.gap.isSome then none
      else sixFrom fuel { draft with gap := some draft.pieces.length } text.tail
    else
      let (value, length, rest) := takePiece text
      match rest with
      | '.' :: _ =>
        if length = 0 ∨ 6 < draft.pieces.length then none
        else (fourPieces? text).map fun two => { draft with pieces := draft.pieces ++ two }
      | ':' :: rest =>
        if rest = [] then none
        else sixFrom fuel { draft with pieces := draft.pieces ++ [value] } rest
      | [] => some { draft with pieces := draft.pieces ++ [value] }
      | _ => none

def SixDraft.close? (draft : SixDraft) : Option (List Nat) :=
  let count := draft.pieces.length
  match draft.gap with
  | some before =>
    some (draft.pieces.take before ++ List.replicate (8 - count) 0 ++ draft.pieces.drop before)
  | none => if count = 8 then some draft.pieces else none

def six? (text : List Char) : Option (List Nat) :=
  match text with
  | ':' :: ':' :: rest => (sixFrom (text.length + 1) { gap := some 0 } rest).bind (·.close?)
  | ':' :: _ => none
  | text => (sixFrom (text.length + 1) {} text).bind (·.close?)

def zeroRun (pieces : List Nat) : Nat := (pieces.takeWhile (· = 0)).length

/-- Start and length of the first of the longest runs of zeros. A single zero does not count. -/
def longestZeros (pieces : List Nat) : Nat × Nat :=
  (List.range pieces.length).foldl
    (fun best start =>
      let length := zeroRun (pieces.drop start)
      if best.2 < length ∧ 1 < length then (start, length) else best)
    (0, 0)

def sixText (pieces : List Nat) : List Char :=
  let joined (part : List Nat) : List Char := [':'].intercalate (part.map (Nat.toDigits 16))
  let (start, length) := longestZeros pieces
  if length = 0 then joined pieces
  else joined (pieces.take start) ++ [':', ':'] ++ joined (pieces.drop (start + length))

def isForbiddenInDomain (c : Char) : Bool :=
  c.toNat ≤ 0x20 || 0x7F ≤ c.toNat || c = '%' || c = '#' || c = '/' || c = ':' || c = '<' || c = '>' ||
    c = '?' || c = '@' || c = '[' || c = '\\' || c = ']' || c = '^' || c = '|'

def isForbiddenInOpaque (c : Char) : Bool :=
  c = '\x00' || c = '\t' || c = '\n' || c = '\r' || c = ' ' || c = '#' || c = '/' || c = ':' ||
    c = '<' || c = '>' || c = '?' || c = '@' || c = '[' || c = '\\' || c = ']' || c = '^' || c = '|'

def bracketed? (text : List Char) : Option Host :=
  match text with
  | '[' :: rest =>
    if rest.getLast? = some ']' then (six? rest.dropLast).map .six else none
  | _ => none

def asciiName? (text : List Char) : Option (List Char) :=
  let name := text.flatMap Punycode.folded
  if name.any Punycode.isBarred then none
  else some (['.'].intercalate ((splitAtSign '.' name).map Punycode.labelText))

def Host.ofText? (text : List Char) : Option Host :=
  if text.head? = some '[' then bracketed? text
  else
    match (Utf8.decode? (percentDecode (Utf8.encode text))).bind asciiName? with
    | none => none
    | some name =>
      if name = [] ∨ name.any isForbiddenInDomain then none
      else if endsInNumber name then (four? name).map .four
      else some (.domain name)

def Host.ofOpaque? (text : List Char) : Option Host :=
  if text.head? = some '[' then bracketed? text
  else if text.any isForbiddenInOpaque then none
  else some (.domain (percentEncode isControl text))

def Host.text : Host → List Char
  | .domain name => name
  | .four address => fourText address
  | .six pieces => '[' :: sixText pieces ++ [']']

end SecretStore.Http.Url
