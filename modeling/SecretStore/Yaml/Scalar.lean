import SecretStore.Yaml.Alphabet
import SecretStore.Yaml.Fault
import SecretStore.Yaml.Token

namespace SecretStore.Yaml

def isNull (text : String) : Bool :=
  text = "null" || text = "Null" || text = "NULL" || text = "~"

def boolean? (text : String) : Option Bool :=
  if text = "true" ∨ text = "True" ∨ text = "TRUE" then some true
  else if text = "false" ∨ text = "False" ∨ text = "FALSE" then some false
  else none

def digitsValue? (base : Nat) : List Char → Option Nat
  | [] => none
  | c :: rest => go 0 (c :: rest)
where
  go (value : Nat) : List Char → Option Nat
    | [] => some value
    | c :: rest =>
      match hexDigit? c with
      | some digit => if digit < base then go (value * base + digit) rest else none
      | none => none

def isPadded (text : List Char) : Bool :=
  let digits := match text with
    | '+' :: rest | '-' :: rest => rest
    | text => text
  match digits with
  | '0' :: c :: rest => (c :: rest).all Char.isDigit
  | _ => false

def natural? : List Char → Option Nat
  | '0' :: 'x' :: digits => digitsValue? 16 digits
  | '0' :: 'o' :: digits => digitsValue? 8 digits
  | '0' :: 'b' :: digits => digitsValue? 2 digits
  | digits => digitsValue? 10 digits

def integer? (text : List Char) : Option Int :=
  if isPadded text then none
  else match text with
    | '+' :: digits => (natural? digits).map Int.ofNat
    | '-' :: digits => (natural? digits).map fun value => -(value : Int)
    | digits => (natural? digits).map Int.ofNat

def Found.ofInteger? (value : Int) : Option Found :=
  if -(Nat.pow 2 63 : Int) ≤ value ∧ value < Nat.pow 2 64 then some (.integer value)
  else if -(Nat.pow 2 127 : Int) ≤ value ∧ value < Nat.pow 2 128 then some (.wide value)
  else none

def foundInteger? (text : List Char) : Option Found := (integer? text).bind Found.ofInteger?

structure Scientific where
  digits : Nat
  exponent : Int

def decimalValue (digits : List Char) : Nat :=
  digits.foldl (fun value c => value * 10 + (c.toNat - '0'.toNat)) 0

def exponent? : List Char → Option Int
  | '+' :: digits => (digitsValue? 10 digits).map Int.ofNat
  | '-' :: digits => (digitsValue? 10 digits).map fun value => -(value : Int)
  | digits => (digitsValue? 10 digits).map Int.ofNat

def scientific? (text : List Char) : Option Scientific :=
  let whole := text.takeWhile Char.isDigit
  let rest := text.dropWhile Char.isDigit
  let (fraction, rest) := match rest with
    | '.' :: rest => (rest.takeWhile Char.isDigit, rest.dropWhile Char.isDigit)
    | rest => ([], rest)
  if whole = [] ∧ fraction = [] then none
  else
    let exponent := match rest with
      | [] => some 0
      | c :: rest => if c = 'e' ∨ c = 'E' then exponent? rest else none
    exponent.map fun exponent => ⟨decimalValue (whole ++ fraction), exponent - fraction.length⟩

/-- The nearest double, unless it is infinite. Exponents far out of range are not computed. -/
def Scientific.real? (number : Scientific) : Option Float :=
  let size := (Nat.toDigits 10 number.digits).length + number.exponent
  let value :=
    if number.digits = 0 ∨ size < -400 then 0.0
    else Float.ofScientific number.digits (number.exponent < 0) number.exponent.natAbs
  if number.digits ≠ 0 ∧ 400 < size ∨ value.isInf then none else some value

def real? (text : List Char) : Option Float :=
  let infinite (text : List Char) : Bool :=
    text = ".inf".toList || text = ".Inf".toList || text = ".INF".toList
  match text with
  | '+' :: digits => if infinite digits then some (1.0 / 0.0) else (scientific? digits).bind (·.real?)
  | '-' :: digits =>
    if infinite digits then some (-1.0 / 0.0)
    else ((scientific? digits).bind (·.real?)).map fun value => -value
  | digits =>
    if infinite digits then some (1.0 / 0.0)
    else if digits = ".nan".toList ∨ digits = ".NaN".toList ∨ digits = ".NAN".toList then
      some (0.0 / 0.0)
    else (scientific? digits).bind (·.real?)

def Found.ofPlain (text : String) : Found :=
  let chars := text.toList
  if text = "" ∨ isNull text then .unit
  else match boolean? text with
    | some value => .boolean value
    | none =>
      match foundInteger? chars with
      | some found => found
      | none =>
        match if isPadded chars then none else real? chars with
        | some value => .real value
        | none => .text text

def standardTag (name : String) : Tag := Utf8.bytes ("tag:yaml.org,2002:" ++ name)

def Found.ofScalar (tag : Option Tag) (text : String) (style : Style) : Except Cause Found :=
  let orElse (wanted : String) (found : Option Found) : Except Cause Found :=
    match found with
    | some found => .ok found
    | none => .error (.mistagged text wanted)
  let spelled := if style = .plain then Found.ofPlain text else .text text
  match tag with
  | none => .ok spelled
  | some tag =>
    if tag = standardTag "bool" then orElse "a boolean" ((boolean? text).map .boolean)
    else if tag = standardTag "int" then orElse "an integer" (foundInteger? text.toList)
    else if tag = standardTag "float" then orElse "a float" ((real? text.toList).map .real)
    else if tag = standardTag "null" then
      orElse "null" (if isNull text then some .unit else none)
    else if tag.head? = some 33 then .ok spelled
    else .ok (.text text)

end SecretStore.Yaml
