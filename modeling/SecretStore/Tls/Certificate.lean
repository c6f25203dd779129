import SecretStore.Tls.Der
import SecretStore.Tls.Pem

namespace SecretStore.Tls

open Der

structure PublicKey where
  algorithm : Bytes
  bits : Bytes
  deriving DecidableEq, Repr

structure Certificate where
  version : Nat
  publicKey : PublicKey
  deriving DecidableEq, Repr

namespace Certificate

def isAlgorithm (element : Element) : Bool :=
  match element.inner? sequence with
  | some (kind :: _) => kind.tag = identifier
  | _ => false

def isAttribute (element : Element) : Bool :=
  match element.inner? sequence with
  | some [kind, _] => kind.tag = identifier
  | _ => false

def isName (element : Element) : Bool :=
  match element.inner? sequence with
  | some parts => parts.all fun part =>
    match part.inner? set with
    | some attributes => attributes ≠ [] && attributes.all isAttribute
    | none => false
  | none => false

def isTime (element : Element) : Bool := element.tag = utcTime || element.tag = generalTime

def isValidity (element : Element) : Bool :=
  match element.inner? sequence with
  | some [start, stop] => isTime start && isTime stop
  | _ => false

def isExtension (element : Element) : Bool :=
  match element.inner? sequence with
  | some [kind, value] => kind.tag = identifier && value.tag = octetString
  | some [kind, critical, value] =>
    kind.tag = identifier && critical.tag = 0x01 && value.tag = octetString
  | _ => false

def areExtensions (element : Element) : Bool :=
  match element.inner? (context 3) with
  | some [list] =>
    match list.inner? sequence with
    | some extensions => extensions.all isExtension
    | none => false
  | _ => false

def publicKey? (element : Element) : Option PublicKey :=
  match element.inner? sequence with
  | some [algorithm, key] =>
    if isAlgorithm algorithm then key.bits?.map fun bits => ⟨algorithm.content, bits⟩ else none
  | _ => none

def takeVersion (parts : List Element) : Option (Nat × List Element) :=
  match takeTag (context 0) parts with
  | (none, rest) => some (0, rest)
  | (some outer, rest) =>
    match outer.inner? (context 0) with
    | some [number] => if number.isInteger then some (numberOf number.content, rest) else none
    | _ => none

def isTail (parts : List Element) : Bool :=
  let (_, parts) := takeTag (contextPlain 1) parts
  let (_, parts) := takeTag (contextPlain 2) parts
  match parts with
  | [] => true
  | [extensions] => areExtensions extensions
  | _ => false

def ofParts? (parts : List Element) : Option Certificate :=
  match takeVersion parts with
  | some (version, serial :: algorithm :: issuer :: validity :: subject :: key :: tail) =>
    if serial.isInteger && isAlgorithm algorithm && isName issuer && isValidity validity &&
        isName subject && isTail tail then
      (publicKey? key).map fun publicKey => ⟨version, publicKey⟩
    else none
  | _ => none

def ofDer? (octets : Bytes) : Option Certificate :=
  match only? sequence octets with
  | some [signed, algorithm, signature] =>
    if isAlgorithm algorithm && signature.bits?.isSome then
      (signed.inner? sequence).bind ofParts?
    else none
  | _ => none

def label : Bytes := Utf8.bytes "CERTIFICATE"

def isLabel (found : Bytes) : Bool := found = label || found = Utf8.bytes "X509 CERTIFICATE"

def firstOf : List Pem.Piece → Option Certificate
  | [] => none
  | .unclosed :: _ => none
  | .badStart :: rest => firstOf rest
  | .whole part :: rest =>
    match Pem.octets? part with
    | none => none
    | some octets => if isLabel part.label then ofDer? octets else firstOf rest

def ofPem? (octets : Bytes) : Option Certificate := firstOf (Pem.pieces Pem.isLineFeed octets)

end Certificate

end SecretStore.Tls
