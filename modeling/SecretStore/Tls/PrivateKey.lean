import SecretStore.Tls.Certificate

namespace SecretStore.Tls

open Der

inductive KeyForm where
  | general
  | curve
  | primes
  deriving DecidableEq, Repr

structure EncodedKey where
  form : KeyForm
  octets : Bytes
  deriving DecidableEq, Repr

inductive PublicHalf where
  | known (key : PublicKey)
  | untold
  deriving DecidableEq, Repr

namespace PrivateKey

def curveKind : Bytes := [0x06, 0x07, 0x2A, 0x86, 0x48, 0xCE, 0x3D, 0x02, 0x01]
def primesKind : Bytes := [0x06, 0x09, 0x2A, 0x86, 0x48, 0x86, 0xF7, 0x0D, 0x01, 0x01, 0x01]
def edwardsKind : Bytes := [0x06, 0x03, 0x2B, 0x65, 0x70]

structure Curve where
  kind : Bytes
  size : Nat
  deriving DecidableEq, Repr

def curves : List Curve :=
  [⟨[0x06, 0x08, 0x2A, 0x86, 0x48, 0xCE, 0x3D, 0x03, 0x01, 0x07], 32⟩,
    ⟨[0x06, 0x05, 0x2B, 0x81, 0x04, 0x00, 0x22], 48⟩]

def primesAlgorithm : Bytes := primesKind ++ [0x05, 0x00]

def ofCurve? (curve : Curve) (octets : Bytes) : Option PublicHalf :=
  match only? sequence octets with
  | some (version :: number :: rest) =>
    let (named, rest) := takeTag (context 0) rest
    let (point, rest) := takeTag (context 1) rest
    let bits := point.bind fun point =>
      match point.inner? (context 1) with
      | some [key] => key.bits?
      | _ => none
    let fits := version = ⟨integer, [1]⟩ && number.tag = octetString &&
      number.content.length = curve.size && named.all (·.content = curve.kind) && rest = []
    match fits, bits with
    | true, some bits =>
      if bits.length = 2 * curve.size + 1 then some (.known ⟨curveKind ++ curve.kind, bits⟩) else none
    | _, _ => none
  | _ => none

def leastBits : Nat := 2047
def greatestBits : Nat := 4096

def header (tag : UInt8) (length : Nat) : Bytes :=
  if length < 0x80 then [tag, UInt8.ofNat length]
  else if length < 0x100 then [tag, 0x81, UInt8.ofNat length]
  else [tag, 0x82, UInt8.ofNat (length / 256), UInt8.ofNat (length % 256)]

def encode (element : Element) : Bytes := header element.tag element.content.length ++ element.content

def ofPrimes? (octets : Bytes) : Option PublicHalf :=
  match only? sequence octets with
  | some (version :: product :: exponent :: rest) =>
    let numbers := product :: exponent :: rest
    let value := numberOf product.content
    match rest with
    | [_, p, q, _, _, _] =>
      if version = ⟨integer, [0]⟩ && numbers.all Element.isInteger && Nat.pow 2 leastBits ≤ value &&
          value < Nat.pow 2 greatestBits && numberOf p.content * numberOf q.content = value then
        some (.known ⟨primesAlgorithm, encode ⟨sequence, encode product ++ encode exponent⟩⟩)
      else none
    | _ => none
  | _ => none

def ofGeneral? (octets : Bytes) : Option PublicHalf :=
  match only? sequence octets with
  | some (version :: algorithm :: key :: _) =>
    if version.isInteger && algorithm.tag = sequence && key.tag = octetString then
      if algorithm.content = primesAlgorithm then ofPrimes? key.content
      else if algorithm.content = edwardsKind then
        match elements? key.content with
        | some [seed] =>
          if seed.tag = octetString && seed.content.length = 32 then some .untold else none
        | _ => none
      else
        match curves.find? fun curve => algorithm.content = curveKind ++ curve.kind with
        | some curve => ofCurve? curve key.content
        | none => none
    else none
  | _ => none

end PrivateKey

def EncodedKey.publicHalf? (key : EncodedKey) : Option PublicHalf :=
  match key.form with
  | .general => PrivateKey.ofGeneral? key.octets
  | .primes => PrivateKey.ofPrimes? key.octets
  | .curve => PrivateKey.curves.findSome? fun curve => PrivateKey.ofCurve? curve key.octets

end SecretStore.Tls
