import SecretStore.Tls.PrivateKey

namespace SecretStore.Tls

structure Identity where
  certificates : List Bytes
  key : EncodedKey
  deriving DecidableEq, Repr

namespace Identity

inductive Kind where
  | certificate
  | key (form : KeyForm)
  | other
  | unknown
  deriving DecidableEq, Repr

def kinds : List (String × Kind) :=
  [("CERTIFICATE", .certificate), ("PRIVATE KEY", .key .general), ("RSA PRIVATE KEY", .key .primes),
    ("EC PRIVATE KEY", .key .curve), ("PUBLIC KEY", .other), ("X509 CRL", .other),
    ("CERTIFICATE REQUEST", .other), ("ECHCONFIG", .other)]

def kindOf (label : Bytes) : Kind :=
  ((kinds.find? fun entry => Utf8.bytes entry.1 = label).map (·.2)).getD .unknown

structure Found where
  certificates : List Bytes := []
  key : Option EncodedKey := none

def collect (found : Found) : List Pem.Piece → Option Found
  | [] => some found
  | .badStart :: _ | .unclosed :: _ => none
  | .whole part :: rest =>
    match kindOf part.label, Pem.octets? part with
    | .unknown, _ => collect found rest
    | .other, _ | _, none => none
    | .certificate, some octets =>
      collect { found with certificates := found.certificates ++ [octets] } rest
    | .key form, some octets => collect { found with key := some ⟨form, octets⟩ } rest

def ofPem? (octets : Bytes) : Option Identity :=
  match collect {} (Pem.pieces Pem.isLineEnd octets) with
  | some ⟨certificate :: certificates, some key⟩ => some ⟨certificate :: certificates, key⟩
  | _ => none

def extended : Nat := 2

def isUsable (identity : Identity) : Bool :=
  match identity.certificates.head?.bind Certificate.ofDer?, identity.key.publicHalf? with
  | some certificate, some (.known key) =>
    certificate.version = extended && certificate.publicKey = key
  | some certificate, some .untold => certificate.version = extended
  | _, _ => false

end Identity

end SecretStore.Tls
