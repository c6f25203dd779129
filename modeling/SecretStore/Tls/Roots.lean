import SecretStore.Tls.Identity

namespace SecretStore.Tls

def certificates? : List Pem.Piece → Option (List Bytes)
  | [] => some []
  | .badStart :: _ | .unclosed :: _ => none
  | .whole part :: rest =>
    match Identity.kindOf part.label, Pem.octets? part with
    | .unknown, _ => certificates? rest
    | _, none => none
    | .certificate, some octets => (certificates? rest).map (octets :: ·)
    | _, some _ => certificates? rest

def areRoots (octets : Bytes) : Bool :=
  match certificates? (Pem.pieces Pem.isLineEnd octets) with
  | some certificates => certificates.all fun octets => (Certificate.ofDer? octets).isSome
  | none => false

end SecretStore.Tls
