import SecretStore.Tls.Roots

namespace SecretStore.Tls

/-- What a TLS library makes of certificates and keys. Where it refuses them, it says so in a text of its own. -/
structure Provider where
  certificate : Bytes → Except String Unit
  identity : Bytes → Except String Unit
  builds : Option Bytes → Option Bytes → Bool

/-- A provider that looks only at the form of the octets. -/
def Provider.structural : Provider where
  certificate octets := if (Certificate.ofPem? octets).isSome then .ok () else .error "builder error"
  identity octets := if (Identity.ofPem? octets).isSome then .ok () else .error "builder error"
  builds serverCa identity :=
    serverCa.all areRoots && identity.all fun octets => (Identity.ofPem? octets).any Identity.isUsable

end SecretStore.Tls
