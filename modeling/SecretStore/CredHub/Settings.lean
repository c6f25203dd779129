namespace SecretStore.CredHub

structure Settings where
  baseUrl : String := ""
  /-- The namespace: the credential path under which all keys are kept. -/
  keyspace : String := ""
  mutualTls : Bool := false
  clientCertPath : String := ""
  clientKeyPath : String := ""
  caCertPath : String := ""
  skipVerify : Bool := false
  forceBase64 : Bool := false
  deriving DecidableEq, Repr

end SecretStore.CredHub
