import SecretStore.Config.Fault
import SecretStore.CredHub.Settings
import SecretStore.Text.Quoted
import SecretStore.Tls.Provider

namespace SecretStore.CredHub

open Files (FileSystem)
open Tls

/-- The octets that the certificate of the server and the identity of the client are made from. -/
structure Credentials where
  serverCa : Option Bytes := none
  identity : Option Bytes := none
  deriving DecidableEq, Repr

def Credentials.shown (credentials : Credentials) : String :=
  Quoted.record "Certs" [("server_ca_cert", toString credentials.serverCa.isSome),
    ("client_identity", toString credentials.identity.isSome)]

def readPem (files : FileSystem) (field path : String) : Except Config.Fault Bytes :=
  match files path with
  | .error cause => .error (.unreadableField field cause)
  | .ok octets =>
    if Pem.hasBlock octets then .ok octets
    else .error (.invalidCertificate field "no PEM block found")

def readCertificate (provider : Provider) (files : FileSystem) (field path : String) :
    Except Config.Fault Bytes := do
  let octets ← readPem files field path
  (provider.certificate octets).mapError (.invalidCertificate field)
  return octets

namespace Settings

def checkPresent (settings : Settings) : Except Config.Fault Unit :=
  if settings.baseUrl = "" then .error (.missingField "base_url" "can't be empty")
  else if settings.keyspace = "" then .error (.missingField "namespace" "can't be empty")
  else .ok ()

def serverCa (provider : Provider) (files : FileSystem) (settings : Settings) :
    Except Config.Fault (Option Bytes) :=
  let field := "server_ca_cert_file_path"
  if settings.skipVerify then .ok none
  else if settings.caCertPath = "" then
    .error (.missingField field "can't be empty when `server_insecure_skip_verify` is false")
  else (readCertificate provider files field settings.caCertPath).map some

def identity (provider : Provider) (files : FileSystem) (settings : Settings) :
    Except Config.Fault (Option Bytes) :=
  let certField := "client_cert_file_path"
  let keyField := "client_key_file_path"
  if !settings.mutualTls then .ok none
  else if settings.clientCertPath = "" ∨ settings.clientKeyPath = "" then
    .error (.missingField certField
      "and `client_key_file_path` can't be empty when `enable_mutual_tls` is true")
  else do
    let certificate ← readCertificate provider files certField settings.clientCertPath
    let key ← readPem files keyField settings.clientKeyPath
    let octets := certificate ++ 10 :: key
    (provider.identity octets).mapError (.invalidCertificate keyField)
    return some octets

/-- Checks the settings in a fixed order. The first check that fails gives the fault. -/
def validate (files : FileSystem) (settings : Settings) (provider : Provider := .structural) :
    Except Config.Fault Credentials := do
  checkPresent settings
  let serverCa ← serverCa provider files settings
  let identity ← identity provider files settings
  return { serverCa, identity }

end Settings

end SecretStore.CredHub
