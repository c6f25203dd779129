import SecretStore.Config
import SecretStore.Yaml.Writer

namespace SecretStore.Config

open Yaml

def settingsMembers (settings : CredHub.Settings) : List (String × Writable) :=
  [("base_url", .text settings.baseUrl),
    ("namespace", .text settings.keyspace),
    ("enable_mutual_tls", .flag settings.mutualTls),
    ("client_cert_file_path", .text settings.clientCertPath),
    ("client_key_file_path", .text settings.clientKeyPath),
    ("server_ca_cert_file_path", .text settings.caCertPath),
    ("server_insecure_skip_verify", .flag settings.skipVerify),
    ("force_base64_values_encoding", .flag settings.forceBase64)]

def entriesWritable (entries : Entries) : Writable :=
  .map (entries.map fun entry => (entry.1, .text entry.2))

def writable : Config → String × Writable
  | .credHub settings => (credHubName, .map (settingsMembers settings))
  | .fixed store => (fixedName, .map [(entriesName, entriesWritable store.entries)])

def toYaml (config : Config) : String := writeMap [(topName, .map [config.writable])]

end SecretStore.Config
