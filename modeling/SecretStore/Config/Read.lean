import SecretStore.Config
import SecretStore.Config.Fault
import SecretStore.Yaml.Reader

namespace SecretStore.Config

open Yaml

structure SettingsDraft where
  settings : CredHub.Settings := {}
  given : List String := []

inductive Setting where
  | text (set : String → CredHub.Settings → CredHub.Settings)
  | flag (set : Bool → CredHub.Settings → CredHub.Settings)

def settingsFields : List (String × Setting) :=
  [("base_url", .text fun value s => { s with baseUrl := value }),
    ("namespace", .text fun value s => { s with keyspace := value }),
    ("enable_mutual_tls", .flag fun value s => { s with mutualTls := value }),
    ("client_cert_file_path", .text fun value s => { s with clientCertPath := value }),
    ("client_key_file_path", .text fun value s => { s with clientKeyPath := value }),
    ("server_ca_cert_file_path", .text fun value s => { s with caCertPath := value }),
    ("server_insecure_skip_verify", .flag fun value s => { s with skipVerify := value }),
    ("force_base64_values_encoding", .flag fun value s => { s with forceBase64 := value })]

def Setting.read (draft : SettingsDraft) (name : String) (setting : Setting) :
    Reader SettingsDraft := fun place rest =>
  match setting with
  | .text set =>
    (Yaml.text place rest).map fun (value, rest) =>
      (⟨set value draft.settings, name :: draft.given⟩, rest)
  | .flag set =>
    (Yaml.boolean place rest).map fun (value, rest) =>
      (⟨set value draft.settings, name :: draft.given⟩, rest)

def settingsField (draft : SettingsDraft) (name : String) : Slot SettingsDraft :=
  match settingsFields.find? (·.1 = name) with
  | none => .unknown
  | some (_, setting) =>
    if draft.given.contains name then .repeated else .known (setting.read draft name)

def settingsReader : Reader Config :=
  record "struct CredHubConfig" {} settingsField fun draft => .ok (.credHub draft.settings)

def onlyField {α : Type} (name : String) (read : Reader α) (found : Option α) (asked : String) :
    Slot (Option α) :=
  if asked ≠ name then .unknown
  else if found.isSome then .repeated
  else .known fun place rest => (read place rest).map fun (value, rest) => (some value, rest)

def fixedReader : Reader Config :=
  record "struct StaticConfig" none (onlyField entriesName textMap) fun pairs =>
    .ok (.fixed (.ofList (pairs.getD [])))

def storeReader : Reader Config :=
  choice "enum KeyStoreConfig" [(credHubName, settingsReader), (fixedName, fixedReader)]

def reader : Reader Config :=
  record "struct ConfigFile" none (onlyField topName storeReader) fun found =>
    match found with
    | some config => .ok config
    | none => .error (.missing topName)

def ofYaml (text : String) : Except Fault Config :=
  (reader.whole text).mapError .yaml

end SecretStore.Config
