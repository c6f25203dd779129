import SecretStore.Files
import SecretStore.Yaml.Fault

namespace SecretStore.Config

inductive Fault where
  | missingField (field reason : String)
  | invalidCertificate (field reason : String)
  | unreadableField (field : String) (cause : Files.Fault)
  | unreadableFile (path : String) (cause : Files.Fault)
  | yaml (cause : Yaml.Fault)

def Fault.message : Fault → String
  | .missingField field reason => s!"config: `{field}` {reason}"
  | .invalidCertificate field reason => s!"config: invalid certificate in `{field}`: {reason}"
  | .unreadableField field cause => s!"config: failed to read `{field}`: {cause.message}"
  | .unreadableFile path cause => s!"config: failed to read {path}: {cause.message}"
  | .yaml cause => s!"config: failed to parse YAML: {cause.message}"

end SecretStore.Config
