import SecretStore.CredHub.Settings
import SecretStore.FixedStore

namespace SecretStore

inductive Config where
  | credHub (settings : CredHub.Settings)
  | fixed (store : FixedStore)
  deriving DecidableEq, Repr

namespace Config

def topName : String := "keystore"
def credHubName : String := "credhub"
def fixedName : String := "static"
def entriesName : String := "entries"

end Config

end SecretStore
