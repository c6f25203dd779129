import SecretStore.Config
import SecretStore.CredHub.Client
import SecretStore.CredHub.Operation

namespace SecretStore

inductive OpenStore where
  | credHub (settings : CredHub.Settings) (client : CredHub.Client)
  | fixed (store : FixedStore)
  deriving DecidableEq, Repr

def Config.connect (files : Files.FileSystem) (config : Config) (provider : Tls.Provider := .structural) :
    Except Failure OpenStore :=
  match config with
  | .credHub settings => (CredHub.Client.ofSettings files settings provider).map (.credHub settings)
  | .fixed store => .ok (.fixed store)

namespace OpenStore

open Http CredHub.Client

def name : OpenStore → String
  | .credHub .. => CredHub.storeName
  | .fixed _ => FixedStore.name

def answer {σ : Type} (network : Network σ) (token : Token) (call : Call) (world : World σ) :
    OpenStore → Option Outcome × World σ
  | .credHub settings client =>
    let (program, world) :=
      Program.run (client.host network) token (CredHub.program settings call) world
    (program.result?, world)
  | .fixed store => (some (store.answer call), world)

end OpenStore

end SecretStore
