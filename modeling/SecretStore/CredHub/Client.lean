import SecretStore.CredHub.Credentials
import SecretStore.Http.Network
import SecretStore.Http.Program
import SecretStore.Http.Status

namespace SecretStore.CredHub

open Http

structure Client where
  base : String
  deriving DecidableEq, Repr

namespace Client

def shown (client : Client) : String :=
  Quoted.record "ReqwestHttpClient" [("base_url", Quoted.quoted client.base)]

def withoutEndSlashes (text : String) : String :=
  String.ofList ((text.toList.reverse.dropWhile (· = '/')).reverse)

def ofSettings (files : Files.FileSystem) (settings : Settings) (provider : Tls.Provider := .structural) :
    Except Failure Client := do
  let credentials ← (settings.validate files provider).mapError (.config ∘ .fault)
  if provider.builds credentials.serverCa credentials.identity then
    return ⟨withoutEndSlashes settings.baseUrl⟩
  else throw (.transport ⟨.builder, none⟩)

structure World (σ : Type) where
  cancelled : List Token := []
  lines : List Log.Line := []
  network : σ

def World.isCancelled {σ : Type} (token : Token) (world : World σ) : Bool :=
  world.cancelled.contains token

def World.log {σ : Type} (line : Log.Line) (world : World σ) : World σ :=
  { world with lines := world.lines ++ [line] }

variable {σ : Type}

def addressOf (client : Client) (request : Request) : String := client.base ++ request.path

def requestLine (client : Client) (request : Request) : Log.Line :=
  .debug s!"credhub request: {request.method.name} {client.addressOf request}"

def responseLine (client : Client) (request : Request) (status : Nat) : Log.Line :=
  .debug s!"credhub response: {status} {client.addressOf request}"

def send (client : Client) (token : Token) (request : Request) (world : World σ) :
    Except Failure Unit × World σ :=
  if world.isCancelled token then (.error .cancelled, world)
  else (.ok (), world.log (client.requestLine request))

def ask (client : Client) (network : Network σ) (request : Request) (state : σ) :
    Except Transport Received × σ :=
  match Sent.ofText request.method (client.addressOf request) request.body with
  | .error fault => (.error fault, state)
  | .ok sent => fetch network sent state

def receive (client : Client) (network : Network σ) (token : Token) (request : Request)
    (world : World σ) : Option (Except Failure Response × World σ) :=
  if world.isCancelled token then some (.error .cancelled, world)
  else
    match client.ask network request world.network with
    | (.error fault, state) => some (.error (.transport fault), { world with network := state })
    | (.ok received, state) =>
      let world := { world with network := state }.log (client.responseLine request received.status)
      some (.ok ⟨received.status, Status.reason received.status, received.body⟩, world)

def host (client : Client) (network : Network σ) : Program.Host (World σ) where
  log := World.log
  isCancelled := World.isCancelled
  send := client.send
  receive := client.receive network

end Client

end SecretStore.CredHub
