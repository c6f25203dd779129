import SecretStore.Proofs.CredHub.Server
import SecretStore.Proofs.CredHub.Service

namespace SecretStore.CredHub

open Http

def Genuine (response : Response) : Prop :=
  ∀ failure, .failure failure ∈ response.body → ∃ cause, failure = .transport cause

def Shows (response : Response) (text : String) : Prop :=
  response.isSuccess = true ∧ ∀ octets, takeChunks [] response.body = .read (.ok octets) →
    versionsReader.whole octets = .ok [text]

inductive Vault.Grants (vault : Vault) (request : Request) (response : Response) : Vault → Prop where
  | found {name text : String} : Wish.ofRequest? request = some (.read name) →
      vault.text? name = some text → Shows response text → vault.Grants request response vault
  | missing {name : String} : Wish.ofRequest? request = some (.read name) →
      vault.text? name = none → response.isNotFound = true → vault.Grants request response vault
  | written {name text : String} : Wish.ofRequest? request = some (.write name text) →
      vault.Grants request response (vault.write name text)
  | removed {name : String} : Wish.ofRequest? request = some (.remove name) →
      vault.Grants request response (vault.remove name)
  | listed {path : String} : Wish.ofRequest? request = some (.find path) →
      vault.Grants request response vault
  | other : Wish.ofRequest? request = none → vault.Grants request response vault

/-- An answer to a request that is not carried out: a failure, but not that a name is absent. -/
def Declines (request : Request) (response : Response) : Prop :=
  response.isSuccess = false ∧
    ∀ name, Wish.ofRequest? request = some (.read name) → response.isNotFound = false

inductive Letter where
  | posted (request : Request)
  | answered (request : Request) (response : Response)

structure Scene (ι : Type) where
  service : Service ι
  vault : Vault
  letters : ι → Option Letter
  /-- Requests that may still be carried out although no call waits for them. -/
  strays : List Request

namespace Scene

variable {ι : Type}

def start (vault : Vault) : Scene ι := ⟨.empty, vault, fun _ => none, []⟩

def leftBy (scene : Scene ι) (id : ι) : List Request :=
  match scene.letters id with
  | some (.posted request) => [request]
  | _ => []

variable [DecidableEq ι]

def withLetter (scene : Scene ι) (service : Service ι) (id : ι) (letter : Option Letter) : Scene ι :=
  { scene with service, letters := Function.update scene.letters id letter }

def forsaken (scene : Scene ι) (service : Service ι) (id : ι) : Scene ι :=
  { scene.withLetter service id none with strays := scene.leftBy id ++ scene.strays }

/-- One step of a call, of its environment or of the server. A request may fail at any time, by cancellation or by the
network. -/
inductive Step (settings : Settings) (scene : Scene ι) : Scene ι → Prop where
  | begins {id : ι} {call : Call} : scene.service.visits id = none → (∀ key, call ≠ .delete key) →
      scene.Step settings { scene with service := scene.service.begin settings id call }
  | goesOn {id : ι} {deed : Deed} {service : Service ι} : deed.IsQuiet →
      scene.service.Does settings id deed service → scene.Step settings { scene with service }
  | posts {id : ι} {request : Request} {service : Service ι} :
      scene.service.Does settings id (.sends request) service →
      scene.Step settings (scene.withLetter service id (some (.posted request)))
  | receives {id : ι} {request : Request} {response : Response} {service : Service ι} :
      scene.letters id = some (.answered request response) →
      scene.service.Does settings id (.receives request response) service →
      scene.Step settings (scene.withLetter service id none)
  | fails {id : ι} {request : Request} {failure : Failure} {service : Service ι} :
      scene.service.Does settings id (.fails request failure) service →
      scene.Step settings (scene.forsaken service id)
  | drops {id : ι} {service : Service ι} : scene.service.Drops id service →
      scene.Step settings (scene.forsaken service id)
  | grants {id : ι} {request : Request} {response : Response} {vault : Vault} :
      scene.letters id = some (.posted request) → Genuine response →
      scene.vault.Grants request response vault →
      scene.Step settings
        { scene.withLetter scene.service id (some (.answered request response)) with vault }
  | declines {id : ι} {request : Request} {response : Response} :
      scene.letters id = some (.posted request) → Genuine response → Declines request response →
      scene.Step settings
        { scene.withLetter scene.service id (some (.answered request response)) with
          strays := request :: scene.strays }
  | late {request : Request} {response : Response} {vault : Vault} {before after : List Request} :
      scene.strays = before ++ request :: after → scene.vault.Grants request response vault →
      scene.Step settings { scene with vault, strays := before ++ after }

inductive Reached (settings : Settings) (vault : Vault) : Scene ι → Prop where
  | start : Reached settings vault (start vault)
  | step {scene after : Scene ι} :
      Reached settings vault scene → scene.Step settings after → Reached settings vault after

theorem Reached.goesOn {settings : Settings} {vault : Vault} {scene : Scene ι}
    (reached : Reached settings vault scene) (id : ι) {call : Call} {task after : Task} {deed : Deed}
    {left : Creates} (here : scene.service.visits id = some ⟨call, task, false⟩)
    (step : Task.Step settings task scene.service.creates deed after left) (quiet : deed.IsQuiet) :
    Reached settings vault { scene with service := scene.service.place id ⟨call, after, false⟩ left } :=
  reached.step (.goesOn quiet (Service.does_alive id here step))

end Scene

end SecretStore.CredHub
