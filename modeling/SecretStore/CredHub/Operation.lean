import SecretStore.CredHub.Api
import SecretStore.CredHub.Settings
import SecretStore.CredHub.Value
import SecretStore.Http.Program
import SecretStore.Store

namespace SecretStore.CredHub

open Http Http.Action

namespace Settings

def nameOf (settings : Settings) (key : String) : String := credentialName settings.keyspace key

end Settings

/-- A body that cannot be read counts as empty, unless reading it was cancelled. -/
def remoteFailure (operation : String) (response : Response) : Action Failure := do
  let body ← tryCatch (readText response) fun failure =>
    match failure with
    | .cancelled => throw .cancelled
    | _ => return ""
  log (.warn s!"credhub: failed to {operation} (status: {response.status})")
  return .remote operation response.status response.reason body

def refuse {α : Type} (operation : String) (response : Response) : Action α := do
  throw (← remoteFailure operation response)

def putOperation : String := "set entry"
def getOperation : String := "get entry"
def deleteOperation : String := "delete entry"
def listOperation : String := "list entries"
def healthOperation : String := "check health"

def healthy : String := "UP"

def put (settings : Settings) (key : String) (value : Bytes) : Action Unit := do
  let text := encodeValue value settings.forceBase64
  let response ← request (putRequest (settings.nameOf key) text)
  if !response.isSuccess then refuse putOperation response

def soleVersion (key : String) : List String → Except Failure Bytes
  | [] => .error (.notFound key)
  | [text] => decodeValue text
  | versions => .error (.protocol (.manyVersions versions.length key))

def get (settings : Settings) (key : String) : Action Bytes := do
  let response ← request (getRequest (settings.nameOf key))
  if response.isNotFound then throw (.notFound key)
  if !response.isSuccess then refuse getOperation response
  ofResult (soleVersion key (← readJson versionsReader response))

def set (settings : Settings) (key : String) (value : Bytes) : Action Unit := do
  log (.debug ("credhub: set " ++ settings.nameOf key))
  put settings key value

def delete (settings : Settings) (key : String) : Action Unit := do
  log (.debug ("credhub: delete " ++ settings.nameOf key))
  let response ← request (deleteRequest (settings.nameOf key))
  if response.isNotFound then throw (.notFound key)
  if !response.isSuccess then refuse deleteOperation response

/-- A name outside the namespace is kept whole. -/
def bareKey (path name : String) : String :=
  match Search.after? path.toList name.toList with
  | some key => String.ofList key
  | none => name

def list (settings : Settings) : Action (List String) := do
  let path := settings.keyspace ++ "/"
  let response ← request (listRequest path)
  if !response.isSuccess then refuse listOperation response
  let names ← readJson namesReader response
  return names.map (bareKey path)

def status (_ : Settings) : Action Unit := do
  let response ← request healthRequest
  if !response.isSuccess then refuse healthOperation response
  let octets ← readBody response
  let found ← ofResult (decode healthReader octets)
  if found ≠ healthy then
    throw (.remote healthOperation response.status response.reason (Utf8.lossy octets))

def createWork (settings : Settings) (key : String) (value : Bytes) :
    Program (Except Failure Unit) := do
  let found ← (get settings key).run
  match found with
  | .ok _ => return .error (.alreadyExists key)
  | .error (.notFound _) => (put settings key value).run
  | .error failure => return .error failure

def createLine (settings : Settings) (key : String) : Log.Line :=
  .debug ("credhub: create " ++ settings.nameOf key)

/-- A caller that has shared a successful creation learns that the key already exists. -/
def createOutcome (key : String) (shared : Bool) : Except Failure Unit → Outcome
  | .ok () => if shared then .error (.alreadyExists key) else .ok .done
  | .error failure => .error failure

def storeName : String := "credhub"

def program (settings : Settings) : Call → Action Answer
  | .status => do status settings; return .healthy none
  | .create key value => do
    log (createLine settings key)
    ExceptT.mk (createWork settings key value)
    return .done
  | .set key value => do set settings key value; return .done
  | .get key => do return .value (← get settings key)
  | .delete key => do delete settings key; return .done
  | .list => do return .keys (← list settings)
  | .close => return .done
  | .name => return .name storeName

end SecretStore.CredHub
