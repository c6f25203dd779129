import SecretStore.CredHub.Operation
import SecretStore.Flight.Caller
import SecretStore.Http.Script
import SecretStore.Rounds

namespace SecretStore.CredHub

open Http

abbrev CreateWork := Program (Except Failure Unit)

abbrev Creates := Flight.Table (Except Failure Unit)

abbrev Creator := Flight.Caller CreateWork (Except Failure Unit)

inductive Task where
  | plain (program : Program Outcome)
  | create (key : String) (announced : Bool) (caller : Creator)

structure Running where
  id : String
  token : Token
  task : Task

structure Finished where
  id : String
  token : Token
  outcome : Outcome

structure Session where
  settings : Settings
  script : Script
  creates : Creates
  running : List Running
  finished : List Finished
  listings : List (String × Token × KeyCursor)

inductive Command where
  | call (id : String) (call : Call) (token : Token) (replies : List Reply)
  | reply (reply : Reply)
  | cancel (token : Token)
  | drop (id : String)
  | cursor (id : String) (calls : List KeyCursor.Call)
  | look

def Task.start (settings : Settings) : Call → Task
  | .create key value =>
    .create key false (.arrive (settings.nameOf key) (createWork settings key value))
  | call => .plain (program settings call)

variable {σ : Type}

def advance (host : Program.Host σ) (token : Token) (work : CreateWork) (state : σ) :
    Flight.Progress CreateWork (Except Failure Unit) × σ :=
  match Program.run host token work state with
  | (.done value, state) => (.finished value, state)
  | (work, state) => (.waiting work, state)

def Task.poll (host : Program.Host σ) (settings : Settings) (token : Token) :
    Task → Creates → σ → Task × Creates × σ
  | .plain program, creates, state =>
    let (program, state) := Program.run host token program state
    (.plain program, creates, state)
  | .create key announced caller, creates, state =>
    let state := if announced then state else host.log (createLine settings key) state
    let (caller, creates, state) := caller.poll (advance host token) creates state
    (.create key true caller, creates, state)

def Task.outcome? : Task → Option Outcome
  | .plain program => program.result?
  | .create key _ caller =>
    caller.result?.map fun (value, shared) => createOutcome key shared value

namespace Session

def ofSettings (settings : Settings) (replies : List Reply) : Session :=
  ⟨settings, .ofReplies replies, .empty, [], [], []⟩

def running? (session : Session) (id : String) : Option Running :=
  session.running.find? (·.id = id)

def isPending (session : Session) (id : String) : Bool := (session.running? id).isSome

def without (session : Session) (id : String) : Session :=
  { session with running := session.running.eraseP (·.id = id) }

def withTask (session : Session) (id : String) (task : Task) : Session :=
  { session with running := session.running.map fun r => if r.id = id then { r with task } else r }

def runTask (session : Session) (token : Token) (task : Task) : Task × Session :=
  let (task, creates, script) :=
    task.poll Script.host session.settings token session.creates session.script
  (task, { session with creates, script })

def keep (session : Session) (id : String) (token : Token) : Outcome → Session
  | .ok (.keys keys) =>
    { session with
      listings := session.listings.filter (·.1 ≠ id) ++ [(id, token, .ofKeys keys)] }
  | _ => session

def poll (id : String) (session : Session) : Session :=
  match session.running? id with
  | none => session
  | some running =>
    let (task, session) := session.runTask running.token running.task
    match task.outcome? with
    | none => session.withTask id task
    | some outcome =>
      let session := (session.without id).keep id running.token outcome
      { session with finished := session.finished ++ [⟨id, running.token, outcome⟩] }

def round (session : Session) : Session :=
  Rounds.each poll (session.running.map (·.id)) session

def tally (session : Session) : Nat :=
  session.finished.length + session.script.requests.length + session.script.taken

/-- A task sends at most two requests and takes one reply for each, which bounds the rounds. -/
def settle (session : Session) : Session :=
  Rounds.settle round tally (5 * session.running.length + 1)
    { session with finished := [], script := session.script.cleared }

def drop (session : Session) (id : String) : Session :=
  match session.running? id with
  | some ⟨_, _, .create _ _ caller⟩ =>
    { session.without id with creates := caller.drop session.creates }
  | _ => session.without id

def listing? (session : Session) (id : String) : Option (Token × KeyCursor) :=
  (session.listings.find? (·.1 = id)).map (·.2)

def ask (session : Session) (id : String) (calls : List KeyCursor.Call) :
    Option (List KeyCursor.Reply) × Session :=
  match session.listing? id with
  | none => (none, session)
  | some (token, cursor) =>
    let (replies, cursor) := cursor.answers (session.script.isCancelled token) calls
    (some replies,
      { session with
        listings := session.listings.map fun l => if l.1 = id then (id, token, cursor) else l })

def apply (session : Session) : Command → Session
  | .call id call token replies =>
    { session with
      script := { session.script with replies := session.script.replies ++ replies }
      running := session.running ++ [⟨id, token, .start session.settings call⟩] }
  | .reply reply =>
    { session with script := { session.script with replies := session.script.replies ++ [reply] } }
  | .cancel token => { session with script := session.script.cancel token }
  | .drop id => session.drop id
  | .cursor id calls => (session.ask id calls).2
  | .look => session

def run (session : Session) (command : Command) : Session :=
  (session.apply command).settle

open Quoted in
def shown (session : Session) : String :=
  record "CredHubStore"
    [("base_url", quoted session.settings.baseUrl), ("namespace", quoted session.settings.keyspace),
      ("creates", session.creates.shown)]

end Session

end SecretStore.CredHub
