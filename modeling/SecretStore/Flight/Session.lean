import SecretStore.Flight.Caller
import SecretStore.Rounds

namespace SecretStore.Flight

structure Errand where
  name : String
  begun : Bool
  deriving DecidableEq, Repr

structure Desk where
  mail : List (String × String)
  started : List String
  deriving DecidableEq, Repr

namespace Desk

def deliver (desk : Desk) (name value : String) : Desk :=
  { desk with mail := (name, value) :: desk.mail.filter (·.1 ≠ name) }

def begin (desk : Desk) (errand : Errand) : Desk :=
  if errand.begun then desk else { desk with started := desk.started ++ [errand.name] }

def advance (errand : Errand) (desk : Desk) : Progress Errand String × Desk :=
  let desk := desk.begin errand
  match desk.mail.find? (·.1 = errand.name) with
  | some (_, value) =>
    (.finished value, { desk with mail := desk.mail.filter (·.1 ≠ errand.name) })
  | none => (.waiting { errand with begun := true }, desk)

end Desk

structure Landing where
  name : String
  value : String
  shared : Bool
  deriving DecidableEq, Repr

structure Session where
  table : Table String
  desk : Desk
  callers : List (String × Caller Errand String)
  landed : List Landing
  deriving Repr

inductive Command where
  | run (name key : String) (value : Option String)
  | finish (name value : String)
  | drop (name : String)
  | look
  deriving DecidableEq, Repr

namespace Session

def initial : Session := ⟨.empty, ⟨[], []⟩, [], []⟩

def caller? (session : Session) (name : String) : Option (Caller Errand String) :=
  (session.callers.find? (·.1 = name)).map (·.2)

def isPending (session : Session) (name : String) : Bool := (session.caller? name).isSome

def without (session : Session) (name : String) : Session :=
  { session with callers := session.callers.eraseP (·.1 = name) }

def apply (session : Session) : Command → Session
  | .run name key value =>
    let desk := match value with
      | some value => session.desk.deliver name value
      | none => session.desk
    { session with
      desk
      callers := session.callers ++ [(name, Caller.arrive key ⟨name, false⟩)] }
  | .finish name value => { session with desk := session.desk.deliver name value }
  | .drop name =>
    match session.caller? name with
    | some caller => { session.without name with table := caller.drop session.table }
    | none => session
  | .look => session

def poll (name : String) (session : Session) : Session :=
  match session.caller? name with
  | none => session
  | some caller =>
    let (caller, table, desk) := caller.poll Desk.advance session.table session.desk
    let session := { session with table, desk }
    match caller.result? with
    | some (value, shared) =>
      { session.without name with landed := session.landed ++ [⟨name, value, shared⟩] }
    | none =>
      { session with
        callers := session.callers.map fun c => if c.1 = name then (name, caller) else c }

def round (session : Session) : Session :=
  Rounds.each poll (session.callers.map (·.1)) session

def tally (session : Session) : Nat := session.landed.length + session.desk.started.length

/-- Each caller begins its work and returns at most once, which bounds the rounds. -/
def settle (session : Session) : Session :=
  Rounds.settle round tally (2 * session.callers.length + 1)
    { session with landed := [], desk := { session.desk with started := [] } }

def run (session : Session) (command : Command) : Session :=
  (session.apply command).settle

end Session

def Landing.shown (landing : Landing) : String :=
  Quoted.record "Flight"
    [("value", Quoted.quoted landing.value), ("shared", toString landing.shared)]

end SecretStore.Flight
