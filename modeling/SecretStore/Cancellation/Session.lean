import SecretStore.Cancellation
import SecretStore.Rounds

namespace SecretStore.Cancellation

structure Session where
  handles : List (String × Family)
  fresh : Family
  state : State
  deriving Repr

inductive Command where
  | make (name : String)
  | clone (name source : String)
  | forget (name : String)
  | cancel (name : String)
  | wait (id name : String)
  | drop (id : String)
  | look (name : String)
  deriving DecidableEq, Repr

namespace Session

def initial : Session := ⟨[], 0, .initial⟩

def family? (session : Session) (name : String) : Option Family :=
  (session.handles.find? (·.1 = name)).map (·.2)

def bind (session : Session) (name : String) (family : Family) : Session :=
  { session with handles := session.handles.filter (·.1 ≠ name) ++ [(name, family)] }

def isCancelled (session : Session) (name : String) : Bool :=
  (session.family? name).any session.state.isCancelled

def isWaiting (session : Session) (id : String) : Bool :=
  (session.state.waiter? id).isSome

def apply (session : Session) : Command → Session
  | .make name => { session.bind name session.fresh with fresh := session.fresh + 1 }
  | .clone name source =>
    match session.family? source with
    | some family => session.bind name family
    | none => session
  | .forget name => { session with handles := session.handles.filter (·.1 ≠ name) }
  | .cancel name =>
    match session.family? name with
    | some family => { session with state := session.state.cancel family }
    | none => session
  | .wait id name =>
    match session.family? name with
    | some family => { session with state := session.state.act (.arrive id family) }
    | none => session
  | .drop id => { session with state := session.state.act (.abandon id) }
  | .look _ => session

def round (state : State) : State :=
  Rounds.each State.poll (state.waiters.map (·.id)) state

def settle (session : Session) : Session :=
  let state := { session.state with finished := [] }
  { session with
    state := Rounds.settle round (·.finished.length) (state.waiters.length + 1) state }

def run (session : Session) (command : Command) : Session :=
  (session.apply command).settle

def view (session : Session) : List (String × Bool) :=
  session.handles.map fun handle => (handle.1, session.state.isCancelled handle.2)

end Session

end SecretStore.Cancellation
