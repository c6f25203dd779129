import Mathlib.Logic.Function.Basic
import Mathlib.Data.Set.Card
import SecretStore.Flight.Session

namespace SecretStore.Flight

structure Queues where
  home : String → Option String
  queue : String → List String
  stored : String → Option String

structure Report where
  started : List String
  landed : List Landing
  inFlight : Nat
  deriving DecidableEq, Repr

/-- The callers that begin, those of them that complete at once, and the rest of the queue. -/
structure Promotion where
  started : List String
  landed : List Landing
  left : List String

namespace Queues

def empty : Queues := ⟨fun _ => none, fun _ => [], fun _ => none⟩

/-- The callers of a queue begin one after another until one has to wait for its value. -/
def promote (stored : String → Option String) : List String → Promotion
  | [] => ⟨[], [], []⟩
  | name :: others =>
    match stored name with
    | none => ⟨[name], [], name :: others⟩
    | some value =>
      let rest := promote stored others
      ⟨name :: rest.started, ⟨name, value, false⟩ :: rest.landed, rest.left⟩

def take (stored : String → Option String) (landed : List Landing) (name : String) : Option String :=
  if name ∈ landed.map (·.name) then none else stored name

noncomputable def inFlight (queues : Queues) : Nat := {key | queues.queue key ≠ []}.ncard

def withQueue (queues : Queues) (key : String) (waiting : List String) : Queues :=
  { queues with queue := Function.update queues.queue key waiting }

@[simp]
theorem withQueue_queue (queues : Queues) (key : String) (waiting : List String) (other : String) :
    (queues.withQueue key waiting).queue other = if other = key then waiting else queues.queue other :=
  Function.update_apply ..

def store (queues : Queues) (name value : String) : Queues :=
  { queues with stored := Function.update queues.stored name (some value) }

def serve (queues : Queues) (key : String) (waiting : List String) : Queues × List String × List Landing :=
  let promotion := promote queues.stored waiting
  ({ queues.withQueue key promotion.left with stored := take queues.stored promotion.landed },
    promotion.started, promotion.landed)

def arrive (queues : Queues) (name key : String) : Queues × List String × List Landing :=
  let queues := { queues with home := Function.update queues.home name (some key) }
  match queues.queue key with
  | [] => queues.serve key [name]
  | waiting => (queues.withQueue key (waiting ++ [name]), [], [])

def executing? (queues : Queues) (name : String) : Option (String × List String) :=
  match queues.home name with
  | none => none
  | some key =>
    match queues.queue key with
    | first :: others => if first = name then some (key, others) else none
    | [] => none

def command (queues : Queues) : Command → Queues × List String × List Landing
  | .run name key (some value) => (queues.store name value).arrive name key
  | .run name key none => queues.arrive name key
  | .finish name value =>
    match queues.executing? name with
    | some (key, others) =>
      (queues.withQueue key [], [], ⟨name, value, false⟩ :: others.map fun other => ⟨other, value, true⟩)
    | none => (queues.store name value, [], [])
  | .drop name =>
    match queues.executing? name with
    | some (key, others) => queues.serve key others
    | none =>
      match queues.home name with
      | some key => (queues.withQueue key ((queues.queue key).erase name), [], [])
      | none => (queues, [], [])
  | .look => (queues, [], [])

noncomputable def reports (queues : Queues) : List Command → List Report
  | [] => []
  | command :: rest =>
    let (after, started, landed) := queues.command command
    ⟨started, landed, after.inFlight⟩ :: after.reports rest

end Queues

def Command.newcomer? : Command → Option String
  | .run name _ _ => some name
  | _ => none

namespace Session

def reports (session : Session) : List Command → List Report
  | [] => []
  | command :: rest =>
    let after := session.run command
    ⟨after.desk.started, after.landed, after.table.inFlight⟩ :: after.reports rest

end Session

end SecretStore.Flight
