import SecretStore.Failure

/-!
# Cancellation

Handles of one token form a family, and cancelling any of them cancels the family for good. A waiter registers for the
notification, reads the flag, and then waits. A canceller sets the flag and, if it was not set before, notifies the
registered waiters. Since a waiter registers before it reads the flag, no order of these steps loses a cancellation.
-/

namespace SecretStore.Cancellation

abbrev Family := Nat

inductive Stage where
  | arriving
  | registered
  | parked
  deriving DecidableEq, Repr

structure Waiter where
  id : String
  family : Family
  stage : Stage
  woken : Bool
  deriving DecidableEq, Repr

structure State where
  cancelled : List Family
  /-- Families whose flag is set and whose waiters are still to be notified. -/
  waking : List Family
  waiters : List Waiter
  finished : List String
  deriving DecidableEq, Repr

def State.initial : State := ⟨[], [], [], []⟩

def State.isCancelled (state : State) (family : Family) : Bool := state.cancelled.contains family

def State.error? (state : State) (family : Family) : Option Failure :=
  if state.isCancelled family then some .cancelled else none

def State.check (state : State) (family : Family) : Except Failure Unit :=
  match state.error? family with
  | some failure => .error failure
  | none => .ok ()

def shown (cancelled : Bool) : String :=
  Quoted.record "CancellationToken" [("is_cancelled", toString cancelled)]

inductive Step where
  | arrive (id : String) (family : Family)
  | register (id : String)
  | readFlag (id : String)
  | resume (id : String)
  | abandon (id : String)
  | raise (family : Family)
  | wake (family : Family)
  deriving DecidableEq, Repr

def State.waiter? (state : State) (id : String) : Option Waiter :=
  state.waiters.find? (·.id = id)

def State.without (state : State) (id : String) : State :=
  { state with waiters := state.waiters.eraseP (·.id = id) }

def State.finish (state : State) (id : String) : State :=
  { state.without id with finished := state.finished ++ [id] }

def State.update (state : State) (id : String) (change : Waiter → Waiter) : State :=
  { state with waiters := state.waiters.map fun w => if w.id = id then change w else w }

/-- A step that its actor is not ready for leaves the state unchanged. -/
def State.act (state : State) : Step → State
  | .arrive id family =>
    { state with waiters := state.waiters ++ [⟨id, family, .arriving, false⟩] }
  | .register id =>
    state.update id fun w => if w.stage = .arriving then { w with stage := .registered } else w
  | .readFlag id =>
    match state.waiter? id with
    | some w =>
      if w.stage = .registered then
        if state.isCancelled w.family then state.finish id
        else state.update id fun w => { w with stage := .parked }
      else state
    | none => state
  | .resume id =>
    match state.waiter? id with
    | some w => if w.stage = .parked ∧ w.woken then state.finish id else state
    | none => state
  | .abandon id => state.without id
  | .raise family =>
    if state.isCancelled family then state
    else { state with cancelled := family :: state.cancelled, waking := family :: state.waking }
  | .wake family =>
    if family ∈ state.waking then
      { state with
        waking := state.waking.erase family
        waiters := state.waiters.map fun w =>
          if w.family = family ∧ w.stage ≠ .arriving then { w with woken := true } else w }
    else state

def State.poll (id : String) (state : State) : State :=
  ((state.act (.register id)).act (.readFlag id)).act (.resume id)

def State.cancel (state : State) (family : Family) : State :=
  (state.act (.raise family)).act (.wake family)

end SecretStore.Cancellation
