import SecretStore.Flight.Table

/-!
# Callers of a flight

A leader works, publishes its value, leaves the table and closes its channel, in this order. A follower waits for the
value, and joins again if the channel closes without one. An abandoned leader leaves the table before it closes its
channel, so a caller that joins again does not meet the same channel.
-/

namespace SecretStore.Flight

/-- The position of a caller between two steps. `W` is the rest of its work. -/
inductive Point (W V : Type) where
  | joining
  | working (flight : Nat) (work : W)
  | publishing (flight : Nat) (value : V)
  | leaving (flight : Nat) (value : V)
  | closing (flight : Nat) (value : V)
  | following (flight : Nat)
  | returned (value : V) (shared : Bool)
  /-- An abandoned leader removes its entry from the table before it closes its channel. -/
  | quitting (flight : Nat)
  | hangingUp (flight : Nat)
  | gone
  deriving DecidableEq, Repr

structure Caller (W V : Type) where
  key : String
  work : W
  point : Point W V
  deriving DecidableEq, Repr

variable {W V : Type}

def Caller.arrive (key : String) (work : W) : Caller W V := ⟨key, work, .joining⟩

inductive Progress (W V : Type) where
  | waiting (work : W)
  | finished (value : V)
  deriving DecidableEq, Repr

def Caller.progress (caller : Caller W V) (flight : Nat) : Progress W V → Caller W V
  | .waiting work => { caller with point := .working flight work }
  | .finished value => { caller with point := .publishing flight value }

def Caller.act (caller : Caller W V) (table : Table V) : Caller W V × Table V :=
  match caller.point with
  | .joining =>
    match table.join caller.key with
    | (.leader flight, table) => ({ caller with point := .working flight caller.work }, table)
    | (.follower flight, table) => ({ caller with point := .following flight }, table)
  | .publishing flight value =>
    ({ caller with point := .leaving flight value }, table.publish flight value)
  | .leaving flight value => ({ caller with point := .closing flight value }, table.leave caller.key)
  | .closing flight value => ({ caller with point := .returned value false }, table.close flight)
  | .following flight =>
    match table.look flight with
    | .value value => ({ caller with point := .returned value true }, table)
    | .gone => ({ caller with point := .joining }, table)
    | .pending => (caller, table)
  | .quitting flight => ({ caller with point := .hangingUp flight }, table.leave caller.key)
  | .hangingUp flight => ({ caller with point := .gone }, table.close flight)
  | .working .. | .returned .. | .gone => (caller, table)

def Caller.abandon (caller : Caller W V) : Caller W V :=
  match caller.point with
  | .working flight _ => { caller with point := .quitting flight }
  | .joining | .following _ => { caller with point := .gone }
  | _ => caller

def Caller.drop (caller : Caller W V) (table : Table V) : Table V :=
  let (caller, table) := caller.abandon.act table
  (caller.act table).2

variable {σ : Type}

/-- Runs a caller until it waits or has returned. Six steps suffice: a caller that joins again leads, or follows a
live leader. -/
def Caller.run (advance : W → σ → Progress W V × σ) :
    (steps : Nat) → Caller W V → Table V → σ → Caller W V × Table V × σ
  | 0, caller, table, state => (caller, table, state)
  | steps + 1, caller, table, state =>
    match caller.point with
    | .working flight work =>
      match advance work state with
      | (.waiting work, state) => (caller.progress flight (.waiting work), table, state)
      | (.finished value, state) =>
        run advance steps (caller.progress flight (.finished value)) table state
    | .following flight =>
      match table.look flight with
      | .pending => (caller, table, state)
      | _ =>
        let (caller, table) := caller.act table
        run advance steps caller table state
    | .returned .. | .gone => (caller, table, state)
    | _ =>
      let (caller, table) := caller.act table
      run advance steps caller table state

def mostSteps : Nat := 7

def Caller.poll (advance : W → σ → Progress W V × σ) (caller : Caller W V) (table : Table V)
    (state : σ) : Caller W V × Table V × σ :=
  caller.run advance mostSteps table state

def Caller.result? (caller : Caller W V) : Option (V × Bool) :=
  match caller.point with
  | .returned value shared => some (value, shared)
  | _ => none

end SecretStore.Flight
