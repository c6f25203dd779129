import SecretStore.Text.Quoted

namespace SecretStore.Flight

structure Channel (V : Type) where
  value : Option V
  live : Bool
  deriving DecidableEq, Repr

structure Table (V : Type) where
  entries : List (String × Nat)
  channels : List (Channel V)
  deriving DecidableEq, Repr

inductive Role where
  | leader (flight : Nat)
  | follower (flight : Nat)
  deriving DecidableEq, Repr

/-- What a follower sees of a channel. A value stays visible after the channel has closed. -/
inductive Sight (V : Type) where
  | value (value : V)
  | gone
  | pending
  deriving DecidableEq, Repr

variable {V : Type}

namespace Table

def empty : Table V := ⟨[], []⟩

def flight? (table : Table V) (key : String) : Option Nat :=
  (table.entries.find? (·.1 = key)).map (·.2)

def inFlight (table : Table V) : Nat := table.entries.length

def join (table : Table V) (key : String) : Role × Table V :=
  match table.flight? key with
  | some flight => (.follower flight, table)
  | none =>
    let flight := table.channels.length
    (.leader flight, ⟨(key, flight) :: table.entries, table.channels ++ [⟨none, true⟩]⟩)

def update (table : Table V) (flight : Nat) (change : Channel V → Channel V) : Table V :=
  { table with channels := table.channels.modify flight change }

def publish (table : Table V) (flight : Nat) (value : V) : Table V :=
  table.update flight fun channel => { channel with value := some value }

def leave (table : Table V) (key : String) : Table V :=
  { table with entries := table.entries.filter (·.1 ≠ key) }

def close (table : Table V) (flight : Nat) : Table V :=
  table.update flight fun channel => { channel with live := false }

def look (table : Table V) (flight : Nat) : Sight V :=
  match table.channels[flight]? with
  | some ⟨some value, _⟩ => .value value
  | some ⟨none, true⟩ => .pending
  | some ⟨none, false⟩ | none => .gone

def shown (table : Table V) : String :=
  Quoted.record "SingleFlight" [("in_flight", toString table.inFlight)]

end Table

end SecretStore.Flight
