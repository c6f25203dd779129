import Mathlib.Data.List.Induction
import Mathlib.Logic.Function.Basic
import SecretStore.Flight.Caller

namespace SecretStore.Flight

variable {ι W V : Type}

structure Crowd (ι W V : Type) where
  table : Table V
  /-- A caller stays here after it has returned or is gone. -/
  callers : ι → Option (Caller W V)

/-- One step of one caller. Work may make any progress. -/
inductive Move (ι W V : Type) where
  | arrive (id : ι) (key : String) (work : W)
  | act (id : ι)
  | advance (id : ι) (progress : Progress W V)
  | abandon (id : ι)

/-- A move, a complete poll whose work makes the given progress, or a complete drop. -/
inductive Event (ι W V : Type) where
  | move (move : Move ι W V)
  | poll (id : ι) (advance : W → Progress W V)
  | drop (id : ι)

namespace Crowd

def empty : Crowd ι W V := ⟨.empty, fun _ => none⟩

variable [DecidableEq ι]

def place (crowd : Crowd ι W V) (id : ι) (caller : Caller W V) (table : Table V) : Crowd ι W V :=
  ⟨table, Function.update crowd.callers id (some caller)⟩

def move (crowd : Crowd ι W V) : Move ι W V → Crowd ι W V
  | .arrive id key work =>
      match crowd.callers id with
      | none => crowd.place id (.arrive key work) crowd.table
      | some _ => crowd
  | .act id =>
      match crowd.callers id with
      | none => crowd
      | some caller => crowd.place id (caller.act crowd.table).1 (caller.act crowd.table).2
  | .advance id progress =>
      match crowd.callers id with
      | none => crowd
      | some caller =>
          match caller.point with
          | .working flight _ => crowd.place id (caller.progress flight progress) crowd.table
          | _ => crowd
  | .abandon id =>
      match crowd.callers id with
      | none => crowd
      | some caller => crowd.place id caller.abandon crowd.table

def run (crowd : Crowd ι W V) (moves : List (Move ι W V)) : Crowd ι W V :=
  moves.foldl move crowd

def event (crowd : Crowd ι W V) : Event ι W V → Crowd ι W V
  | .move step => crowd.move step
  | .poll id advance =>
      match crowd.callers id with
      | none => crowd
      | some caller =>
          let polled := caller.poll (fun work (_ : Unit) => (advance work, ())) crowd.table ()
          crowd.place id polled.1 polled.2.1
  | .drop id =>
      match crowd.callers id with
      | none => crowd
      | some caller =>
          let left := (caller.abandon.act crowd.table).1.act (caller.abandon.act crowd.table).2
          crowd.place id left.1 (caller.drop crowd.table)

def after (events : List (Event ι W V)) : Crowd ι W V :=
  events.foldl event empty

@[simp]
theorem place_table (crowd : Crowd ι W V) (id : ι) (caller : Caller W V) (table : Table V) :
    (crowd.place id caller table).table = table := rfl

theorem place_callers (crowd : Crowd ι W V) (id other : ι) (caller : Caller W V) (table : Table V) :
    (crowd.place id caller table).callers other =
      if other = id then some caller else crowd.callers other := by
  simp [place, Function.update_apply]

@[simp]
theorem place_callers_self (crowd : Crowd ι W V) (id : ι) (caller : Caller W V) (table : Table V) :
    (crowd.place id caller table).callers id = some caller := by
  rw [place_callers, if_pos rfl]

@[simp]
theorem place_place (crowd : Crowd ι W V) (id : ι) (first second : Caller W V)
    (before after : Table V) :
    (crowd.place id first before).place id second after = crowd.place id second after := by
  simp [place]

theorem place_same (crowd : Crowd ι W V) {id : ι} {caller : Caller W V}
    (here : crowd.callers id = some caller) : crowd.place id caller crowd.table = crowd := by
  rw [place, ← here, Function.update_eq_self]

theorem run_append (crowd : Crowd ι W V) (first second : List (Move ι W V)) :
    crowd.run (first ++ second) = (crowd.run first).run second :=
  List.foldl_append

theorem move_act (crowd : Crowd ι W V) {id : ι} {caller : Caller W V}
    (here : crowd.callers id = some caller) :
    crowd.move (.act id) = crowd.place id (caller.act crowd.table).1 (caller.act crowd.table).2 := by
  simp only [move, here]

theorem move_advance (crowd : Crowd ι W V) {id : ι} {caller : Caller W V} {flight : Nat} {work : W}
    (here : crowd.callers id = some caller) (point : caller.point = .working flight work)
    (progress : Progress W V) :
    crowd.move (.advance id progress) =
      crowd.place id (caller.progress flight progress) crowd.table := by
  simp only [move, here, point]

end Crowd

/-- The possible next steps of a caller, with its next position and the next table. -/
inductive Turn (caller : Caller W V) (table : Table V) : Point W V → Table V → Prop where
  | lead : caller.point = .joining → table.flight? caller.key = none →
      Turn caller table (.working table.channels.length caller.work) (table.join caller.key).2
  | follow {flight : Nat} : caller.point = .joining → table.flight? caller.key = some flight →
      Turn caller table (.following flight) table
  | toil {flight : Nat} {work : W} (left : W) : caller.point = .working flight work →
      Turn caller table (.working flight left) table
  | finish {flight : Nat} {work : W} (value : V) : caller.point = .working flight work →
      Turn caller table (.publishing flight value) table
  | publish {flight : Nat} {value : V} : caller.point = .publishing flight value →
      Turn caller table (.leaving flight value) (table.publish flight value)
  | leave {flight : Nat} {value : V} : caller.point = .leaving flight value →
      Turn caller table (.closing flight value) (table.leave caller.key)
  | close {flight : Nat} {value : V} : caller.point = .closing flight value →
      Turn caller table (.returned value false) (table.close flight)
  | land {flight : Nat} {value : V} : caller.point = .following flight →
      table.look flight = .value value → Turn caller table (.returned value true) table
  | rejoin {flight : Nat} : caller.point = .following flight → table.look flight = .gone →
      Turn caller table .joining table
  | quit {flight : Nat} {work : W} : caller.point = .working flight work →
      Turn caller table (.quitting flight) table
  | retreat {flight : Nat} : caller.point = .quitting flight →
      Turn caller table (.hangingUp flight) (table.leave caller.key)
  | hangUp {flight : Nat} : caller.point = .hangingUp flight →
      Turn caller table .gone (table.close flight)
  | withdraw : caller.point = .joining → Turn caller table .gone table
  | resign {flight : Nat} : caller.point = .following flight → Turn caller table .gone table

def Caller.at (caller : Caller W V) (point : Point W V) : Caller W V := { caller with point }

@[simp]
theorem Caller.at_point (caller : Caller W V) (point : Point W V) :
    (caller.at point).point = point := rfl

@[simp]
theorem Caller.at_key (caller : Caller W V) (point : Point W V) :
    (caller.at point).key = caller.key := rfl

theorem Caller.act_turn (caller : Caller W V) (table : Table V) :
    caller.act table = (caller, table) ∨
      ∃ point next, Turn caller table point next ∧ caller.act table = (caller.at point, next) := by
  cases point : caller.point with
  | joining =>
      cases entry : table.flight? caller.key with
      | none =>
          refine Or.inr ⟨_, _, .lead point entry, ?_⟩
          simp only [act, point, Table.join, entry, Caller.at]
      | some flight =>
          refine Or.inr ⟨_, _, .follow point entry, ?_⟩
          simp only [act, point, Table.join, entry, Caller.at]
  | publishing flight value =>
      exact Or.inr ⟨_, _, .publish point, by simp only [act, point, Caller.at]⟩
  | leaving flight value =>
      exact Or.inr ⟨_, _, .leave point, by simp only [act, point, Caller.at]⟩
  | closing flight value =>
      exact Or.inr ⟨_, _, .close point, by simp only [act, point, Caller.at]⟩
  | following flight =>
      cases sight : table.look flight with
      | value value =>
          exact Or.inr ⟨_, _, .land point sight, by simp only [act, point, sight, Caller.at]⟩
      | gone =>
          exact Or.inr ⟨_, _, .rejoin point sight, by simp only [act, point, sight, Caller.at]⟩
      | pending => exact Or.inl (by simp only [act, point, sight])
  | quitting flight =>
      exact Or.inr ⟨_, _, .retreat point, by simp only [act, point, Caller.at]⟩
  | hangingUp flight =>
      exact Or.inr ⟨_, _, .hangUp point, by simp only [act, point, Caller.at]⟩
  | working flight work => exact Or.inl (by simp only [act, point])
  | returned value shared => exact Or.inl (by simp only [act, point])
  | gone => exact Or.inl (by simp only [act, point])

theorem Caller.progress_turn (caller : Caller W V) (table : Table V) {flight : Nat} {work : W}
    (here : caller.point = .working flight work) (progress : Progress W V) :
    ∃ point, Turn caller table point table ∧ caller.progress flight progress = caller.at point := by
  cases progress with
  | waiting left => exact ⟨_, .toil left here, rfl⟩
  | finished value => exact ⟨_, .finish value here, rfl⟩

theorem Caller.abandon_turn (caller : Caller W V) (table : Table V) :
    caller.abandon = caller ∨
      ∃ point, Turn caller table point table ∧ caller.abandon = caller.at point := by
  cases point : caller.point with
  | working flight work =>
      exact Or.inr ⟨_, .quit point, by simp only [abandon, point, Caller.at]⟩
  | joining => exact Or.inr ⟨_, .withdraw point, by simp only [abandon, point, Caller.at]⟩
  | following flight => exact Or.inr ⟨_, .resign point, by simp only [abandon, point, Caller.at]⟩
  | _ => exact Or.inl (by simp only [abandon, point])

theorem Caller.run_keeps {σ : Type} (advance : W → σ → Progress W V × σ)
    (good : Caller W V → Table V → σ → Prop)
    (acts : ∀ caller table state, good caller table state →
      good (caller.act table).1 (caller.act table).2 state)
    (works : ∀ caller table state flight work, caller.point = .working flight work →
      good caller table state →
      good (caller.progress flight (advance work state).1) table (advance work state).2)
    (steps : Nat) {caller : Caller W V} {table : Table V} {state : σ} (here : good caller table state) :
    good (caller.run advance steps table state).1 (caller.run advance steps table state).2.1
      (caller.run advance steps table state).2.2 := by
  induction steps generalizing caller table state with
  | zero => exact here
  | succ steps ih =>
      have acted := ih (acts caller table state here)
      cases point : caller.point with
      | working flight work =>
          have worked := works caller table state flight work point here
          cases toil : advance work state with
          | mk progress after =>
              rw [toil] at worked
              cases progress with
              | waiting left => simpa only [run, point, toil] using worked
              | finished value => simpa only [run, point, toil] using ih worked
      | following flight =>
          cases sight : table.look flight with
          | pending => simpa only [run, point, sight] using here
          | value value => simpa only [run, point, sight] using acted
          | gone => simpa only [run, point, sight] using acted
      | returned value shared => simpa only [run, point] using here
      | gone => simpa only [run, point] using here
      | _ => simpa only [run, point] using acted

theorem Caller.act_same (caller : Caller W V) (table : Table V) :
    (caller.act table).1.key = caller.key ∧ (caller.act table).1.work = caller.work := by
  rcases caller.act_turn table with stays | ⟨point, next, turn, acts⟩
  · rw [stays]
    exact ⟨rfl, rfl⟩
  · rw [acts]
    exact ⟨rfl, rfl⟩

theorem Caller.abandon_same (caller : Caller W V) :
    caller.abandon.key = caller.key ∧ caller.abandon.work = caller.work := by
  rcases caller.abandon_turn .empty with stays | ⟨point, turn, moved⟩
  · rw [stays]
    exact ⟨rfl, rfl⟩
  · rw [moved]
    exact ⟨rfl, rfl⟩

namespace Crowd

variable [DecidableEq ι]

theorem move_cases (crowd : Crowd ι W V) (step : Move ι W V) :
    crowd.move step = crowd ∨
      (∃ id key work, crowd.callers id = none ∧
        crowd.move step = crowd.place id (.arrive key work) crowd.table) ∨
      ∃ id caller point table, crowd.callers id = some caller ∧
        Turn caller crowd.table point table ∧
        crowd.move step = crowd.place id (caller.at point) table := by
  cases step with
  | arrive id key work =>
      cases here : crowd.callers id with
      | none => exact Or.inr (Or.inl ⟨id, key, work, here, by simp only [move, here]⟩)
      | some caller => exact Or.inl (by simp only [move, here])
  | act id =>
      cases here : crowd.callers id with
      | none => exact Or.inl (by simp only [move, here])
      | some caller =>
          rw [move_act crowd here]
          rcases caller.act_turn crowd.table with stays | ⟨point, table, turn, acts⟩
          · rw [stays]
            exact Or.inl (place_same crowd here)
          · rw [acts]
            exact Or.inr (Or.inr ⟨id, caller, point, table, here, turn, rfl⟩)
  | advance id progress =>
      cases here : crowd.callers id with
      | none => exact Or.inl (by simp only [move, here])
      | some caller =>
          cases point : caller.point with
          | working flight work =>
              obtain ⟨point', turn, moved⟩ := caller.progress_turn crowd.table point progress
              rw [move_advance crowd here point, moved]
              exact Or.inr (Or.inr ⟨id, caller, point', _, here, turn, rfl⟩)
          | _ => exact Or.inl (by simp only [move, here, point])
  | abandon id =>
      cases here : crowd.callers id with
      | none => exact Or.inl (by simp only [move, here])
      | some caller =>
          simp only [move, here]
          rcases caller.abandon_turn crowd.table with stays | ⟨point, turn, moved⟩
          · rw [stays]
            exact Or.inl (place_same crowd here)
          · rw [moved]
            exact Or.inr (Or.inr ⟨id, caller, point, _, here, turn, rfl⟩)

theorem turn_move {crowd : Crowd ι W V} {id : ι} {caller : Caller W V} {point : Point W V}
    {next : Table V} (here : crowd.callers id = some caller) (turn : Turn caller crowd.table point next) :
    ∃ step, crowd.move step = crowd.place id (caller.at point) next := by
  have acts (same : caller.act crowd.table = (caller.at point, next)) :
      ∃ step, crowd.move step = crowd.place id (caller.at point) next :=
    ⟨.act id, by rw [move_act crowd here, same]⟩
  have abandons (same : caller.abandon = caller.at point) (stays : next = crowd.table) :
      ∃ step, crowd.move step = crowd.place id (caller.at point) next :=
    ⟨.abandon id, by simp only [move, here, same, stays]⟩
  cases turn with
  | toil left working => exact ⟨_, move_advance crowd here working (.waiting left)⟩
  | finish value working => exact ⟨_, move_advance crowd here working (.finished value)⟩
  | quit working => exact abandons (by simp only [Caller.abandon, working, Caller.at]) rfl
  | withdraw joining => exact abandons (by simp only [Caller.abandon, joining, Caller.at]) rfl
  | resign following => exact abandons (by simp only [Caller.abandon, following, Caller.at]) rfl
  | lead joining absent =>
      exact acts (by simp only [Caller.act, joining, Table.join, absent, Caller.at])
  | follow joining present =>
      exact acts (by simp only [Caller.act, joining, Table.join, present, Caller.at])
  | land following sight => exact acts (by simp only [Caller.act, following, sight, Caller.at])
  | rejoin following sight => exact acts (by simp only [Caller.act, following, sight, Caller.at])
  | publish here | leave here | close here | retreat here | hangUp here =>
      exact acts (by simp only [Caller.act, here, Caller.at])

theorem run_cons (crowd : Crowd ι W V) (step : Move ι W V) (moves : List (Move ι W V)) :
    crowd.run (step :: moves) = (crowd.move step).run moves := rfl

theorem caller_run_moves {σ : Type} (advance : W → σ → Progress W V × σ) (steps : Nat)
    (crowd : Crowd ι W V) {id : ι} {caller : Caller W V} (here : crowd.callers id = some caller)
    (state : σ) :
    ∃ moves, crowd.run moves =
      crowd.place id (caller.run advance steps crowd.table state).1
        (caller.run advance steps crowd.table state).2.1 := by
  refine Caller.run_keeps advance (fun caller table _ => ∃ moves, crowd.run moves = crowd.place id caller table)
    ?acts ?works steps ⟨[], (place_same crowd here).symm⟩
  case acts =>
      rintro caller table state ⟨moves, ran⟩
      refine ⟨moves ++ [.act id], ?_⟩
      rw [run_append, ran, run_cons, move_act _ (place_callers_self ..), place_place]
      rfl
  case works =>
      rintro caller table state flight work point ⟨moves, ran⟩
      refine ⟨moves ++ [.advance id (advance work state).1], ?_⟩
      rw [run_append, ran, run_cons, move_advance _ (place_callers_self ..) point, place_place]
      rfl

theorem event_moves (crowd : Crowd ι W V) (event : Event ι W V) :
    ∃ moves, crowd.event event = crowd.run moves := by
  cases event with
  | move step => exact ⟨[step], rfl⟩
  | poll id advance =>
      cases here : crowd.callers id with
      | none => exact ⟨[], by simp only [Crowd.event, here]; rfl⟩
      | some caller =>
          obtain ⟨moves, ran⟩ := caller_run_moves
            (fun work (_ : Unit) => (advance work, ())) mostSteps crowd here ()
          exact ⟨moves, by simp only [Crowd.event, here, ran]; rfl⟩
  | drop id =>
      cases here : crowd.callers id with
      | none => exact ⟨[], by simp only [Crowd.event, here]; rfl⟩
      | some caller =>
          refine ⟨[.abandon id, .act id, .act id], ?_⟩
          have abandoned : crowd.move (.abandon id) = crowd.place id caller.abandon crowd.table := by
            simp only [move, here]
          rw [run_cons, run_cons, run_cons, abandoned, move_act _ (place_callers_self ..),
            move_act _ (place_callers_self ..)]
          simp only [Crowd.event, here, place_table, place_place, Caller.drop]
          rfl

theorem after_moves (events : List (Event ι W V)) : ∃ moves, after events = empty.run moves := by
  induction events using List.reverseRecOn with
  | nil => exact ⟨[], rfl⟩
  | append_singleton events event ih =>
      obtain ⟨first, ran⟩ := ih
      obtain ⟨second, more⟩ := (after events).event_moves event
      refine ⟨first ++ second, ?_⟩
      rw [run_append, ← ran, ← more, after, List.foldl_append]
      rfl

end Crowd

end SecretStore.Flight
