import Mathlib.Data.Nat.Count
import SecretStore.Proofs.Flight.Joining

namespace SecretStore.Flight

variable {ι W V : Type}

/-! ## What a caller has left -/

namespace Point

/-- An upper bound of the steps left, unless the leader is lost. -/
def stage : Point W V → Nat
  | .joining => 5
  | .working .. | .following _ => 4
  | .publishing .. => 3
  | .leaving .. | .quitting _ => 2
  | .closing .. | .hangingUp _ => 1
  | .returned .. | .gone => 0

/-- The joins that a lost leader makes necessary. -/
def owed (table : Table V) : Point W V → Nat
  | .following flight =>
    match table.look flight with
    | .gone => 1
    | _ => 0
  | _ => 0

def joinsLeft (table : Table V) (point : Point W V) : Nat :=
  point.owed table + if point.stage = 5 then 1 else 0

def stepsLeft (table : Table V) (point : Point W V) : Nat :=
  point.stage + 2 * point.owed table

variable {table next : Table V} {point : Point W V} {flight : Nat}

theorem stage_eq_five : point.stage = 5 ↔ point = .joining := by
  cases point <;> simp [stage]

theorem owed_gone (gone : table.look flight = .gone) : (following flight : Point W V).owed table = 1 := by
  simp only [owed, gone]

theorem owed_present (present : table.look flight ≠ .gone) : (following flight : Point W V).owed table = 0 := by
  rw [owed]
  split
  · contradiction
  · rfl

theorem owed_le_one : point.owed table ≤ 1 := by
  cases point with
  | following flight => cases sight : table.look flight <;> simp [owed, sight]
  | _ => exact Nat.zero_le _

theorem owed_mono (kept : ∀ flight, point = .following flight → next.look flight = .gone → table.look flight = .gone) :
    point.owed next ≤ point.owed table := by
  cases point with
  | following flight =>
      by_cases gone : next.look flight = .gone
      · rw [owed_gone gone, owed_gone (kept flight rfl gone)]
      · rw [owed_present gone]
        exact Nat.zero_le _
  | _ => exact Nat.le_refl _

theorem joinsLeft_le_one : point.joinsLeft table ≤ 1 := by
  cases point with
  | following flight => simpa [joinsLeft, stage] using owed_le_one
  | _ => simp [joinsLeft, owed, stage]

theorem stepsLeft_le : point.stepsLeft table ≤ 6 := by
  cases point with
  | following flight =>
      have one : (following flight : Point W V).owed table ≤ 1 := owed_le_one
      simp only [stepsLeft, stage]
      omega
  | _ => simp [stepsLeft, owed, stage]

end Point

/-- The potential argument: a step is paid for by what the caller has left, while no entry belongs to a closed
flight. -/
theorem Turn.pays {caller : Caller W V} {table next : Table V} {point : Point W V}
    (turn : Turn caller table point next)
    (fresh : ∀ flight, table.flight? caller.key = some flight → table.look flight ≠ .gone) :
    (if caller.point.stage = 5 ∧ point.stage = 4 then 1 else 0) + point.joinsLeft next ≤ caller.point.joinsLeft table ∧
      (if point.stage ≠ caller.point.stage then 1 else 0) + point.stepsLeft next ≤ caller.point.stepsLeft table := by
  cases turn with
  | follow joining found =>
      have present := Point.owed_present (W := W) (fresh _ found)
      simp [joining, Point.joinsLeft, Point.stepsLeft, Point.stage, present]
  | land following sight | rejoin following sight =>
      simp [following, Point.joinsLeft, Point.stepsLeft, Point.stage, Point.owed, sight]
  | @resign flight following =>
      cases sight : table.look flight <;>
        simp [following, Point.joinsLeft, Point.stepsLeft, Point.stage, Point.owed, sight]
  | lead here _ | toil _ here | finish _ here | publish here | leave here | close here | quit here | retreat here
  | hangUp here | withdraw here =>
      simp [here, Point.joinsLeft, Point.stepsLeft, Point.stage, Point.owed]

theorem Turn.goes {caller : Caller W V} {table next : Table V} {point : Point W V} {flight : Nat}
    (turn : Turn caller table point next) (present : table.look flight ≠ .gone) (gone : next.look flight = .gone) :
    (caller.point = .hangingUp flight ∧ point = .gone) ∨ ∃ value, caller.point = .closing flight value := by
  have elsewhere {other : Nat} {change : Channel V → Channel V} (apart : other ≠ flight) :
      (table.update other change).look flight = table.look flight := by
    rw [Table.look, Table.update_channels, if_neg apart, Table.look]
  cases turn with
  | lead joining absent =>
      rw [Table.join_absent absent, Table.look] at gone
      rcases Nat.lt_trichotomy flight table.channels.length with lt | rfl | late
      · rw [List.getElem?_append_left lt] at gone
        exact absurd gone present
      · simp at gone
      · refine absurd ?_ present
        rw [Table.look, List.getElem?_eq_none (Nat.le_of_lt late)]
  | @publish other value publishing =>
      by_cases same : other = flight
      · subst same
        refine absurd ?_ present
        rw [Table.look, Table.publish, Table.update_channels, if_pos rfl] at gone
        cases found : table.channels[other]? with
        | none => rw [Table.look, found]
        | some channel => simp [found] at gone
      · exact absurd ((elsewhere same).symm.trans gone) present
  | @close other value closing =>
      by_cases same : other = flight
      · exact .inr ⟨value, same ▸ closing⟩
      · exact absurd ((elsewhere same).symm.trans gone) present
  | @hangUp other hangs =>
      by_cases same : other = flight
      · exact .inl ⟨same ▸ hangs, rfl⟩
      · exact absurd ((elsewhere same).symm.trans gone) present
  | _ => exact absurd gone present

/-! ## Polls without a bound -/

inductive Caller.Polls {σ : Type} (advance : W → σ → Progress W V × σ) :
    Nat → Caller W V → Table V → σ → Caller W V × Table V × σ → Prop where
  | ended {caller : Caller W V} {table : Table V} {state : σ} :
      caller.point.IsOver → Polls advance 0 caller table state (caller, table, state)
  | waits {caller : Caller W V} {table : Table V} {state : σ} {flight : Nat} :
      caller.point = .following flight → table.look flight = .pending →
        Polls advance 0 caller table state (caller, table, state)
  | works {caller : Caller W V} {table : Table V} {state after : σ} {flight : Nat} {work left : W} :
      caller.point = .working flight work → advance work state = (.waiting left, after) →
        Polls advance 0 caller table state (caller.at (.working flight left), table, after)
  | finishes {caller : Caller W V} {table : Table V} {state after : σ} {flight joins : Nat} {work : W} {value : V}
      {result : Caller W V × Table V × σ} :
      caller.point = .working flight work → advance work state = (.finished value, after) →
        Polls advance joins (caller.at (.publishing flight value)) table after result →
          Polls advance joins caller table state result
  | joins {caller : Caller W V} {table : Table V} {state : σ} {joins : Nat} {result : Caller W V × Table V × σ} :
      caller.point = .joining → Polls advance joins (caller.act table).1 (caller.act table).2 state result →
        Polls advance (joins + 1) caller table state result
  | acts {caller : Caller W V} {table : Table V} {state : σ} {joins : Nat} {result : Caller W V × Table V × σ} :
      caller.point ≠ .joining → (caller.act table).1.point.stage ≠ caller.point.stage →
        Polls advance joins (caller.act table).1 (caller.act table).2 state result →
          Polls advance joins caller table state result

def Point.IsAbandoned : Point W V → Prop
  | .quitting _ | .hangingUp _ | .gone => True
  | _ => False

section Polls

variable {σ : Type} {advance : W → σ → Progress W V × σ} {caller : Caller W V} {table : Table V} {state : σ}
  {joins : Nat} {result : Caller W V × Table V × σ}

theorem Caller.Polls.idle (polls : caller.Polls advance joins table state result) :
    result.1.point.IsOver ∨ (∃ flight work, result.1.point = .working flight work) ∨
      ∃ flight, result.1.point = .following flight ∧ result.2.1.look flight = .pending := by
  induction polls with
  | ended isOver => exact .inl isOver
  | waits following pending => exact .inr (.inr ⟨_, following, pending⟩)
  | works working _ => exact .inr (.inl ⟨_, _, rfl⟩)
  | finishes _ _ _ ih | joins _ _ ih | acts _ _ _ ih => exact ih

theorem Caller.run_succ (advance : W → σ → Progress W V × σ) (caller : Caller W V) (table : Table V) (state : σ)
    (steps : Nat) :
    caller.Polls advance 0 table state (caller.run advance (steps + 1) table state) ∨
      (∃ flight work value after, caller.point = .working flight work ∧ advance work state = (.finished value, after) ∧
        caller.run advance (steps + 1) table state =
          (caller.at (.publishing flight value)).run advance steps table after) ∨
      ((caller.act table).1.point.stage ≠ caller.point.stage ∧ caller.run advance (steps + 1) table state =
        (caller.act table).1.run advance steps (caller.act table).2 state) := by
  cases point : caller.point with
  | working flight work =>
      cases advanced : advance work state with
      | mk progress after =>
          cases progress with
          | waiting left =>
              refine .inl ?_
              simp only [run, point, advanced]
              exact .works point advanced
          | finished value =>
              refine .inr (.inl ⟨flight, work, value, after, rfl, advanced, ?_⟩)
              simp only [run, point, advanced]
              rfl
  | following flight =>
      cases sight : table.look flight with
      | pending =>
          refine .inl ?_
          simp only [run, point, sight]
          exact .waits point sight
      | value _ | gone =>
          exact .inr (.inr ⟨by simp [act, point, sight, Point.stage], by simp only [run, point, sight]⟩)
  | returned _ _ | gone =>
      refine .inl ?_
      simp only [run, point]
      exact .ended (by rw [point]; trivial)
  | joining =>
      refine .inr (.inr ⟨?_, by simp only [run, point]⟩)
      cases entry : table.flight? caller.key <;> simp [act, point, Table.join, entry, Point.stage]
  | _ => exact .inr (.inr ⟨by simp [act, point, Point.stage], by simp only [run, point]⟩)

theorem Caller.act_joining (joining : caller.point = .joining) : (caller.act table).1.point.stage = 4 := by
  cases entry : table.flight? caller.key <;> simp [act, joining, Table.join, entry, Point.stage]

theorem Caller.act_abandoned (abandoned : (caller.act table).1.point.IsAbandoned) : caller.point.IsAbandoned := by
  cases point : caller.point with
  | joining =>
      cases entry : table.flight? caller.key <;>
        simp [act, point, Table.join, entry, Point.IsAbandoned] at abandoned
  | following flight =>
      cases sight : table.look flight <;> simp [act, point, sight, Point.IsAbandoned] at abandoned
  | quitting _ | hangingUp _ | gone => trivial
  | _ => simp [act, point, Point.IsAbandoned] at abandoned

theorem Caller.Polls.gone (polls : caller.Polls advance joins table state result)
    (gone : result.1.point = .gone) : caller.point.IsAbandoned := by
  induction polls with
  | ended _ =>
      rw [gone]
      trivial
  | waits following _ =>
      rw [gone] at following
      cases following
  | works _ _ => cases gone
  | finishes _ _ _ ih => exact (ih gone).elim
  | joins _ _ ih | acts _ _ _ ih => exact act_abandoned (ih gone)

end Polls

/-! ## Polls end -/

namespace Crowd

variable {crowd : Crowd ι W V} {id : ι} {caller : Caller W V}

/-- Only the caller's work or a leader that can still send can let it go on. -/
inductive Idle (crowd : Crowd ι W V) (id : ι) (caller : Caller W V) : Prop where
  | returned (value : V) (shared : Bool) : caller.point = .returned value shared → Idle crowd id caller
  | gone : caller.point = .gone → Idle crowd id caller
  | works (flight : Nat) (work : W) : caller.point = .working flight work → Idle crowd id caller
  | waits (flight : Nat) (sender : ι) : caller.point = .following flight → crowd.table.look flight = .pending →
      crowd.table.IsOpen flight → sender ≠ id → crowd.Holds sender flight → Idle crowd id caller

theorem Sound.fresh (sound : crowd.Sound) (key : String) (flight : Nat)
    (found : crowd.table.flight? key = some flight) : crowd.table.look flight ≠ .gone := by
  obtain ⟨leader, leads⟩ := (sound.entry_iff key flight).1 (Table.mem_of_flight? found)
  exact ((sound.open_iff flight).2 ⟨leader, leads.holds⟩).look_ne_gone

theorem Sound.idle_of_pending (sound : crowd.Sound) {flight : Nat} (here : crowd.callers id = some caller)
    (following : caller.point = .following flight) (pending : crowd.table.look flight = .pending) :
    crowd.Idle id caller := by
  have isOpen := Table.isOpen_of_pending pending
  obtain ⟨sender, holds⟩ := (sound.open_iff flight).1 isOpen
  refine .waits flight sender following pending isOpen ?_ holds
  rintro rfl
  obtain ⟨caller', here', sends⟩ := holds
  rw [here, Option.some.injEq] at here'
  subst here'
  simp [following, Point.sends, Point.guards] at sends

theorem Sound.idle_iff (sound : crowd.Sound) (here : crowd.callers id = some caller) :
    crowd.Idle id caller ↔ (caller.act crowd.table).1.point.stage = caller.point.stage := by
  constructor
  · intro idle
    cases idle with
    | returned _ _ point | gone point | works _ _ point => simp only [Caller.act, point]
    | waits flight sender point pending => simp only [Caller.act, point, pending]
  · intro same
    cases point : caller.point with
    | returned value shared => exact .returned value shared point
    | gone => exact .gone point
    | working flight work => exact .works flight work point
    | following flight =>
        refine sound.idle_of_pending here point ?_
        cases sight : crowd.table.look flight <;> simp_all [Caller.act, Point.stage]
    | joining =>
        rw [Caller.act_joining point, point] at same
        cases same
    | _ => simp [Caller.act, point, Point.stage] at same

theorem Sound.idle_of_polls {σ : Type} {advance : W → σ → Progress W V × σ} {table : Table V} {state : σ} {joins : Nat}
    {result : Caller W V × Table V × σ} (polls : caller.Polls advance joins table state result)
    (sound : crowd.Sound) (here : crowd.callers id = some result.1) (same : crowd.table = result.2.1) :
    crowd.Idle id result.1 := by
  rcases polls.idle with isOver | ⟨flight, work, working⟩ | ⟨flight, following, pending⟩
  · cases point : result.1.point with
    | returned value shared => exact .returned value shared point
    | gone => exact .gone point
    | _ => simp [point, Point.IsOver] at isOver
  · exact .works flight work working
  · exact sound.idle_of_pending here following (same ▸ pending)

variable [DecidableEq ι]

theorem polls_run {σ : Type} (advance : W → σ → Progress W V × σ) (sound : crowd.Sound)
    (here : crowd.callers id = some caller) {steps : Nat} (enough : caller.point.stepsLeft crowd.table < steps)
    (state : σ) :
    ∃ joins ≤ caller.point.joinsLeft crowd.table,
      caller.Polls advance joins crowd.table state (caller.run advance steps crowd.table state) := by
  induction steps generalizing crowd caller state with
  | zero => exact absurd enough (Nat.not_lt_zero _)
  | succ steps ih =>
      rcases caller.run_succ advance crowd.table state steps with stops |
          ⟨flight, work, value, after, working, finished, runs⟩ | ⟨moves, runs⟩
      · exact ⟨0, Nat.zero_le _, stops⟩
      · have turn : Turn caller crowd.table (.publishing flight value) crowd.table := .finish value working
        have less : (Point.publishing flight value : Point W V).stepsLeft crowd.table < steps := by
          simp only [working, Point.stepsLeft, Point.stage, Point.owed] at enough ⊢
          omega
        obtain ⟨joins, le, polls⟩ := ih (sound.turn here turn) (place_callers_self ..) less after
        rw [runs]
        exact ⟨joins, Nat.le_trans le (Nat.zero_le _), .finishes working finished polls⟩
      · rcases caller.act_turn crowd.table with same | ⟨point, next, turn, acts⟩
        · exact absurd (by rw [same]) moves
        · obtain ⟨joinPaid, stepPaid⟩ := turn.pays (sound.fresh caller.key)
          have stage : (caller.act crowd.table).1.point.stage = point.stage := by rw [acts, Caller.at_point]
          rw [if_pos (stage ▸ moves)] at stepPaid
          have less : point.stepsLeft next < steps := by omega
          obtain ⟨joins, le, polls⟩ := ih (sound.turn here turn) (place_callers_self ..) less state
          rw [Caller.at_point, place_table] at le
          have rest : (caller.act crowd.table).1.Polls advance joins (caller.act crowd.table).2 state
              ((caller.act crowd.table).1.run advance steps (caller.act crowd.table).2 state) := by
            rw [acts]
            exact polls
          rw [runs]
          by_cases joining : caller.point = .joining
          · rw [← stage, Caller.act_joining joining, Point.stage_eq_five.2 joining, if_pos ⟨rfl, rfl⟩] at joinPaid
            exact ⟨joins + 1, by omega, .joins joining rest⟩
          · exact ⟨joins, by omega, .acts joining moves rest⟩

/-! ## Leaders that are lost -/

variable {moves : List (Move ι W V)} {time : Nat}

/-- The leader that a caller follows was abandoned and closes its channel at this time. -/
structure Loses (moves : List (Move ι W V)) (time : Nat) (id leader : ι) : Prop where
  other : leader ≠ id
  same_key : ∃ key, HasKey moves time id key ∧ HasKey moves time leader key
  dropped : ∃ flight, pointAt moves time id = some (.following flight) ∧
    (∃ start < time, (∃ work, pointAt moves start leader = some (.working flight work)) ∧ Dropped moves start leader) ∧
    pointAt moves time leader = some (.hangingUp flight) ∧ pointAt moves (time + 1) leader = some .gone

theorem exists_turn {point : Point W V} (here : pointAt moves time id = some point) (come : point ≠ .joining) :
    ∃ start < time, ∃ caller next, pointAt moves start id = some caller.point ∧
      Turn caller (crowdAt moves start).table point next ∧ pointAt moves (start + 1) id = some point := by
  induction time with
  | zero => simp [pointAt, crowdAt, run, empty] at here
  | succ time ih =>
      rcases pointAt_cases moves time id with same | ⟨-, came⟩ | ⟨caller, last, next, before, -, turn, after⟩
      · obtain ⟨start, lt, turned⟩ := ih (same ▸ here)
        exact ⟨start, by omega, turned⟩
      · rw [came, Option.some.injEq] at here
        exact absurd here.symm come
      · rw [after, Option.some.injEq] at here
        subst here
        exact ⟨time, Nat.lt_succ_self _, caller, next, before, turn, after⟩

theorem dropped_of_hangingUp {flight : Nat} (hangs : pointAt moves time id = some (.hangingUp flight)) :
    ∃ start < time, (∃ work, pointAt moves start id = some (.working flight work)) ∧ Dropped moves start id := by
  obtain ⟨late, lt, caller, next, quits, turn, -⟩ := exists_turn hangs nofun
  cases turn with
  | retreat quitting =>
      rw [quitting] at quits
      obtain ⟨start, before, caller, next, works, turn, after⟩ := exists_turn quits nofun
      cases turn with
      | quit working =>
          rw [working] at works
          exact ⟨start, by omega, ⟨_, works⟩, .inl ⟨_, _, works, after⟩⟩

theorem settled_of_closing {flight : Nat} {value : V}
    (closing : pointAt moves time id = some (.closing flight value)) : Settled moves time flight := by
  obtain ⟨start, lt, caller, next, leaves, turn, -⟩ := exists_turn closing nofun
  cases turn with
  | leave leaving =>
      rw [leaving] at leaves
      exact (settled_of_leaving leaves).stays (Nat.le_of_lt lt)

theorem same_key_of_holds {flight : Nat} {leader : ι} (here : pointAt moves time id = some (.following flight))
    (holds : (crowdAt moves time).Holds leader flight) :
    ∃ key, HasKey moves time id key ∧ HasKey moves time leader key := by
  obtain ⟨caller, present, following⟩ := Option.map_eq_some_iff.1 here
  obtain ⟨start, le, follows, entry⟩ := entry_of_follows ⟨caller, present, rfl, following⟩
  obtain ⟨other, leads⟩ := ((sound_crowdAt moves start).entry_iff _ _).1 entry
  obtain rfl := holder_unique_ever leads.holds holds
  exact ⟨caller.key, ⟨caller, present, rfl⟩, (guards_of_leads leads).1.stays le⟩

theorem loses_of_gone {flight : Nat} (here : pointAt moves time id = some (.following flight))
    (still : pointAt moves (time + 1) id = some (.following flight))
    (present : (crowdAt moves time).table.look flight ≠ .gone)
    (gone : (crowdAt moves (time + 1)).table.look flight = .gone) : ∃ leader, Loses moves time id leader := by
  rcases crowdAt_cases moves time with same | ⟨other, key, work, -, came⟩ |
      ⟨leader, caller, point, table, there, turn, moved⟩
  · exact absurd (same ▸ gone) present
  · exact absurd (by rwa [came, place_table] at gone) present
  · have before := pointAt_of_callers there
    have after : pointAt moves (time + 1) leader = some point := by
      rw [pointAt, moved, place_callers_self, Option.map_some, Caller.at_point]
    rw [moved, place_table] at gone
    rcases turn.goes present gone with ⟨hangs, left⟩ | ⟨value, closing⟩
    · rw [hangs] at before
      have holds : (crowdAt moves time).Holds leader flight := ⟨caller, there, by rw [hangs]; rfl⟩
      refine ⟨leader, ?_, same_key_of_holds here holds, flight, here, dropped_of_hangingUp before, before,
        left ▸ after⟩
      rintro rfl
      simp [before] at here
    · rw [closing] at before
      obtain ⟨value, look⟩ := (settled_of_closing before).succ.look
      rw [moved, place_table, gone] at look
      cases look

theorem Loses.gone {leader : ι} {instant : Nat} (loses : Loses moves instant id leader) (lt : instant < time) :
    pointAt moves time leader = some .gone := by
  obtain ⟨flight, -, -, -, gone⟩ := loses.dropped
  obtain ⟨point, here, rfl⟩ := pointAt_stays (· = .gone) lt
    (fun caller table point next turn good => by cases turn <;> simp_all) ⟨_, gone, rfl⟩
  exact here

/-! ## Counting -/

def standsAt (moves : List (Move ι W V)) (time : Nat) (id : ι) : Point W V :=
  (pointAt moves time id).getD .joining

theorem standsAt_of_point {point : Point W V} (here : pointAt moves time id = some point) :
    standsAt moves time id = point := by
  rw [standsAt, here, Option.getD_some]

theorem standsAt_following {flight : Nat} :
    standsAt moves time id = .following flight ↔ pointAt moves time id = some (.following flight) := by
  rw [standsAt]
  cases pointAt moves time id <;> simp

theorem standsAt_cases (moves : List (Move ι W V)) (time : Nat) (id : ι) :
    standsAt moves (time + 1) id = standsAt moves time id ∨
      ∃ caller point table, (crowdAt moves time).callers id = some caller ∧
        Turn caller (crowdAt moves time).table point table ∧ pointAt moves (time + 1) id = some point ∧
        (crowdAt moves (time + 1)).table = table := by
  rcases crowdAt_cases moves time with same | ⟨other, key, work, absent, came⟩ |
      ⟨other, caller, point, table, here, turn, moved⟩
  · exact .inl (by rw [standsAt, standsAt, pointAt, pointAt, same])
  · refine .inl ?_
    rw [standsAt, standsAt, pointAt, pointAt, came, place_callers]
    split
    · subst_vars
      rw [absent]
      rfl
    · rfl
  · by_cases own : id = other
    · subst own
      exact .inr ⟨caller, point, table, here, turn, by rw [pointAt, moved, place_callers_self]; rfl,
        by rw [moved, place_table]⟩
    · exact .inl (by rw [standsAt, standsAt, pointAt, pointAt, moved, place_callers, if_neg own])

theorem joins_iff : (∃ flight, Joins moves time id flight) ↔
    (standsAt moves time id).stage = 5 ∧ (standsAt moves (time + 1) id).stage = 4 := by
  constructor
  · rintro ⟨flight, joining, follows | ⟨work, works⟩⟩
    · simp [standsAt, joining, follows, Point.stage]
    · simp [standsAt, joining, works, Point.stage]
  · rintro ⟨first, second⟩
    rcases standsAt_cases moves time id with same | ⟨caller, point, table, here, turn, after, -⟩
    · rw [same, first] at second
      cases second
    · have before := pointAt_of_callers here
      rw [standsAt_of_point before, Point.stage_eq_five] at first
      rw [standsAt_of_point after] at second
      rw [first] at before
      cases turn with
      | lead _ _ => exact ⟨_, before, .inr ⟨_, after⟩⟩
      | follow _ _ => exact ⟨_, before, .inl after⟩
      | withdraw _ => cases second
      | _ => simp_all

instance (moves : List (Move ι W V)) (time : Nat) (id : ι) : Decidable (∃ flight, Joins moves time id flight) :=
  decidable_of_iff' _ joins_iff

def joinsBefore (moves : List (Move ι W V)) (id : ι) (time : Nat) : Nat :=
  Nat.count (fun instant => ∃ flight, Joins moves instant id flight) time

def stepsBefore (moves : List (Move ι W V)) (id : ι) (time : Nat) : Nat :=
  Nat.count (fun instant => (standsAt moves (instant + 1) id).stage ≠ (standsAt moves instant id).stage) time

theorem joinsBefore_succ (moves : List (Move ι W V)) (id : ι) (time : Nat) :
    joinsBefore moves id (time + 1) = joinsBefore moves id time +
      if (standsAt moves time id).stage = 5 ∧ (standsAt moves (time + 1) id).stage = 4 then 1 else 0 := by
  rw [joinsBefore, Nat.count_succ, joinsBefore]
  simp only [joins_iff]

theorem stepsBefore_succ (moves : List (Move ι W V)) (id : ι) (time : Nat) :
    stepsBefore moves id (time + 1) = stepsBefore moves id time +
      if (standsAt moves (time + 1) id).stage ≠ (standsAt moves time id).stage then 1 else 0 := by
  rw [stepsBefore, Nat.count_succ, stepsBefore]

theorem pays (moves : List (Move ι W V)) (time : Nat) (id : ι) :
    ∃ lost ≤ 1, (lost = 1 → ∃ leader, Loses moves time id leader) ∧
      joinsBefore moves id (time + 1) + (standsAt moves (time + 1) id).joinsLeft (crowdAt moves (time + 1)).table ≤
        joinsBefore moves id time + (standsAt moves time id).joinsLeft (crowdAt moves time).table + lost ∧
      stepsBefore moves id (time + 1) + (standsAt moves (time + 1) id).stepsLeft (crowdAt moves (time + 1)).table ≤
        stepsBefore moves id time + (standsAt moves time id).stepsLeft (crowdAt moves time).table + 2 * lost := by
  rw [joinsBefore_succ, stepsBefore_succ]
  rcases standsAt_cases moves time id with same | ⟨caller, point, table, here, turn, after, rfl⟩
  · have still : ¬ ((standsAt moves time id).stage = 5 ∧ (standsAt moves (time + 1) id).stage = 4) := by
      rintro ⟨first, second⟩
      rw [same, first] at second
      cases second
    rw [if_neg still, same, if_neg (not_not.2 rfl)]
    -- The caller has not moved, so at most the flight that it follows is another's doing.
    by_cases kept : (standsAt moves time id).owed (crowdAt moves (time + 1)).table ≤
        (standsAt moves time id).owed (crowdAt moves time).table
    · exact ⟨0, by omega, by omega, by simp only [Point.joinsLeft]; omega, by simp only [Point.stepsLeft]; omega⟩
    · have one : (standsAt moves time id).owed (crowdAt moves (time + 1)).table ≤ 1 := Point.owed_le_one
      refine ⟨1, by omega, fun _ => ?_, by simp only [Point.joinsLeft]; omega, by simp only [Point.stepsLeft]; omega⟩
      by_contra none
      refine kept (Point.owed_mono fun flight following gone => ?_)
      by_contra present
      have before := standsAt_following.1 following
      exact none (loses_of_gone before (standsAt_following.1 (same.trans following)) present gone)
  · have paid := turn.pays ((sound_crowdAt moves time).fresh caller.key)
    rw [standsAt_of_point (pointAt_of_callers here), standsAt_of_point after]
    exact ⟨0, by omega, by omega, by omega, by omega⟩

theorem exists_lost (moves : List (Move ι W V)) (time : Nat) (id : ι) :
    ∃ leaders : List ι, leaders.Nodup ∧ (∀ leader ∈ leaders, ∃ instant < time, Loses moves instant id leader) ∧
      joinsBefore moves id time + (standsAt moves time id).joinsLeft (crowdAt moves time).table ≤ leaders.length + 1 ∧
      stepsBefore moves id time + (standsAt moves time id).stepsLeft (crowdAt moves time).table ≤
        2 * leaders.length + 5 := by
  induction time with
  | zero => exact ⟨[], List.nodup_nil, by simp, Nat.le_refl _, Nat.le_refl _⟩
  | succ time ih =>
      obtain ⟨leaders, distinct, lost, joins, steps⟩ := ih
      have earlier (leader : ι) (member : leader ∈ leaders) : ∃ instant < time + 1, Loses moves instant id leader := by
        obtain ⟨instant, lt, loses⟩ := lost leader member
        exact ⟨instant, by omega, loses⟩
      obtain ⟨gain, le, more, joinPaid, stepPaid⟩ := pays moves time id
      rcases Nat.le_one_iff_eq_zero_or_eq_one.1 le with rfl | rfl
      · exact ⟨leaders, distinct, earlier, by omega, by omega⟩
      · obtain ⟨leader, loses⟩ := more rfl
        have new : leader ∉ leaders := by
          intro member
          obtain ⟨instant, lt, before⟩ := lost leader member
          obtain ⟨flight, -, -, hangs, -⟩ := loses.dropped
          simp [before.gone lt] at hangs
        refine ⟨leader :: leaders, List.nodup_cons.2 ⟨new, distinct⟩, ?_, ?_, ?_⟩
        · rintro other (_ | ⟨_, member⟩)
          · exact ⟨time, Nat.lt_succ_self _, loses⟩
          · exact earlier other member
        · rw [List.length_cons]
          omega
        · rw [List.length_cons]
          omega

/-! ## The statement -/

/-- A caller joins once, and once more for each leader that it has lost. Its polls end. -/
structure Steady (moves : List (Move ι W V)) : Prop where
  bounded : ∀ time id, ∃ leaders : List ι, leaders.Nodup ∧
    (∀ leader ∈ leaders, ∃ instant < time, Loses moves instant id leader) ∧
      joinsBefore moves id time ≤ leaders.length + 1 ∧ stepsBefore moves id time ≤ 2 * leaders.length + 5
  idle_iff : ∀ time id caller, (crowdAt moves time).callers id = some caller →
    ((crowdAt moves time).Idle id caller ↔
      (caller.act (crowdAt moves time).table).1.point.stage = caller.point.stage)
  polls : ∀ {σ : Type} (advance : W → σ → Progress W V × σ) (state : σ) (time : Nat) (id : ι) (caller : Caller W V),
    (crowdAt moves time).callers id = some caller →
      let result := caller.poll advance (crowdAt moves time).table state
      (∃ joins ≤ 1, caller.Polls advance joins (crowdAt moves time).table state result) ∧
        ((crowdAt moves time).place id result.1 result.2.1).Idle id result.1 ∧
        (result.1.point = .gone → caller.point.IsAbandoned)

/-- In every interleaving a caller joins again only if a leader of its key has been abandoned since, and no closed
flight keeps it busy. -/
theorem never_spins (moves : List (Move ι W V)) : Steady moves where
  bounded time id := by
    obtain ⟨leaders, distinct, lost, joins, steps⟩ := exists_lost moves time id
    exact ⟨leaders, distinct, lost, Nat.le_trans (Nat.le_add_right _ _) joins,
      Nat.le_trans (Nat.le_add_right _ _) steps⟩
  idle_iff time id caller here := (sound_crowdAt moves time).idle_iff here
  polls {σ} advance state time id caller here := by
    have sound := sound_crowdAt moves time
    obtain ⟨joins, le, polls⟩ := polls_run advance sound here (Nat.lt_succ_of_le Point.stepsLeft_le) state
    obtain ⟨more, ran⟩ := caller_run_moves advance mostSteps (crowdAt moves time) here state
    refine ⟨⟨joins, Nat.le_trans le Point.joinsLeft_le_one, polls⟩, ?_, polls.gone⟩
    exact Sound.idle_of_polls polls (ran ▸ sound.run more) (place_callers_self ..) (place_table ..)

example :
    let moves : List (Move (Fin 2) Unit Nat) := [.arrive 0 "k" (), .act 0, .arrive 1 "k" (), .act 1,
      .abandon 0, .act 0, .act 0, .act 1, .act 1]
    joinsBefore moves 1 9 = 2 ∧ stepsBefore moves 1 9 = 3 := by decide

end Crowd

end SecretStore.Flight
