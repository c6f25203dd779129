import Mathlib.Data.List.Nodup
import SecretStore.Proofs.Flight.Crowd

namespace SecretStore.Flight

variable {ι W V : Type}

/-- The flight whose entry the caller has still to remove from the table. -/
def Point.guards : Point W V → Option Nat
  | .working flight _ | .publishing flight _ | .leaving flight _ | .quitting flight => some flight
  | _ => none

/-- The flight whose channel the caller has still to close. -/
def Point.sends : Point W V → Option Nat
  | .closing flight _ | .hangingUp flight => some flight
  | point => point.guards

def Point.AtRest : Point W V → Prop
  | .joining | .working .. | .following _ | .returned .. | .gone => True
  | _ => False

def Point.IsOver : Point W V → Prop
  | .returned .. | .gone => True
  | _ => False

theorem Point.sends_of_guards {point : Point W V} {flight : Nat}
    (guards : point.guards = some flight) : point.sends = some flight := by
  cases point <;> simp_all [Point.guards, Point.sends]

/-! ## Tables -/

namespace Table

def IsOpen (table : Table V) (flight : Nat) : Prop :=
  ∃ channel, table.channels[flight]? = some channel ∧ channel.live = true

theorem flight?_eq_none {table : Table V} {key : String} :
    table.flight? key = none ↔ ∀ flight, (key, flight) ∉ table.entries := by
  simp only [flight?, Option.map_eq_none_iff, List.find?_eq_none, decide_eq_true_eq, Prod.forall]
  constructor
  · intro absent flight mem
    exact absent key flight mem rfl
  · rintro absent key' flight mem rfl
    exact absent flight mem

theorem mem_of_flight? {table : Table V} {key : String} {flight : Nat}
    (found : table.flight? key = some flight) : (key, flight) ∈ table.entries := by
  simp only [flight?, Option.map_eq_some_iff] at found
  obtain ⟨⟨key', flight'⟩, found, rfl⟩ := found
  have same : key' = key := by simpa using List.find?_some found
  subst same
  exact List.mem_of_find?_eq_some found

theorem flight?_isSome {table : Table V} {key : String} :
    (table.flight? key).isSome ↔ ∃ flight, (key, flight) ∈ table.entries := by
  rw [Option.isSome_iff_ne_none, ne_eq, flight?_eq_none]
  simp only [not_forall, not_not]

theorem join_absent {table : Table V} {key : String} (absent : table.flight? key = none) :
    (table.join key).2 =
      ⟨(key, table.channels.length) :: table.entries, table.channels ++ [⟨none, true⟩]⟩ := by
  simp only [join, absent]

theorem update_channels (table : Table V) (flight other : Nat) (change : Channel V → Channel V) :
    (table.update flight change).channels[other]? =
      if flight = other then table.channels[other]?.map change else table.channels[other]? := by
  simp only [update, List.getElem?_modify]
  split <;> simp

@[simp]
theorem publish_isOpen (table : Table V) (flight other : Nat) (value : V) :
    (table.publish flight value).IsOpen other ↔ table.IsOpen other := by
  simp only [IsOpen, publish, update_channels]
  split
  · cases table.channels[other]? <;> simp
  · rfl

theorem close_isOpen (table : Table V) (flight other : Nat) :
    (table.close flight).IsOpen other ↔ table.IsOpen other ∧ other ≠ flight := by
  simp only [IsOpen, close, update_channels]
  by_cases same : flight = other
  · subst same
    cases table.channels[flight]? <;> simp
  · simp [same, Ne.symm same]

theorem join_isOpen {table : Table V} {key : String} (absent : table.flight? key = none)
    (flight : Nat) :
    (table.join key).2.IsOpen flight ↔ table.IsOpen flight ∨ flight = table.channels.length := by
  rw [join_absent absent]
  simp only [IsOpen]
  rcases Nat.lt_trichotomy flight table.channels.length with short | rfl | long
  · rw [List.getElem?_append_left short]
    simp [Nat.ne_of_lt short]
  · simp
  · rw [List.getElem?_eq_none (by simp; omega), List.getElem?_eq_none (by omega)]
    simp only [reduceCtorEq, false_and, exists_false, false_or, false_iff]
    omega

theorem IsOpen.lt_length {table : Table V} {flight : Nat} (isOpen : table.IsOpen flight) :
    flight < table.channels.length := by
  obtain ⟨channel, found, -⟩ := isOpen
  exact (List.getElem?_eq_some_iff.mp found).1

theorem IsOpen.look_ne_gone {table : Table V} {flight : Nat} (isOpen : table.IsOpen flight) :
    table.look flight ≠ .gone := by
  obtain ⟨⟨value, live⟩, found, rfl⟩ := isOpen
  rw [look, found]
  cases value <;> simp

theorem isOpen_of_pending {table : Table V} {flight : Nat} (pending : table.look flight = .pending) :
    table.IsOpen flight := by
  unfold look at pending
  split at pending
  · cases pending
  · rename_i found
    exact ⟨_, found, rfl⟩
  · cases pending
  · cases pending

end Table

/-! ## What a turn does to entries and channels -/

theorem Turn.entries {caller : Caller W V} {table next : Table V} {point : Point W V}
    (turn : Turn caller table point next) :
    (point.guards = caller.point.guards ∧ next.entries = table.entries) ∨
    (caller.point.guards = none ∧ point.guards = some table.channels.length ∧
      table.flight? caller.key = none ∧
      next.entries = (caller.key, table.channels.length) :: table.entries) ∨
    (∃ flight, caller.point.guards = some flight ∧ point.guards = none ∧
      next.entries = table.entries.filter (·.1 ≠ caller.key)) := by
  cases turn with
  | lead here absent =>
      refine Or.inr (Or.inl ⟨by rw [here]; rfl, rfl, absent, ?_⟩)
      rw [Table.join_absent absent]
  | leave here => exact Or.inr (Or.inr ⟨_, by rw [here]; rfl, rfl, rfl⟩)
  | retreat here => exact Or.inr (Or.inr ⟨_, by rw [here]; rfl, rfl, rfl⟩)
  | toil left here => exact Or.inl ⟨by rw [here]; rfl, rfl⟩
  | finish value here => exact Or.inl ⟨by rw [here]; rfl, rfl⟩
  | follow here _ | publish here | close here | land here _ | rejoin here _ | quit here
  | hangUp here | withdraw here | resign here => exact Or.inl ⟨by rw [here]; rfl, rfl⟩

theorem Turn.channels {caller : Caller W V} {table next : Table V} {point : Point W V}
    (turn : Turn caller table point next) :
    (point.sends = caller.point.sends ∧ ∀ flight, next.IsOpen flight ↔ table.IsOpen flight) ∨
    (caller.point.sends = none ∧ point.sends = some table.channels.length ∧
      ∀ flight, next.IsOpen flight ↔ table.IsOpen flight ∨ flight = table.channels.length) ∨
    (∃ mine, caller.point.sends = some mine ∧ point.sends = none ∧
      ∀ flight, next.IsOpen flight ↔ table.IsOpen flight ∧ flight ≠ mine) := by
  cases turn with
  | lead here absent =>
      exact Or.inr (Or.inl ⟨by rw [here]; rfl, rfl, Table.join_isOpen absent⟩)
  | close here => exact Or.inr (Or.inr ⟨_, by rw [here]; rfl, rfl, table.close_isOpen _⟩)
  | hangUp here => exact Or.inr (Or.inr ⟨_, by rw [here]; rfl, rfl, table.close_isOpen _⟩)
  | publish here => exact Or.inl ⟨by rw [here]; rfl, fun _ => table.publish_isOpen ..⟩
  | toil left here => exact Or.inl ⟨by rw [here]; rfl, fun _ => Iff.rfl⟩
  | finish value here => exact Or.inl ⟨by rw [here]; rfl, fun _ => Iff.rfl⟩
  | follow here _ | leave here | land here _ | rejoin here _ | quit here | retreat here
  | withdraw here | resign here => exact Or.inl ⟨by rw [here]; rfl, fun _ => Iff.rfl⟩

namespace Crowd

/-! ## Leaders -/

def Leads (crowd : Crowd ι W V) (id : ι) (key : String) (flight : Nat) : Prop :=
  ∃ caller, crowd.callers id = some caller ∧ caller.key = key ∧ caller.point.guards = some flight

def Holds (crowd : Crowd ι W V) (id : ι) (flight : Nat) : Prop :=
  ∃ caller, crowd.callers id = some caller ∧ caller.point.sends = some flight

def Works (crowd : Crowd ι W V) (id : ι) (key : String) : Prop :=
  ∃ caller flight work,
    crowd.callers id = some caller ∧ caller.key = key ∧ caller.point = .working flight work

theorem Leads.holds {crowd : Crowd ι W V} {id : ι} {key : String} {flight : Nat}
    (leads : crowd.Leads id key flight) : crowd.Holds id flight := by
  obtain ⟨caller, here, -, guards⟩ := leads
  exact ⟨caller, here, Point.sends_of_guards guards⟩

theorem Works.leads {crowd : Crowd ι W V} {id : ι} {key : String} (works : crowd.Works id key) :
    ∃ flight, crowd.Leads id key flight := by
  obtain ⟨caller, flight, work, here, same, point⟩ := works
  exact ⟨flight, caller, here, same, by rw [point]; rfl⟩

/-- The invariant of all moves. -/
structure Sound (crowd : Crowd ι W V) : Prop where
  keys_nodup : (crowd.table.entries.map (·.1)).Nodup
  entry_iff : ∀ key flight, (key, flight) ∈ crowd.table.entries ↔ ∃ id, crowd.Leads id key flight
  open_iff : ∀ flight, crowd.table.IsOpen flight ↔ ∃ id, crowd.Holds id flight
  holder_unique : ∀ {i j flight}, crowd.Holds i flight → crowd.Holds j flight → i = j

theorem Sound.flight_unique {crowd : Crowd ι W V} (sound : crowd.Sound) {key : String}
    {first second : Nat} (one : (key, first) ∈ crowd.table.entries)
    (two : (key, second) ∈ crowd.table.entries) : first = second := by
  have same := List.inj_on_of_nodup_map sound.keys_nodup one two rfl
  exact congrArg Prod.snd same

theorem Sound.leader_unique {crowd : Crowd ι W V} (sound : crowd.Sound) {i j : ι} {key : String}
    {first second : Nat} (one : crowd.Leads i key first) (two : crowd.Leads j key second) :
    i = j := by
  have same := sound.flight_unique ((sound.entry_iff _ _).2 ⟨i, one⟩)
    ((sound.entry_iff _ _).2 ⟨j, two⟩)
  subst same
  exact sound.holder_unique one.holds two.holds

theorem Sound.holder_lt {crowd : Crowd ι W V} (sound : crowd.Sound) {id : ι} {flight : Nat}
    (holds : crowd.Holds id flight) : flight < crowd.table.channels.length :=
  ((sound.open_iff flight).2 ⟨id, holds⟩).lt_length

theorem sound_empty : (empty : Crowd ι W V).Sound where
  keys_nodup := List.nodup_nil
  entry_iff key flight := by simp [empty, Table.empty, Leads]
  open_iff flight := by simp [empty, Table.empty, Holds, Table.IsOpen]
  holder_unique := by
    rintro i j flight ⟨caller, here, -⟩
    simp [empty] at here

theorem Sound.entry_iff_unique {crowd : Crowd ι W V} (sound : crowd.Sound) (key : String) :
    (crowd.table.flight? key).isSome ↔ ∃! id, ∃ flight, crowd.Leads id key flight := by
  rw [Table.flight?_isSome]
  constructor
  · rintro ⟨flight, mem⟩
    obtain ⟨id, leads⟩ := (sound.entry_iff key flight).1 mem
    refine ⟨id, ⟨flight, leads⟩, ?_⟩
    rintro other ⟨flight', leads'⟩
    exact sound.leader_unique leads' leads
  · rintro ⟨id, ⟨flight, leads⟩, -⟩
    exact ⟨flight, (sound.entry_iff key flight).2 ⟨id, leads⟩⟩

theorem leads_iff_works_of_atRest {crowd : Crowd ι W V}
    (rest : ∀ id caller, crowd.callers id = some caller → caller.point.AtRest) (id : ι)
    (key : String) : (∃ flight, crowd.Leads id key flight) ↔ crowd.Works id key := by
  constructor
  · rintro ⟨flight, caller, here, same, guards⟩
    have calm := rest id caller here
    cases point : caller.point with
    | working flight' work => exact ⟨caller, flight', work, here, same, point⟩
    | _ => simp_all [Point.guards, Point.AtRest]
  · exact Works.leads

theorem Sound.none_left {crowd : Crowd ι W V} (sound : crowd.Sound)
    (ended : ∀ id caller, crowd.callers id = some caller → caller.point.IsOver) :
    crowd.table.inFlight = 0 ∧ ∀ flight, ¬ crowd.table.IsOpen flight := by
  have unheld (id : ι) (flight : Nat) : ¬ crowd.Holds id flight := by
    rintro ⟨caller, here, sends⟩
    have isOver := ended id caller here
    cases point : caller.point <;>
      simp_all [Point.IsOver, Point.sends, Point.guards]
  constructor
  · rw [Table.inFlight, List.length_eq_zero_iff, List.eq_nil_iff_forall_not_mem]
    rintro ⟨key, flight⟩ mem
    obtain ⟨id, leads⟩ := (sound.entry_iff key flight).1 mem
    exact unheld id flight leads.holds
  · intro flight isOpen
    obtain ⟨id, holds⟩ := (sound.open_iff flight).1 isOpen
    exact unheld id flight holds

theorem Sound.keys_nodup_turn {crowd : Crowd ι W V} {caller : Caller W V} {point : Point W V}
    {table : Table V} (sound : crowd.Sound) (turn : Turn caller crowd.table point table) :
    (table.entries.map (·.1)).Nodup := by
  rcases turn.entries with ⟨-, same⟩ | ⟨-, -, absent, more⟩ | ⟨flight, -, -, fewer⟩
  · rw [same]
    exact sound.keys_nodup
  · rw [more, List.map_cons, List.nodup_cons]
    refine ⟨?_, sound.keys_nodup⟩
    simpa using Table.flight?_eq_none.1 absent
  · rw [fewer]
    exact (List.filter_sublist.map _).nodup sound.keys_nodup

variable [DecidableEq ι]

theorem leads_place {crowd : Crowd ι W V} {id other : ι} {caller : Caller W V} {table : Table V}
    {key : String} {flight : Nat} :
    (crowd.place id caller table).Leads other key flight ↔
      (other = id ∧ caller.key = key ∧ caller.point.guards = some flight) ∨
        (other ≠ id ∧ crowd.Leads other key flight) := by
  simp only [Leads, place_callers]
  split <;> simp_all

theorem holds_place {crowd : Crowd ι W V} {id other : ι} {caller : Caller W V} {table : Table V}
    {flight : Nat} :
    (crowd.place id caller table).Holds other flight ↔
      (other = id ∧ caller.point.sends = some flight) ∨
        (other ≠ id ∧ crowd.Holds other flight) := by
  simp only [Holds, place_callers]
  split <;> simp_all

theorem Sound.arrive {crowd : Crowd ι W V} (sound : crowd.Sound) {id : ι} (key : String) (work : W)
    (absent : crowd.callers id = none) :
    (crowd.place id (.arrive key work) crowd.table).Sound := by
  have leads (other : ι) (key' : String) (flight : Nat) :
      (crowd.place id (.arrive key work) crowd.table).Leads other key' flight ↔
        crowd.Leads other key' flight := by
    rw [leads_place]
    by_cases same : other = id
    · subst same
      simp [Leads, absent, Caller.arrive, Point.guards]
    · simp [same]
  have holds (other : ι) (flight : Nat) :
      (crowd.place id (.arrive key work) crowd.table).Holds other flight ↔
        crowd.Holds other flight := by
    rw [holds_place]
    by_cases same : other = id
    · subst same
      simp [Holds, absent, Caller.arrive, Point.sends, Point.guards]
    · simp [same]
  constructor
  · exact sound.keys_nodup
  · simpa only [leads, place_table] using sound.entry_iff
  · simpa only [holds, place_table] using sound.open_iff
  · intro i j flight one two
    rw [holds] at one two
    exact sound.holder_unique one two

section turn

variable {crowd : Crowd ι W V} {id : ι} {caller : Caller W V} {point : Point W V} {table : Table V}

theorem Sound.entry_iff_turn (sound : crowd.Sound) (here : crowd.callers id = some caller)
    (turn : Turn caller crowd.table point table) (key : String) (flight : Nat) :
    (key, flight) ∈ table.entries ↔
      ∃ other, (crowd.place id (caller.at point) table).Leads other key flight := by
  simp only [leads_place, Caller.at_key, Caller.at_point]
  have own (guards : caller.point.guards = some flight) : crowd.Leads id caller.key flight :=
    ⟨caller, here, rfl, guards⟩
  rcases turn.entries with ⟨guards, same⟩ | ⟨before, after, -, more⟩ | ⟨mine, before, after, fewer⟩
  · rw [same, sound.entry_iff]
    refine exists_congr fun other => ?_
    by_cases self : other = id
    · subst self
      simp [Leads, here, guards]
    · simp [self]
  · rw [more, List.mem_cons, sound.entry_iff]
    constructor
    · rintro (new | ⟨other, leads⟩)
      · cases new
        exact ⟨id, Or.inl ⟨rfl, rfl, after⟩⟩
      · refine ⟨other, Or.inr ⟨?_, leads⟩⟩
        rintro rfl
        obtain ⟨caller', here', -, guards⟩ := leads
        rw [here, Option.some.injEq] at here'
        subst here'
        simp [before] at guards
    · rintro ⟨other, ⟨-, rfl, guards⟩ | ⟨-, leads⟩⟩
      · rw [after, Option.some.injEq] at guards
        exact Or.inl (by rw [guards])
      · exact Or.inr ⟨other, leads⟩
  · rw [fewer, List.mem_filter, sound.entry_iff]
    simp only [ne_eq, decide_not, Bool.not_eq_true', decide_eq_false_iff_not]
    constructor
    · rintro ⟨⟨other, leads⟩, foreign⟩
      refine ⟨other, Or.inr ⟨?_, leads⟩⟩
      rintro rfl
      obtain ⟨caller', here', rfl, -⟩ := leads
      rw [here, Option.some.injEq] at here'
      exact foreign (by rw [here'])
    · rintro ⟨other, ⟨-, -, guards⟩ | ⟨foreign, leads⟩⟩
      · rw [after] at guards
        cases guards
      · refine ⟨⟨other, leads⟩, ?_⟩
        rintro rfl
        exact foreign (sound.leader_unique leads ⟨caller, here, rfl, before⟩)

theorem Sound.open_iff_turn (sound : crowd.Sound) (here : crowd.callers id = some caller)
    (turn : Turn caller crowd.table point table) (flight : Nat) :
    table.IsOpen flight ↔
      ∃ other, (crowd.place id (caller.at point) table).Holds other flight := by
  simp only [holds_place, Caller.at_point]
  rcases turn.channels with ⟨sends, same⟩ | ⟨before, after, more⟩ | ⟨mine, before, after, fewer⟩
  · rw [same, sound.open_iff]
    refine exists_congr fun other => ?_
    by_cases self : other = id
    · subst self
      simp [Holds, here, sends]
    · simp [self]
  · rw [more, sound.open_iff]
    constructor
    · rintro (⟨other, holds⟩ | rfl)
      · refine ⟨other, Or.inr ⟨?_, holds⟩⟩
        rintro rfl
        obtain ⟨caller', here', sends⟩ := holds
        rw [here, Option.some.injEq] at here'
        subst here'
        simp [before] at sends
      · exact ⟨id, Or.inl ⟨rfl, after⟩⟩
    · rintro ⟨other, ⟨-, sends⟩ | ⟨-, holds⟩⟩
      · rw [after, Option.some.injEq] at sends
        exact Or.inr sends.symm
      · exact Or.inl ⟨other, holds⟩
  · rw [fewer, sound.open_iff]
    constructor
    · rintro ⟨⟨other, holds⟩, foreign⟩
      refine ⟨other, Or.inr ⟨?_, holds⟩⟩
      rintro rfl
      obtain ⟨caller', here', sends⟩ := holds
      rw [here, Option.some.injEq] at here'
      subst here'
      rw [before, Option.some.injEq] at sends
      exact foreign sends.symm
    · rintro ⟨other, ⟨-, sends⟩ | ⟨foreign, holds⟩⟩
      · rw [after] at sends
        cases sends
      · refine ⟨⟨other, holds⟩, ?_⟩
        rintro rfl
        exact foreign (sound.holder_unique holds ⟨caller, here, before⟩)

theorem Sound.holder_unique_turn (sound : crowd.Sound) (here : crowd.callers id = some caller)
    (turn : Turn caller crowd.table point table) {i j : ι} {flight : Nat}
    (one : (crowd.place id (caller.at point) table).Holds i flight)
    (two : (crowd.place id (caller.at point) table).Holds j flight) : i = j := by
  -- The caller that moved holds what it held before, or a fresh flight.
  have own {other : ι} (sends : point.sends = some flight) (holds : crowd.Holds other flight) :
      other = id := by
    rcases turn.channels with ⟨same, -⟩ | ⟨-, after, -⟩ | ⟨mine, -, after, -⟩
    · exact sound.holder_unique holds ⟨caller, here, by rw [← same, sends]⟩
    · rw [after, Option.some.injEq] at sends
      have := sound.holder_lt holds
      omega
    · rw [after] at sends
      cases sends
  rw [holds_place] at one two
  rcases one with ⟨rfl, sends⟩ | ⟨-, one⟩
  · rcases two with ⟨rfl, -⟩ | ⟨-, two⟩
    · rfl
    · exact (own sends two).symm
  · rcases two with ⟨rfl, sends⟩ | ⟨-, two⟩
    · exact own sends one
    · exact sound.holder_unique one two

theorem Sound.turn (sound : crowd.Sound) (here : crowd.callers id = some caller)
    (turn : Turn caller crowd.table point table) : (crowd.place id (caller.at point) table).Sound where
  keys_nodup := sound.keys_nodup_turn turn
  entry_iff := sound.entry_iff_turn here turn
  open_iff := sound.open_iff_turn here turn
  holder_unique := sound.holder_unique_turn here turn

end turn

theorem Sound.move {crowd : Crowd ι W V} (sound : crowd.Sound) (step : Move ι W V) :
    (crowd.move step).Sound := by
  rcases crowd.move_cases step with same | ⟨id, key, work, absent, came⟩ |
      ⟨id, caller, point, table, here, turn, moved⟩
  · rw [same]
    exact sound
  · rw [came]
    exact sound.arrive key work absent
  · rw [moved]
    exact sound.turn here turn

theorem Sound.run {crowd : Crowd ι W V} (sound : crowd.Sound) (moves : List (Move ι W V)) :
    (crowd.run moves).Sound := by
  induction moves generalizing crowd with
  | nil => exact sound
  | cons step moves ih => exact ih (sound.move step)

theorem sound_after (events : List (Event ι W V)) : (after events).Sound := by
  obtain ⟨moves, same⟩ := after_moves events
  rw [same]
  exact sound_empty.run moves

/-! ## The statement -/

structure Exclusive (crowd : Crowd ι W V) : Prop where
  one_worker : ∀ {i j : ι} {key : String}, crowd.Works i key → crowd.Works j key → i = j
  keys_nodup : (crowd.table.entries.map (·.1)).Nodup
  entry_iff : ∀ key, (crowd.table.flight? key).isSome ↔ ∃! id, ∃ flight, crowd.Leads id key flight
  entry_iff_works : (∀ id caller, crowd.callers id = some caller → caller.point.AtRest) →
    ∀ key, (crowd.table.flight? key).isSome ↔ ∃! id, crowd.Works id key
  entry_open : ∀ key flight, (key, flight) ∈ crowd.table.entries →
    crowd.table.IsOpen flight ∧ ∃ id, crowd.Leads id key flight ∧ crowd.Holds id flight
  own_entry : ∀ step key flight, (key, flight) ∈ crowd.table.entries →
    (key, flight) ∉ (crowd.move step).table.entries → ∃ id, step = .act id ∧ crowd.Leads id key flight
  none_left : (∀ id caller, crowd.callers id = some caller → caller.point.IsOver) →
    crowd.table.inFlight = 0 ∧ ∀ flight, ¬ crowd.table.IsOpen flight

theorem Sound.own_entry {crowd : Crowd ι W V} (sound : crowd.Sound) (step : Move ι W V)
    (key : String) (flight : Nat) (mem : (key, flight) ∈ crowd.table.entries)
    (lost : (key, flight) ∉ (crowd.move step).table.entries) :
    ∃ id, step = .act id ∧ crowd.Leads id key flight := by
  obtain ⟨leader, leads⟩ := (sound.entry_iff key flight).1 mem
  -- A turn of a caller with another key does not touch the entry.
  have kept (caller : Caller W V) (point : Point W V) (table : Table V)
      (turn : Turn caller crowd.table point table) (foreign : caller.key ≠ key) :
      (key, flight) ∈ table.entries := by
    rcases turn.entries with ⟨-, same⟩ | ⟨-, -, -, more⟩ | ⟨mine, -, -, fewer⟩
    · rwa [same]
    · rw [more]
      exact List.mem_cons_of_mem _ mem
    · rw [fewer]
      exact List.mem_filter.2 ⟨mem, by simpa using foreign.symm⟩
  cases step with
  | arrive id key' work =>
      simp only [Crowd.move] at lost
      split at lost <;> exact absurd mem lost
  | advance id progress =>
      simp only [Crowd.move] at lost
      repeat' split at lost
      all_goals exact absurd mem lost
  | abandon id =>
      simp only [Crowd.move] at lost
      split at lost <;> exact absurd mem lost
  | act id =>
      refine ⟨id, rfl, ?_⟩
      cases here : crowd.callers id with
      | none =>
          simp only [Crowd.move, here] at lost
          exact absurd mem lost
      | some caller =>
          rw [move_act crowd here, place_table] at lost
          rcases caller.act_turn crowd.table with stays | ⟨point, table, turn, acts⟩
          · rw [stays] at lost
            exact absurd mem lost
          · rw [acts] at lost
            have same : caller.key = key := by
              by_contra foreign
              exact lost (kept caller point table turn foreign)
            rcases turn.entries with ⟨-, all⟩ | ⟨-, -, -, more⟩ | ⟨mine, guards, -, -⟩
            · rw [all] at lost
              exact absurd mem lost
            · rw [more] at lost
              exact absurd (List.mem_cons_of_mem _ mem) lost
            · have own : crowd.Leads id key mine := ⟨caller, here, same, guards⟩
              obtain rfl := sound.flight_unique mem ((sound.entry_iff key mine).2 ⟨id, own⟩)
              exact own

/-- After any arrivals, moves, polls and drops, a key has at most one leader, and the table has the entries of the
leaders. -/
theorem exclusive_after (events : List (Event ι W V)) : (after events).Exclusive := by
  have sound := sound_after events
  constructor
  · intro i j key one two
    obtain ⟨first, one⟩ := one.leads
    obtain ⟨second, two⟩ := two.leads
    exact sound.leader_unique one two
  · exact sound.keys_nodup
  · exact sound.entry_iff_unique
  · intro rest key
    rw [sound.entry_iff_unique]
    simp only [leads_iff_works_of_atRest rest]
  · intro key flight mem
    obtain ⟨id, leads⟩ := (sound.entry_iff key flight).1 mem
    exact ⟨(sound.open_iff flight).2 ⟨id, leads.holds⟩, id, leads, leads.holds⟩
  · exact sound.own_entry
  · exact sound.none_left

end Crowd

end SecretStore.Flight
