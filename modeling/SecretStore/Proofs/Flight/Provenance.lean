import SecretStore.Proofs.Flight.Exclusion

namespace SecretStore.Flight.Crowd

variable {ι W V : Type} [DecidableEq ι]

def crowdAt (moves : List (Move ι W V)) (time : Nat) : Crowd ι W V :=
  empty.run (moves.take time)

def pointAt (moves : List (Move ι W V)) (time : Nat) (id : ι) : Option (Point W V) :=
  ((crowdAt moves time).callers id).map (·.point)

def Began (moves : List (Move ι W V)) (time : Nat) (id : ι) : Prop :=
  pointAt moves time id = some .joining ∧
    ∃ flight work, pointAt moves (time + 1) id = some (.working flight work)

def Completed (moves : List (Move ι W V)) (time : Nat) (id : ι) (flight : Nat) (value : V) : Prop :=
  (∃ work, pointAt moves time id = some (.working flight work)) ∧
    pointAt moves (time + 1) id = some (.publishing flight value)

def Follows (crowd : Crowd ι W V) (id : ι) (key : String) (flight : Nat) : Prop :=
  ∃ caller, crowd.callers id = some caller ∧ caller.key = key ∧ caller.point = .following flight

variable {moves : List (Move ι W V)}

/-! ## One move on -/

theorem sound_crowdAt (moves : List (Move ι W V)) (time : Nat) : (crowdAt moves time).Sound :=
  sound_empty.run _

theorem crowdAt_succ (moves : List (Move ι W V)) (time : Nat) :
    crowdAt moves (time + 1) = crowdAt moves time ∨
      ∃ step, crowdAt moves (time + 1) = (crowdAt moves time).move step := by
  simp only [crowdAt, List.take_add_one]
  cases moves[time]? with
  | none => exact Or.inl (by simp)
  | some step => exact Or.inr ⟨step, by rw [Option.toList_some, run_append]; rfl⟩

theorem crowdAt_cases (moves : List (Move ι W V)) (time : Nat) :
    crowdAt moves (time + 1) = crowdAt moves time ∨
      (∃ id key work, (crowdAt moves time).callers id = none ∧ crowdAt moves (time + 1) =
        (crowdAt moves time).place id (.arrive key work) (crowdAt moves time).table) ∨
      ∃ id caller point table, (crowdAt moves time).callers id = some caller ∧
        Turn caller (crowdAt moves time).table point table ∧
        crowdAt moves (time + 1) = (crowdAt moves time).place id (caller.at point) table := by
  rcases crowdAt_succ moves time with same | ⟨step, moved⟩
  · exact Or.inl same
  · rw [moved]
    exact move_cases _ step

theorem caller_cases (moves : List (Move ι W V)) (time : Nat) (id : ι) :
    (crowdAt moves (time + 1)).callers id = (crowdAt moves time).callers id ∨
      ((crowdAt moves time).callers id = none ∧
        ∃ key work, (crowdAt moves (time + 1)).callers id = some (.arrive key work)) ∨
      ∃ caller point table, (crowdAt moves time).callers id = some caller ∧
        Turn caller (crowdAt moves time).table point table ∧
        (crowdAt moves (time + 1)).callers id = some (caller.at point) := by
  rcases crowdAt_cases moves time with same | ⟨other, key, work, absent, came⟩ |
      ⟨other, caller, point, table, here, turn, moved⟩
  · exact Or.inl (by rw [same])
  · rw [came, place_callers]
    split
    · subst_vars
      exact Or.inr (Or.inl ⟨absent, key, work, rfl⟩)
    · exact Or.inl rfl
  · rw [moved, place_callers]
    split
    · subst_vars
      exact Or.inr (Or.inr ⟨caller, point, table, here, turn, rfl⟩)
    · exact Or.inl rfl

theorem pointAt_cases (moves : List (Move ι W V)) (time : Nat) (id : ι) :
    pointAt moves (time + 1) id = pointAt moves time id ∨
      (pointAt moves time id = none ∧ pointAt moves (time + 1) id = some .joining) ∨
      ∃ caller point table, pointAt moves time id = some caller.point ∧
        (crowdAt moves time).callers id = some caller ∧
        Turn caller (crowdAt moves time).table point table ∧
        pointAt moves (time + 1) id = some point := by
  simp only [pointAt]
  rcases caller_cases moves time id with same | ⟨absent, key, work, came⟩ |
      ⟨caller, point, table, here, turn, moved⟩
  · exact Or.inl (by rw [same])
  · exact Or.inr (Or.inl ⟨by rw [absent]; rfl, by rw [came]; rfl⟩)
  · exact Or.inr (Or.inr ⟨caller, point, table, by rw [here]; rfl, here, turn, by rw [moved]; rfl⟩)

theorem pointAt_stays (good : Point W V → Prop) {id : ι} {start time : Nat} (le : start ≤ time)
    (kept : ∀ (caller : Caller W V) (table : Table V) point next,
      Turn caller table point next → good caller.point → good point)
    (first : ∃ point, pointAt moves start id = some point ∧ good point) :
    ∃ point, pointAt moves time id = some point ∧ good point := by
  induction le with
  | refl => exact first
  | @step time _ ih =>
      obtain ⟨point, here, holds⟩ := ih
      rcases pointAt_cases moves time id with same | ⟨absent, -⟩ |
          ⟨caller, next, table, before, -, turn, after⟩
      · exact ⟨point, by rw [same, here], holds⟩
      · rw [here] at absent
        cases absent
      · rw [here, Option.some.injEq] at before
        subst before
        exact ⟨next, after, kept caller _ next table turn holds⟩

theorem key_stays {id : ι} {start time : Nat} {caller : Caller W V} (le : start ≤ time)
    (here : (crowdAt moves start).callers id = some caller) :
    ∃ later, (crowdAt moves time).callers id = some later ∧ later.key = caller.key := by
  induction le with
  | refl => exact ⟨caller, here, rfl⟩
  | @step time _ ih =>
      obtain ⟨later, found, same⟩ := ih
      rcases caller_cases moves time id with stays | ⟨absent, -⟩ | ⟨moving, point, table, present, -, after⟩
      · exact ⟨later, by rw [stays, found], same⟩
      · rw [found] at absent
        cases absent
      · rw [found, Option.some.injEq] at present
        subst present
        exact ⟨_, after, same⟩

/-! ## Callers that have begun -/

def Begun : Point W V → Prop
  | .joining | .following _ | .returned _ true => False
  | _ => True

def Ending (flight : Nat) (value : V) (point : Point W V) : Prop :=
  point = .publishing flight value ∨ point = .leaving flight value ∨
    point = .closing flight value ∨ point = .returned value false

theorem begun_turn (caller : Caller W V) (table : Table V) (point : Point W V) (next : Table V)
    (turn : Turn caller table point next) (begun : Begun caller.point) : Begun point := by
  cases turn <;> simp_all [Begun]

theorem ending_turn {flight : Nat} {value : V} (caller : Caller W V) (table : Table V)
    (point : Point W V) (next : Table V) (turn : Turn caller table point next)
    (ending : Ending flight value caller.point) : Ending flight value point := by
  rcases ending with here | here | here | here
  all_goals cases turn <;> simp_all [Ending]

theorem returned_turn {value : V} {shared : Bool} (caller : Caller W V) (table : Table V)
    (point : Point W V) (next : Table V) (turn : Turn caller table point next)
    (returned : caller.point = .returned value shared) : point = .returned value shared := by
  cases turn <;> simp_all

theorem Began.begun {id : ι} {start time : Nat} (began : Began moves start id) (lt : start < time) :
    ∃ point, pointAt moves time id = some point ∧ Begun point := by
  obtain ⟨-, flight, work, working⟩ := began
  exact pointAt_stays Begun lt begun_turn ⟨_, working, trivial⟩

theorem Began.once {id : ι} {first second : Nat} (one : Began moves first id)
    (two : Began moves second id) : first = second := by
  have after {early late : Nat} (one : Began moves early id) (two : Began moves late id) :
      ¬ early < late := by
    intro lt
    obtain ⟨point, here, begun⟩ := one.begun lt
    rw [two.1, Option.some.injEq] at here
    subst here
    exact begun
  have := after one two
  have := after two one
  omega

theorem returned_stays {id : ι} {start time : Nat} {value : V} {shared : Bool} (le : start ≤ time)
    (returned : pointAt moves start id = some (.returned value shared)) :
    pointAt moves time id = some (.returned value shared) := by
  obtain ⟨point, here, rfl⟩ := pointAt_stays (· = .returned value shared) le
    returned_turn ⟨_, returned, rfl⟩
  exact here

theorem not_began_of_shared {id : ι} {start time : Nat} {value : V}
    (returned : pointAt moves time id = some (.returned value true)) : ¬ Began moves start id := by
  intro began
  rcases Nat.lt_or_ge start time with lt | le
  · obtain ⟨point, here, begun⟩ := began.begun lt
    rw [returned, Option.some.injEq] at here
    subst here
    exact begun
  · have later := returned_stays le returned
    rw [began.1] at later
    cases later

/-! ## Work that has been done -/

theorem Completed.ending {id : ι} {start time flight : Nat} {value : V}
    (completed : Completed moves start id flight value) (lt : start < time) :
    ∃ point, pointAt moves time id = some point ∧ Ending flight value point :=
  pointAt_stays (Ending flight value) lt ending_turn ⟨_, completed.2, Or.inl rfl⟩

theorem completed_of_ending {id : ι} {time flight : Nat} {value : V}
    (here : pointAt moves time id = some (.publishing flight value) ∨
      pointAt moves time id = some (.leaving flight value) ∨
      pointAt moves time id = some (.closing flight value)) :
    ∃ start < time, Completed moves start id flight value := by
  induction time with
  | zero => simp [pointAt, crowdAt, run, empty] at here
  | succ time ih =>
      rcases pointAt_cases moves time id with same | ⟨-, came⟩ |
          ⟨caller, point, table, before, -, turn, after⟩
      · rw [same] at here
        obtain ⟨start, lt, completed⟩ := ih here
        exact ⟨start, by omega, completed⟩
      · simp [came] at here
      · rw [after] at here
        cases turn with
        | finish value' working =>
            rw [working] at before
            simp only [Option.some.injEq, Point.publishing.injEq, reduceCtorEq, or_false] at here
            obtain ⟨rfl, rfl⟩ := here
            exact ⟨time, by omega, ⟨_, before⟩, after⟩
        | publish publishing =>
            rw [publishing] at before
            simp only [Option.some.injEq, Point.leaving.injEq, reduceCtorEq, or_false,
              false_or] at here
            obtain ⟨rfl, rfl⟩ := here
            obtain ⟨start, lt, completed⟩ := ih (Or.inl before)
            exact ⟨start, by omega, completed⟩
        | leave leaving =>
            rw [leaving] at before
            simp only [Option.some.injEq, Point.closing.injEq, reduceCtorEq, false_or] at here
            obtain ⟨rfl, rfl⟩ := here
            obtain ⟨start, lt, completed⟩ := ih (Or.inr (Or.inl before))
            exact ⟨start, by omega, completed⟩
        | _ => simp at here

theorem completed_of_returned {id : ι} {time : Nat} {value : V}
    (returned : pointAt moves time id = some (.returned value false)) :
    ∃ start < time, ∃ flight, Completed moves start id flight value := by
  induction time with
  | zero => simp [pointAt, crowdAt, run, empty] at returned
  | succ time ih =>
      rcases pointAt_cases moves time id with same | ⟨-, came⟩ |
          ⟨caller, point, table, before, -, turn, after⟩
      · rw [same] at returned
        obtain ⟨start, lt, completed⟩ := ih returned
        exact ⟨start, by omega, completed⟩
      · simp [came] at returned
      · rw [after, Option.some.injEq] at returned
        subst returned
        cases turn with
        | close closing =>
            rw [closing] at before
            obtain ⟨start, lt, completed⟩ := completed_of_ending (Or.inr (Or.inr before))
            exact ⟨start, by omega, _, completed⟩

theorem Completed.once {id : ι} {first second flight flight' : Nat} {value value' : V}
    (one : Completed moves first id flight value) (two : Completed moves second id flight' value') :
    first = second ∧ value = value' := by
  have after {early late flight flight' : Nat} {value value' : V}
      (one : Completed moves early id flight value)
      (two : Completed moves late id flight' value') : ¬ early < late := by
    intro lt
    obtain ⟨point, here, ending⟩ := one.ending lt
    obtain ⟨work, working⟩ := two.1
    rw [working, Option.some.injEq] at here
    subst here
    simp [Ending] at ending
  have same : first = second := by
    have := after one two
    have := after two one
    omega
  subst same
  have values := one.2.symm.trans two.2
  simp only [Option.some.injEq, Point.publishing.injEq] at values
  exact ⟨rfl, values.2⟩

/-! ## Flights over time -/

theorem Turn.channels_length {caller : Caller W V} {table next : Table V} {point : Point W V}
    (turn : Turn caller table point next) : table.channels.length ≤ next.channels.length := by
  cases turn with
  | lead here absent => simp [Table.join_absent absent]
  | _ => simp [Table.publish, Table.close, Table.leave, Table.update]

theorem channels_length_mono {start time : Nat} (le : start ≤ time) :
    (crowdAt moves start).table.channels.length ≤ (crowdAt moves time).table.channels.length := by
  induction le with
  | refl => exact Nat.le_refl _
  | @step time _ ih =>
      rcases crowdAt_cases moves time with same | ⟨id, key, work, -, came⟩ |
          ⟨id, caller, point, table, -, turn, moved⟩
      · rwa [same]
      · rwa [came]
      · rw [moved]
        exact Nat.le_trans ih (Turn.channels_length turn)

theorem holder_unique_of_le {i j : ι} {start time flight : Nat} (le : start ≤ time)
    (one : (crowdAt moves start).Holds i flight) (two : (crowdAt moves time).Holds j flight) :
    i = j := by
  induction le with
  | refl => exact (sound_crowdAt moves start).holder_unique one two
  | @step time le ih =>
      have old := Nat.lt_of_lt_of_le ((sound_crowdAt moves start).holder_lt one)
        (channels_length_mono le)
      obtain ⟨caller', here', sends⟩ := two
      rcases caller_cases moves time j with same | ⟨-, key, work, came⟩ |
          ⟨caller, point, table, here, turn, moved⟩
      · exact ih ⟨caller', by rw [← same, here'], sends⟩
      · rw [came, Option.some.injEq] at here'
        subst here'
        simp [Caller.arrive, Point.sends, Point.guards] at sends
      · rw [moved, Option.some.injEq] at here'
        subst here'
        rw [Caller.at_point] at sends
        rcases turn.channels with ⟨kept, -⟩ | ⟨-, after, -⟩ | ⟨mine, -, after, -⟩
        · exact ih ⟨caller, here, by rw [← kept, sends]⟩
        · rw [after, Option.some.injEq] at sends
          omega
        · rw [after] at sends
          cases sends

theorem holder_unique_ever {i j : ι} {first second flight : Nat}
    (one : (crowdAt moves first).Holds i flight) (two : (crowdAt moves second).Holds j flight) :
    i = j := by
  rcases Nat.le_total first second with le | le
  · exact holder_unique_of_le le one two
  · exact (holder_unique_of_le le two one).symm

theorem Completed.holds {id : ι} {time flight : Nat} {value : V}
    (completed : Completed moves time id flight value) : (crowdAt moves time).Holds id flight := by
  obtain ⟨⟨work, working⟩, -⟩ := completed
  obtain ⟨caller, here, point⟩ := Option.map_eq_some_iff.1 working
  exact ⟨caller, here, by rw [point]; rfl⟩

theorem Completed.unique {i j : ι} {first second flight : Nat} {value value' : V}
    (one : Completed moves first i flight value) (two : Completed moves second j flight value') :
    first = second ∧ i = j ∧ value = value' := by
  obtain rfl := holder_unique_ever one.holds two.holds
  obtain ⟨same, values⟩ := one.once two
  exact ⟨same, rfl, values⟩

theorem completed_of_published {time flight : Nat} {channel : Channel V} {value : V}
    (found : (crowdAt moves time).table.channels[flight]? = some channel)
    (published : channel.value = some value) :
    ∃ start < time, ∃ id, Completed moves start id flight value := by
  -- Only publishing sets a value. Every other move leaves those that were there before.
  induction time generalizing channel with
  | zero => simp [crowdAt, run, empty, Table.empty] at found
  | succ time ih =>
      have before {channel : Channel V}
          (found : (crowdAt moves time).table.channels[flight]? = some channel)
          (published : channel.value = some value) :
          ∃ start < time + 1, ∃ id, Completed moves start id flight value := by
        obtain ⟨start, lt, done⟩ := ih found published
        exact ⟨start, by omega, done⟩
      rcases crowdAt_cases moves time with same | ⟨id, key, work, -, came⟩ |
          ⟨id, caller, point, table, here, turn, moved⟩
      · rw [same] at found
        exact before found published
      · rw [came] at found
        exact before found published
      · rw [moved, place_table] at found
        cases turn with
        | lead joining absent =>
            rw [Table.join_absent absent] at found
            rcases Nat.lt_or_ge flight (crowdAt moves time).table.channels.length with lt | le
            · rw [List.getElem?_append_left lt] at found
              exact before found published
            · rw [List.getElem?_append_right le, List.getElem?_singleton] at found
              split at found
              · cases found
                cases published
              · cases found
        | @publish mine _ publishing =>
            simp only [Table.publish, Table.update_channels] at found
            split at found
            · rename_i same
              subst same
              obtain ⟨channel', -, rfl⟩ := Option.map_eq_some_iff.1 found
              cases published
              have here : pointAt moves time id = some (.publishing mine value) := by
                rw [pointAt, here, Option.map_some, publishing]
              obtain ⟨start, lt, completed⟩ := completed_of_ending (Or.inl here)
              exact ⟨start, by omega, id, completed⟩
            · exact before found published
        | close closing =>
            simp only [Table.close, Table.update_channels] at found
            split at found
            · obtain ⟨channel', old, rfl⟩ := Option.map_eq_some_iff.1 found
              exact before old published
            · exact before found published
        | hangUp hanging =>
            simp only [Table.close, Table.update_channels] at found
            split at found
            · obtain ⟨channel', old, rfl⟩ := Option.map_eq_some_iff.1 found
              exact before old published
            · exact before found published
        | _ => exact before found published

/-! ## Followers -/

theorem entry_of_follows {id : ι} {key : String} {time flight : Nat}
    (follows : (crowdAt moves time).Follows id key flight) :
    ∃ start ≤ time, (crowdAt moves start).Follows id key flight ∧
      (key, flight) ∈ (crowdAt moves start).table.entries := by
  induction time with
  | zero =>
      obtain ⟨caller, here, -⟩ := follows
      simp [crowdAt, run, empty] at here
  | succ time ih =>
      have before (follows : (crowdAt moves time).Follows id key flight) :
          ∃ start ≤ time + 1, (crowdAt moves start).Follows id key flight ∧
            (key, flight) ∈ (crowdAt moves start).table.entries := by
        obtain ⟨start, le, found⟩ := ih follows
        exact ⟨start, by omega, found⟩
      obtain ⟨caller', here', same, point'⟩ := follows
      rcases crowdAt_cases moves time with stays | ⟨other, key', work, -, came⟩ |
          ⟨other, caller, point, table, here, turn, moved⟩
      · exact before ⟨caller', by rw [← stays, here'], same, point'⟩
      · rw [came, place_callers] at here'
        split at here'
        · cases here'
          cases point'
        · exact before ⟨caller', here', same, point'⟩
      · rw [moved, place_callers] at here'
        split at here'
        · rename_i self
          subst self
          cases here'
          rw [Caller.at_point] at point'
          subst point'
          cases turn with
          | follow joining found =>
              have entry := Table.mem_of_flight? found
              refine ⟨time + 1, Nat.le_refl _, ⟨_, ?_, same, rfl⟩, ?_⟩
              · rw [moved, place_callers_self]
              · rw [moved, place_table, ← same]
                exact entry
        · exact before ⟨caller', here', same, point'⟩

/-- The caller whose value this caller returns with, if it is not its own. -/
structure Source (moves : List (Move ι W V)) (time : Nat) (id : ι) (value : V) (other : ι) :
    Prop where
  foreign : other ≠ id
  executed : ∃ flight, (∃ start < time, Completed moves start other flight value) ∧
    ∃ meanwhile < time, ∃ key, (crowdAt moves meanwhile).Follows id key flight ∧
      (crowdAt moves meanwhile).Leads other key flight ∧
      (key, flight) ∈ (crowdAt moves meanwhile).table.entries

theorem source_of_sight {id : ι} {key : String} {time flight : Nat} {value : V}
    (follows : (crowdAt moves time).Follows id key flight)
    (sight : (crowdAt moves time).table.look flight = .value value) :
    ∃ other, Source moves (time + 1) id value other := by
  obtain ⟨channel, found, published⟩ : ∃ channel,
      (crowdAt moves time).table.channels[flight]? = some channel ∧ channel.value = some value := by
    unfold Table.look at sight
    split at sight
    · rename_i found
      cases sight
      exact ⟨_, found, rfl⟩
    · cases sight
    · cases sight
    · cases sight
  obtain ⟨start, lt, other, completed⟩ := completed_of_published found published
  obtain ⟨meanwhile, le, followed, entry⟩ := entry_of_follows follows
  obtain ⟨leader, leads⟩ := ((sound_crowdAt moves meanwhile).entry_iff key flight).1 entry
  obtain rfl := holder_unique_ever leads.holds completed.holds
  refine ⟨leader, ?_, flight, ⟨start, by omega, completed⟩, meanwhile, by omega, key, followed,
    leads, entry⟩
  rintro rfl
  obtain ⟨caller, here, -, point⟩ := followed
  obtain ⟨caller', here', -, guards⟩ := leads
  rw [here, Option.some.injEq] at here'
  subst here'
  simp [point, Point.guards] at guards

theorem source_of_shared {id : ι} {time : Nat} {value : V}
    (returned : pointAt moves time id = some (.returned value true)) :
    ∃ other, Source moves time id value other := by
  induction time with
  | zero => simp [pointAt, crowdAt, run, empty] at returned
  | succ time ih =>
      rcases pointAt_cases moves time id with same | ⟨-, came⟩ |
          ⟨caller, point, table, -, here, turn, after⟩
      · rw [same] at returned
        obtain ⟨other, foreign, flight, ⟨start, lt, completed⟩, meanwhile, lt', found⟩ := ih returned
        exact ⟨other, foreign, flight, ⟨start, by omega, completed⟩, meanwhile, by omega, found⟩
      · simp [came] at returned
      · rw [after, Option.some.injEq] at returned
        subst returned
        cases turn with
        | land following sight => exact source_of_sight ⟨caller, here, rfl, following⟩ sight

/-! ## The statement -/

theorem returns_of_ending {crowd : Crowd ι W V} {id : ι} {caller : Caller W V} {flight : Nat}
    {value : V} (here : crowd.callers id = some caller) (ending : Ending flight value caller.point) :
    (((crowd.run [.act id, .act id, .act id]).callers id).map (·.point)) =
      some (.returned value false) := by
  rw [run_cons, run_cons, run_cons, move_act crowd here, move_act _ (place_callers_self ..),
    move_act _ (place_callers_self ..)]
  rcases ending with point | point | point | point <;> simp [run, Caller.act, point]

structure Provenance (moves : List (Move ι W V)) : Prop where
  began_once : ∀ {first second id}, Began moves first id → Began moves second id → first = second
  unshared_iff : ∀ {time id value shared},
    pointAt moves time id = some (.returned value shared) →
      (shared = false ↔ ∃ start < time, ∃ flight own, Completed moves start id flight own)
  own_value : ∀ {time id value}, pointAt moves time id = some (.returned value false) →
    ∃ start < time, ∃ flight, Completed moves start id flight value
  shared_value : ∀ {time id value}, pointAt moves time id = some (.returned value true) →
    (∀ start, ¬ Began moves start id) ∧ ∃ other, Source moves time id value other
  one_execution : ∀ {first second i j flight value value'},
    Completed moves first i flight value → Completed moves second j flight value' →
      first = second ∧ i = j ∧ value = value'
  one_completion : ∀ {first second id flight flight' value value'},
    Completed moves first id flight value → Completed moves second id flight' value' →
      first = second ∧ flight = flight' ∧ value = value'
  completed_returned : ∀ {start time id flight value},
    Completed moves start id flight value → start < time →
      ∃ point, pointAt moves time id = some point ∧
        (point.AtRest → point = .returned value false)
  completed_returns : ∀ {start time id flight value},
    Completed moves start id flight value → start < time →
      (((crowdAt moves time).run [.act id, .act id, .act id]).callers id).map (·.point) =
        some (.returned value false)

theorem unshared_iff_completed {time : Nat} {id : ι} {value : V} {shared : Bool}
    (returned : pointAt moves time id = some (.returned value shared)) :
    shared = false ↔ ∃ start < time, ∃ flight own, Completed moves start id flight own := by
  constructor
  · rintro rfl
    obtain ⟨start, lt, flight, completed⟩ := completed_of_returned returned
    exact ⟨start, lt, flight, value, completed⟩
  · rintro ⟨start, lt, flight, own, completed⟩
    obtain ⟨point, here, ending⟩ := completed.ending lt
    rw [returned, Option.some.injEq] at here
    subst here
    simp only [Ending, reduceCtorEq, Point.returned.injEq, false_or] at ending
    exact ending.2

/-- A value is returned by the caller whose work made it, and by the callers of the same key that followed it while it
was in flight. -/
theorem provenance (moves : List (Move ι W V)) : Provenance moves where
  began_once := Began.once
  unshared_iff := unshared_iff_completed
  own_value := completed_of_returned
  shared_value returned := ⟨fun _ => not_began_of_shared returned, source_of_shared returned⟩
  one_execution := Completed.unique
  one_completion {_ _ _ _ _ _ _} one two := by
    obtain ⟨rfl, rfl⟩ := one.once two
    have same := one.2.symm.trans two.2
    simp only [Option.some.injEq, Point.publishing.injEq] at same
    exact ⟨rfl, same.1, rfl⟩
  completed_returned {_ _ _ _ _} completed lt := by
    obtain ⟨point, here, ending⟩ := completed.ending lt
    refine ⟨point, here, fun rest => ?_⟩
    rcases ending with rfl | rfl | rfl | rfl
    · exact rest.elim
    · exact rest.elim
    · exact rest.elim
    · rfl
  completed_returns {_ _ _ _ _} completed lt := by
    obtain ⟨point, here, ending⟩ := completed.ending lt
    obtain ⟨caller, found, rfl⟩ := Option.map_eq_some_iff.1 here
    exact returns_of_ending found ending

end SecretStore.Flight.Crowd
