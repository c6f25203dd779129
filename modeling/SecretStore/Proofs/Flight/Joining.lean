import SecretStore.Proofs.Flight.Provenance

namespace SecretStore.Flight.Crowd

variable {ι W V : Type} [DecidableEq ι] {moves : List (Move ι W V)}

def HasKey (moves : List (Move ι W V)) (time : Nat) (id : ι) (key : String) : Prop :=
  ∃ caller, (crowdAt moves time).callers id = some caller ∧ caller.key = key

def Dropped (moves : List (Move ι W V)) (time : Nat) (id : ι) : Prop :=
  (∃ flight work, pointAt moves time id = some (.working flight work) ∧
      pointAt moves (time + 1) id = some (.quitting flight)) ∨
    ((pointAt moves time id = some .joining ∨ ∃ flight, pointAt moves time id = some (.following flight)) ∧
      pointAt moves (time + 1) id = some .gone)

def Joins (moves : List (Move ι W V)) (time : Nat) (id : ι) (flight : Nat) : Prop :=
  pointAt moves time id = some .joining ∧
    (pointAt moves (time + 1) id = some (.following flight) ∨
      ∃ work, pointAt moves (time + 1) id = some (.working flight work))

def HasLeft (moves : List (Move ι W V)) (time : Nat) (id : ι) : Prop :=
  ∃ value, (∃ flight, pointAt moves time id = some (.closing flight value)) ∨
    pointAt moves time id = some (.returned value false)

theorem pointAt_of_callers {time : Nat} {id : ι} {caller : Caller W V}
    (here : (crowdAt moves time).callers id = some caller) : pointAt moves time id = some caller.point := by
  rw [pointAt, here, Option.map_some]

theorem HasKey.stays {start time : Nat} {id : ι} {key : String} (keyed : HasKey moves start id key)
    (le : start ≤ time) : HasKey moves time id key := by
  obtain ⟨caller, here, same⟩ := keyed
  obtain ⟨later, found, kept⟩ := key_stays le here
  exact ⟨later, found, kept.trans same⟩

theorem HasKey.earlier {start time : Nat} {id : ι} {key : String} {point : Point W V}
    (keyed : HasKey moves time id key) (le : start ≤ time) (here : pointAt moves start id = some point) :
    HasKey moves start id key := by
  obtain ⟨caller, present, -⟩ := Option.map_eq_some_iff.1 here
  obtain ⟨later, found, same⟩ := key_stays le present
  obtain ⟨last, found', rfl⟩ := keyed
  rw [found, Option.some.injEq] at found'
  subst found'
  exact ⟨caller, present, same.symm⟩

theorem leads_of_guards {time flight : Nat} {id : ι} {key : String} {point : Point W V}
    (keyed : HasKey moves time id key) (here : pointAt moves time id = some point)
    (guards : point.guards = some flight) : (crowdAt moves time).Leads id key flight := by
  obtain ⟨caller, found, same⟩ := keyed
  rw [pointAt_of_callers found, Option.some.injEq] at here
  exact ⟨caller, found, same, by rw [here, guards]⟩

theorem guards_of_leads {time flight : Nat} {id : ι} {key : String}
    (leads : (crowdAt moves time).Leads id key flight) :
    HasKey moves time id key ∧ ∃ point, pointAt moves time id = some point ∧ point.guards = some flight := by
  obtain ⟨caller, here, same, guards⟩ := leads
  exact ⟨⟨caller, here, same⟩, _, pointAt_of_callers here, guards⟩

theorem Joins.cases {time flight : Nat} {id : ι} {key : String} (joins : Joins moves time id flight)
    (keyed : HasKey moves time id key) :
    (pointAt moves (time + 1) id = some (.following flight) ∧ (key, flight) ∈ (crowdAt moves time).table.entries) ∨
      (Began moves time id ∧ ∀ other, (key, other) ∉ (crowdAt moves time).table.entries) := by
  obtain ⟨joining, joined⟩ := joins
  obtain ⟨caller, here, rfl⟩ := keyed
  rcases pointAt_cases moves time id with same | ⟨absent, -⟩ | ⟨caller', point, table, -, here', turn, after⟩
  · rw [joining] at same
    simp [same] at joined
  · simp [joining] at absent
  · rw [here, Option.some.injEq] at here'
    subst here'
    rw [after] at joined
    cases turn with
    | lead _ absent => exact .inr ⟨⟨joining, _, _, after⟩, Table.flight?_eq_none.1 absent⟩
    | follow _ found =>
        simp only [Option.some.injEq, Point.following.injEq, reduceCtorEq, exists_false, or_false] at joined
        subst joined
        exact .inl ⟨after, Table.mem_of_flight? found⟩
    | toil left working | finish value working | quit working =>
        rw [pointAt_of_callers here, working] at joining
        simp at joining
    | _ => simp at joined

theorem Began.joins {time : Nat} {id : ι} (began : Began moves time id) :
    ∃ flight, Joins moves time id flight := by
  obtain ⟨joining, flight, work, working⟩ := began
  exact ⟨flight, joining, .inr ⟨work, working⟩⟩

theorem Joins.works {time flight : Nat} {id : ι} (joins : Joins moves time id flight) (begins : Began moves time id) :
    ∃ work, pointAt moves (time + 1) id = some (.working flight work) := by
  obtain ⟨-, held, work, working⟩ := begins
  exact joins.2.resolve_left fun follows => by simp [follows] at working

theorem Began.lt_completed {began done flight : Nat} {id : ι} {value : V} (begins : Began moves began id)
    (completed : Completed moves done id flight value) : began < done := by
  rcases Nat.lt_trichotomy began done with lt | rfl | late
  · exact lt
  · obtain ⟨⟨work, working⟩, -⟩ := completed
    simp [begins.1] at working
  · obtain ⟨point, here, ending⟩ := completed.ending late
    rw [begins.1, Option.some.injEq] at here
    subst here
    simp [Ending] at ending

theorem HasLeft.completed {time : Nat} {id : ι} (left : HasLeft moves time id) :
    ∃ done < time, ∃ flight value, Completed moves done id flight value := by
  obtain ⟨value, ⟨flight, closing⟩ | returned⟩ := left
  · obtain ⟨done, lt, completed⟩ := completed_of_ending (.inr (.inr closing))
    exact ⟨done, lt, flight, value, completed⟩
  · obtain ⟨done, lt, flight, completed⟩ := completed_of_returned returned
    exact ⟨done, lt, flight, value, completed⟩

theorem joins_of_point {time flight : Nat} {id : ι}
    (here : pointAt moves time id = some (.following flight) ∨
      ∃ work, pointAt moves time id = some (.working flight work)) :
    ∃ join < time, Joins moves join id flight := by
  induction time with
  | zero => simp [pointAt, crowdAt, run, empty] at here
  | succ time ih =>
      have before (here : pointAt moves time id = some (.following flight) ∨
          ∃ work, pointAt moves time id = some (.working flight work)) :
          ∃ join < time + 1, Joins moves join id flight := by
        obtain ⟨join, lt, joins⟩ := ih here
        exact ⟨join, by omega, joins⟩
      rcases pointAt_cases moves time id with same | ⟨-, came⟩ | ⟨caller, point, table, old, -, turn, after⟩
      · exact before (same ▸ here)
      · simp [came] at here
      · cases turn with
        | lead joining _ | follow joining _ =>
            rw [joining] at old
            exact ⟨time, by omega, old, here⟩
        | toil left working =>
            rw [working] at old
            simp only [after, Option.some.injEq, Point.working.injEq, reduceCtorEq, false_or] at here
            obtain ⟨_, rfl, rfl⟩ := here
            exact before (.inr ⟨_, old⟩)
        | _ => simp [after] at here

theorem began_of_leads {time flight : Nat} {id : ι} {key : String}
    (leads : (crowdAt moves time).Leads id key flight) :
    ∃ start < time, Began moves start id ∧ ∃ work, pointAt moves (start + 1) id = some (.working flight work) := by
  obtain ⟨-, point, here, guards⟩ := guards_of_leads leads
  clear leads
  induction time generalizing point with
  | zero => simp [pointAt, crowdAt, run, empty] at here
  | succ time ih =>
      have before {point : Point W V} (here : pointAt moves time id = some point)
          (guards : point.guards = some flight) :
          ∃ start < time + 1, Began moves start id ∧
            ∃ work, pointAt moves (start + 1) id = some (.working flight work) := by
        obtain ⟨start, lt, began⟩ := ih point here guards
        exact ⟨start, by omega, began⟩
      rcases pointAt_cases moves time id with same | ⟨-, came⟩ | ⟨caller, next, table, old, -, turn, after⟩
      · exact before (same ▸ here) guards
      · rw [came, Option.some.injEq] at here
        subst here
        cases guards
      · rw [after, Option.some.injEq] at here
        subst here
        rcases turn.entries with ⟨kept, -⟩ | ⟨-, new, -⟩ | ⟨mine, -, none, -⟩
        · exact before old (kept ▸ guards)
        · cases turn with
          | lead joining absent =>
              rw [joining] at old
              cases guards
              exact ⟨time, by omega, ⟨old, _, _, after⟩, _, after⟩
          | toil left working | finish value working | publish working | quit working =>
              simp_all [Point.guards]
          | _ => cases new
        · rw [none] at guards
          cases guards

theorem not_leads_of_begun {start time flight : Nat} {id : ι} {key : String} {point : Point W V}
    (le : start ≤ time) (here : pointAt moves start id = some point) (begun : Begun point)
    (unguarded : point.guards = none) : ¬ (crowdAt moves time).Leads id key flight := by
  intro leads
  obtain ⟨-, later, found, guards⟩ := guards_of_leads leads
  have kept (caller : Caller W V) (table : Table V) (point : Point W V) (next : Table V)
      (turn : Turn caller table point next) (good : Begun caller.point ∧ caller.point.guards = none) :
      Begun point ∧ point.guards = none := by
    refine ⟨begun_turn caller table point next turn good.1, ?_⟩
    rcases turn.entries with ⟨same, -⟩ | ⟨-, -, -⟩ | ⟨mine, -, none, -⟩
    · rw [same, good.2]
    · cases turn <;> simp_all [Begun, Point.guards]
    · exact none
  obtain ⟨other, same, -, none⟩ := pointAt_stays (fun point => Begun point ∧ point.guards = none) le kept
    ⟨point, here, begun, unguarded⟩
  rw [found, Option.some.injEq] at same
  subst same
  rw [guards] at none
  cases none

def Settled (moves : List (Move ι W V)) (time flight : Nat) : Prop :=
  ∃ channel value, (crowdAt moves time).table.channels[flight]? = some channel ∧ channel.value = some value

theorem Turn.settled {caller : Caller W V} {table next : Table V} {point : Point W V} {flight : Nat}
    {channel : Channel V} {value : V} (turn : Turn caller table point next)
    (found : table.channels[flight]? = some channel) (published : channel.value = some value) :
    ∃ channel value, next.channels[flight]? = some channel ∧ channel.value = some value := by
  cases turn with
  | lead here absent =>
      have lt := (List.getElem?_eq_some_iff.1 found).1
      rw [Table.join_absent absent]
      exact ⟨channel, value, by rw [List.getElem?_append_left lt, found], published⟩
  | publish here =>
      simp only [Table.publish, Table.update_channels, found]
      split
      · exact ⟨_, _, rfl, rfl⟩
      · exact ⟨_, _, rfl, published⟩
  | close here | hangUp here =>
      simp only [Table.close, Table.update_channels, found]
      split
      · exact ⟨_, _, rfl, published⟩
      · exact ⟨_, _, rfl, published⟩
  | _ => exact ⟨channel, value, found, published⟩

theorem Settled.succ {time flight : Nat} (settled : Settled moves time flight) :
    Settled moves (time + 1) flight := by
  obtain ⟨channel, value, found, published⟩ := settled
  rcases crowdAt_cases moves time with same | ⟨id, key, work, -, came⟩ |
      ⟨id, caller, point, table, -, turn, moved⟩
  · exact ⟨channel, value, by rw [same, found], published⟩
  · exact ⟨channel, value, by rw [came, place_table, found], published⟩
  · rw [Settled, moved, place_table]
    exact Turn.settled turn found published

theorem Settled.stays {start time flight : Nat} (settled : Settled moves start flight) (le : start ≤ time) :
    Settled moves time flight := by
  induction le with
  | refl => exact settled
  | step _ ih => exact ih.succ

theorem settled_of_leaving {time flight : Nat} {id : ι} {value : V}
    (leaving : pointAt moves time id = some (.leaving flight value)) : Settled moves time flight := by
  induction time with
  | zero => simp [pointAt, crowdAt, run, empty] at leaving
  | succ time ih =>
      rcases crowdAt_cases moves time with same | ⟨other, key, work, -, came⟩ |
          ⟨other, caller, point, table, here, turn, moved⟩
      · rw [pointAt, same] at leaving
        exact (ih leaving).succ
      · rw [pointAt, came, place_callers] at leaving
        split at leaving
        · simp [Caller.arrive] at leaving
        · exact (ih leaving).succ
      · rw [pointAt, moved, place_callers] at leaving
        split at leaving
        · rw [Option.map_some, Caller.at_point, Option.some.injEq] at leaving
          subst leaving
          cases turn with
          | publish publishing =>
              have holds : (crowdAt moves time).Holds other flight := ⟨caller, here, by rw [publishing]; rfl⟩
              obtain ⟨channel, found, -⟩ := ((sound_crowdAt moves time).open_iff flight).2 ⟨other, holds⟩
              rw [Settled, moved, place_table, Table.publish, Table.update_channels, if_pos rfl, found]
              exact ⟨_, value, rfl, rfl⟩
        · exact (ih leaving).succ

/-- A leader that has not been abandoned: it works, or its work is done. -/
inductive Flies (moves : List (Move ι W V)) (time : Nat) (id : ι) (flight : Nat) : Prop where
  | working (work : W) : pointAt moves time id = some (.working flight work) → Flies moves time id flight
  | publishing (value : V) : pointAt moves time id = some (.publishing flight value) →
      Flies moves time id flight
  | settled (value : V) : pointAt moves time id = some (.leaving flight value) ∨
      pointAt moves time id = some (.closing flight value) ∨
      pointAt moves time id = some (.returned value false) →
      Settled moves time flight → Flies moves time id flight

theorem Flies.succ {time flight : Nat} {id : ι} (flies : Flies moves time id flight)
    (kept : ¬ Dropped moves time id) : Flies moves (time + 1) id flight := by
  rcases pointAt_cases moves time id with same | ⟨absent, -⟩ | ⟨caller, point, table, before, here, turn, after⟩
  · cases flies with
    | working work point => exact .working work (same ▸ point)
    | publishing value point => exact .publishing value (same ▸ point)
    | settled value point settled => exact .settled value (same ▸ point) (settled.stays (Nat.le_succ _))
  · cases flies <;> simp_all
  · cases flies with
    | working work point =>
        rw [point, Option.some.injEq] at before
        cases turn with
        | toil left working =>
            rw [working] at before
            cases before
            exact .working left after
        | finish value working =>
            rw [working] at before
            cases before
            exact .publishing value after
        | quit working =>
            rw [working] at before
            cases before
            exact absurd (.inl ⟨_, _, point, after⟩) kept
        | _ => simp_all
    | publishing value point =>
        rw [point, Option.some.injEq] at before
        cases turn with
        | publish publishing =>
            rw [publishing] at before
            cases before
            exact .settled value (.inl after) (settled_of_leaving after)
        | _ => simp_all
    | settled value point settled =>
        refine .settled value ?_ (settled.stays (Nat.le_succ _))
        cases turn <;> simp_all

theorem Flies.stays {start time flight : Nat} {id : ι} (flies : Flies moves start id flight)
    (le : start ≤ time) (kept : ∀ meanwhile ≥ start, ¬ Dropped moves meanwhile id) :
    Flies moves time id flight := by
  induction le with
  | refl => exact flies
  | step le ih => exact ih.succ (kept _ le)

theorem Settled.look {time flight : Nat} (settled : Settled moves time flight) :
    ∃ value, (crowdAt moves time).table.look flight = .value value := by
  obtain ⟨⟨published, live⟩, value, found, same⟩ := settled
  subst same
  exact ⟨value, by simp only [Table.look, found]⟩

theorem Flies.look {time flight : Nat} {id : ι} (flies : Flies moves time id flight) :
    (crowdAt moves time).table.look flight ≠ .gone := by
  have holding {point : Point W V} (here : pointAt moves time id = some point)
      (sends : point.sends = some flight) : (crowdAt moves time).table.look flight ≠ .gone := by
    obtain ⟨caller, present, rfl⟩ := Option.map_eq_some_iff.1 here
    exact (((sound_crowdAt moves time).open_iff flight).2 ⟨id, caller, present, sends⟩).look_ne_gone
  cases flies with
  | working work here => exact holding here rfl
  | publishing value here => exact holding here rfl
  | settled value here settled =>
      obtain ⟨value, look⟩ := settled.look
      simp [look]

theorem Flies.unshared {time flight : Nat} {id : ι} {value : V} {shared : Bool} (flies : Flies moves time id flight)
    (returned : pointAt moves time id = some (.returned value shared)) : shared = false := by
  cases flies with
  | working work here => simp [returned] at here
  | publishing value here => simp [returned] at here
  | settled value here _ => simp_all

theorem completed_of_look {time flight : Nat} {value : V}
    (sight : (crowdAt moves time).table.look flight = .value value) :
    ∃ start < time, ∃ id, Completed moves start id flight value := by
  unfold Table.look at sight
  split at sight
  · rename_i found
    cases sight
    exact completed_of_published found rfl
  · cases sight
  · cases sight
  · cases sight

theorem follows_stays {start time flight : Nat} {id leader : ι} (le : start ≤ time)
    (follows : pointAt moves start id = some (.following flight))
    (flies : ∀ meanwhile ≥ start, Flies moves meanwhile leader flight)
    (kept : ∀ meanwhile ≥ start, ¬ Dropped moves meanwhile id) :
    pointAt moves time id = some (.following flight) ∨
      ∃ value, pointAt moves time id = some (.returned value true) ∧
        ∃ earlier < time, ∃ other, Completed moves earlier other flight value := by
  induction le with
  | refl => exact .inl follows
  | @step time le ih =>
      rcases ih with here | ⟨value, here, earlier, lt, completed⟩
      · rcases pointAt_cases moves time id with same | ⟨absent, -⟩ | ⟨caller, point, table, before, -, turn, after⟩
        · exact .inl (same ▸ here)
        · simp [here] at absent
        · rw [here, Option.some.injEq] at before
          cases turn with
          | @land _ value following sight =>
              rw [following] at before
              cases before
              obtain ⟨earlier, lt, completed⟩ := completed_of_look sight
              exact .inr ⟨value, after, earlier, by omega, completed⟩
          | rejoin following sight =>
              rw [following] at before
              cases before
              exact absurd sight (flies time le).look
          | resign following => exact absurd (.inr ⟨.inr ⟨_, here⟩, after⟩) (kept time le)
          | _ => simp_all
      · exact .inr ⟨value, returned_stays (Nat.le_succ _) here, earlier, by omega, completed⟩

end SecretStore.Flight.Crowd
