import SecretStore.Proofs.Flight.Provenance

namespace SecretStore.Flight.Crowd

variable {ι W V : Type} [DecidableEq ι]

inductive Evolves : List (Crowd ι W V) → Crowd ι W V → Prop where
  | start : Evolves [] empty
  | stay {past : List (Crowd ι W V)} {crowd : Crowd ι W V} :
      Evolves past crowd → Evolves (past ++ [crowd]) crowd
  | move {past : List (Crowd ι W V)} {crowd : Crowd ι W V} (step : Move ι W V) :
      Evolves past crowd → Evolves (past ++ [crowd]) (crowd.move step)

namespace Evolves

variable {past : List (Crowd ι W V)} {crowd after : Crowd ι W V}

theorem step (evolves : Evolves past crowd) (moved : after = crowd ∨ ∃ step, after = crowd.move step) :
    Evolves (past ++ [crowd]) after := by
  rcases moved with rfl | ⟨step, rfl⟩
  · exact evolves.stay
  · exact evolves.move step

theorem moves (evolves : Evolves past crowd) :
    ∃ moves, crowd = crowdAt moves moves.length ∧ ∀ time, crowdAt moves time ∈ past ++ [crowd] := by
  induction evolves with
  | start => exact ⟨[], rfl, fun time => by rw [crowdAt, List.take_nil]; exact List.mem_singleton_self _⟩
  | stay evolves ih =>
      obtain ⟨moves, now, ever⟩ := ih
      exact ⟨moves, now, fun time => List.mem_append_left _ (ever time)⟩
  | @move past crowd step evolves ih =>
      obtain ⟨moves, now, ever⟩ := ih
      have last : crowd.move step = crowdAt (moves ++ [step]) (moves.length + 1) := by
        rw [now, crowdAt, crowdAt, List.take_length, List.take_of_length_le (by simp), run_append]
        rfl
      refine ⟨moves ++ [step], by simpa using last, ?_⟩
      intro time
      rcases Nat.lt_or_ge moves.length time with late | soon
      · have same : crowdAt (moves ++ [step]) time = crowd.move step := by
          rw [last, crowdAt, crowdAt, List.take_of_length_le (by simp; omega), List.take_of_length_le (by simp)]
        rw [same]
        exact List.mem_append_right _ (List.mem_singleton_self _)
      · have same : crowdAt (moves ++ [step]) time = crowdAt moves time := by
          rw [crowdAt, crowdAt, List.take_append_of_le_length soon]
        rw [same]
        exact List.mem_append_left _ (ever time)

theorem sound (evolves : Evolves past crowd) : crowd.Sound := by
  obtain ⟨moves, now, -⟩ := evolves.moves
  rw [now]
  exact sound_crowdAt moves moves.length

theorem joined (evolves : Evolves past crowd) {id : ι} {caller : Caller W V} {value : V}
    (here : crowd.callers id = some caller) (point : caller.point = .returned value true) :
    ∃ leader ≠ id, ∃ flight,
      (∃ then' ∈ past ++ [crowd], then'.Follows id caller.key flight ∧ then'.Leads leader caller.key flight) ∧
      ∃ then' ∈ past ++ [crowd], ∃ publisher,
        then'.callers leader = some publisher ∧ publisher.point = .publishing flight value := by
  obtain ⟨moves, now, ever⟩ := evolves.moves
  have here' : (crowdAt moves moves.length).callers id = some caller := now ▸ here
  have returned : pointAt moves moves.length id = some (.returned value true) := by
    rw [pointAt, here', ← point]
    rfl
  obtain ⟨leader, foreign, flight, ⟨start, -, completed⟩, meanwhile, before, key, follows, leads, -⟩ :=
    source_of_shared returned
  have same : key = caller.key := by
    obtain ⟨follower, then', rfl, -⟩ := follows
    obtain ⟨later, there, same⟩ := key_stays (Nat.le_of_lt before) then'
    rw [here', Option.some.injEq] at there
    rw [← same, ← there]
  subst same
  obtain ⟨publisher, there, point'⟩ := Option.map_eq_some_iff.1 completed.2
  exact ⟨leader, foreign, flight, ⟨_, ever meanwhile, follows, leads⟩, _, ever (start + 1), publisher, there, point'⟩

theorem pending (evolves : Evolves past crowd) {id : ι} {caller : Caller W V} {flight : Nat} {work : W}
    (here : crowd.callers id = some caller) (point : caller.point = .working flight work) :
    crowd.table.look flight = .pending := by
  have holds : crowd.Holds id flight := ⟨caller, here, by rw [point]; rfl⟩
  obtain ⟨⟨value, live⟩, found, live'⟩ := (evolves.sound.open_iff flight).2 ⟨id, holds⟩
  obtain rfl : live = true := live'
  cases value with
  | none => simp only [Table.look, found]
  | some value =>
      obtain ⟨moves, now, -⟩ := evolves.moves
      rw [now] at found holds here
      obtain ⟨start, lt, other, completed⟩ := completed_of_published found rfl
      obtain rfl := holder_unique_ever completed.holds holds
      obtain ⟨ended, at_end, ending⟩ := completed.ending lt
      rw [pointAt, here, Option.map_some, point, Option.some.injEq] at at_end
      subst at_end
      simp [Ending] at ending

end Evolves

end SecretStore.Flight.Crowd
