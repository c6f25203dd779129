import SecretStore.Proofs.Cancellation.Waiters

namespace SecretStore.Cancellation

/-! ## Waiters of families that are cancelled -/

/-- Invariant of a run in which the families of `called` have been cancelled and `home` gives the family of each
waiter. -/
structure Tidy (called : Family → Prop) (home : String → Option Family) (state : State) : Prop where
  cancelled_iff : ∀ family, state.isCancelled family = true ↔ called family
  waking_nodup : state.waking.Nodup
  waking_called : ∀ {family}, family ∈ state.waking → called family
  distinct : state.Distinct
  homes : ∀ {waiter}, waiter ∈ state.waiters → home waiter.id = some waiter.family
  woken : ∀ {waiter}, waiter ∈ state.waiters → waiter.woken = true → called waiter.family
  parked : ∀ {waiter}, waiter ∈ state.waiters → waiter.stage = .parked → called waiter.family →
    waiter.family ∈ state.waking ∨ waiter.woken = true
  finished : ∀ {id}, id ∈ state.finished → ∃ family, home id = some family ∧ called family

namespace Tidy

variable {called called' : Family → Prop} {home home' : String → Option Family} {state : State}
  {step : Step}

theorem congr (tidy : Tidy called home state) (same : ∀ family, called' family ↔ called family)
    (kept : ∀ id, home' id = home id) : Tidy called' home' state := by
  obtain rfl : called' = called := funext fun family => propext (same family)
  obtain rfl : home' = home := funext kept
  exact tidy

theorem left_fine (tidy : Tidy called home state) {before after : Waiter} (here : before ∈ state.waiters)
    (left : state.left step before = some after)
    (grows : ∀ family, called' family ↔ called family ∨ step = .raise family) :
    after.id = before.id ∧ after.family = before.family ∧
      (after.woken = true → called' after.family) ∧
      (after.stage = .parked → called' after.family →
        after.family ∈ (state.act step).waking ∨ after.woken = true) := by
  have woken := tidy.woken here
  have parked := tidy.parked here
  have cancelled := tidy.cancelled_iff before.family
  have waking := @tidy.waking_called before.family
  have distinct := tidy.waking_nodup
  rw [State.waking_act]
  cases step with
  | wake family =>
      simp only [State.left] at left
      split at left <;> cases left <;> grind
  | raise family =>
      cases left
      grind
  | _ => grind [State.left]

theorem act_waking_nodup (tidy : Tidy called home state) : (state.act step).waking.Nodup := by
  rw [State.waking_act]
  cases step with
  | raise family =>
      simp only
      split
      · exact tidy.waking_nodup
      next absent =>
        refine List.nodup_cons.2 ⟨fun waking => absent ?_, tidy.waking_nodup⟩
        exact (tidy.cancelled_iff family).2 (tidy.waking_called waking)
  | wake family => exact tidy.waking_nodup.erase family
  | _ => exact tidy.waking_nodup

theorem act_waking (tidy : Tidy called home state) {family : Family}
    (waking : family ∈ (state.act step).waking) : called family ∨ step = .raise family := by
  rw [State.waking_act] at waking
  cases step with
  | raise raised =>
      simp only at waking
      split at waking
      · exact Or.inl (tidy.waking_called waking)
      · rcases List.mem_cons.1 waking with rfl | waking
        · exact Or.inr rfl
        · exact Or.inl (tidy.waking_called waking)
  | wake woken => exact Or.inl (tidy.waking_called (List.mem_of_mem_erase waking))
  | _ => exact Or.inl (tidy.waking_called waking)

theorem act (tidy : Tidy called home state)
    (grows : ∀ family, called' family ↔ called family ∨ step = .raise family)
    (keeps : ∀ {id family}, home id = some family → home' id = some family)
    (arrives : ∀ {id family}, step = .arrive id family → home id = none ∧ home' id = some family) :
    Tidy called' home' (state.act step) where
  cancelled_iff family := by rw [State.isCancelled_act, tidy.cancelled_iff, grows]
  waking_nodup := tidy.act_waking_nodup
  waking_called waking := (grows _).2 (tidy.act_waking waking)
  distinct := by
    refine tidy.distinct.act ?_
    rintro id family arriving waiter here rfl
    cases (tidy.homes here).symm.trans (arrives arriving).1
  homes here := by
    rcases tidy.distinct.mem_act.1 here with ⟨before, there, left⟩ | ⟨id, family, arriving, rfl⟩
    · obtain ⟨named, family, -⟩ := tidy.left_fine there left grows
      rw [named, family]
      exact keeps (tidy.homes there)
    · exact (arrives arriving).2
  woken here := by
    rcases tidy.distinct.mem_act.1 here with ⟨before, there, left⟩ | ⟨id, family, arriving, rfl⟩
    · exact (tidy.left_fine there left grows).2.2.1
    · simp
  parked here := by
    rcases tidy.distinct.mem_act.1 here with ⟨before, there, left⟩ | ⟨id, family, arriving, rfl⟩
    · exact (tidy.left_fine there left grows).2.2.2
    · simp
  finished {id} ended := by
    rcases tidy.distinct.mem_finished_act.1 ended with before | ⟨waiter, here, rfl, ends⟩
    · obtain ⟨family, there, known⟩ := tidy.finished before
      exact ⟨family, keeps there, (grows family).2 (Or.inl known)⟩
    · refine ⟨waiter.family, keeps (tidy.homes here), (grows _).2 (Or.inl ?_)⟩
      rcases ends with ⟨-, -, flag⟩ | ⟨-, -, woken⟩
      · exact (tidy.cancelled_iff _).1 flag
      · exact tidy.woken here woken

end Tidy

/-! ## Waiters that are being polled -/

def Stage.rank : Stage → Nat
  | .arriving => 0
  | .registered => 1
  | .parked => 2

namespace State

/-- The waiter has reached this rank and needs no pending notification to go on, or it has finished. -/
def Nears (called : Family → Prop) (state : State) (id : String) (rank : Nat) : Prop :=
  id ∈ state.finished ∨ ∃ waiter ∈ state.waiters, waiter.id = id ∧ called waiter.family ∧
    (waiter.stage = .parked → waiter.woken = true) ∧ rank ≤ waiter.stage.rank

variable {called : Family → Prop} {home : String → Option Family} {state : State} {step : Step}
  {id : String} {rank : Nat}

theorem Nears.finished (nears : state.Nears called id 3) : id ∈ state.finished := by
  rcases nears with ended | ⟨waiter, -, -, -, -, far⟩
  · exact ended
  · cases stage : waiter.stage <;> simp [stage, Stage.rank] at far

def nextStep (id : String) : Nat → Step
  | 0 => .register id
  | 1 => .readFlag id
  | _ => .resume id

theorem Nears.mono {called' : Family → Prop} (nears : state.Nears called id rank)
    (grows : ∀ family, called family → called' family) : state.Nears called' id rank := by
  rcases nears with ended | ⟨waiter, here, named, known, rest⟩
  · exact Or.inl ended
  · exact Or.inr ⟨waiter, here, named, grows _ known, rest⟩

theorem Nears.act (tidy : Tidy called home state) (nears : state.Nears called id rank)
    (kept : step ≠ .abandon id) :
    (state.act step).Nears called id rank ∧
      (step = nextStep id rank → rank ≤ 2 → (state.act step).Nears called id (rank + 1)) := by
  rcases nears with ended | ⟨waiter, here, rfl, known, ready, far⟩
  · have ended : id ∈ (state.act step).finished := tidy.distinct.mem_finished_act.2 (Or.inl ended)
    exact ⟨Or.inl ended, fun _ _ => Or.inl ended⟩
  · have flag := (tidy.cancelled_iff _).2 known
    rcases tidy.distinct.stays here kept with ended | ⟨after, there, left, named⟩
    · exact ⟨Or.inl ended, fun _ _ => Or.inl ended⟩
    · obtain ⟨family, ready', further⟩ : after.family = waiter.family ∧
          (after.stage = .parked → after.woken = true) ∧ waiter.stage.rank ≤ after.stage.rank := by
        cases step <;> grind [State.left, Stage.rank]
      refine ⟨Or.inr ⟨after, there, named, family ▸ known, ready', Nat.le_trans far further⟩, ?_⟩
      rintro rfl bound
      refine Or.inr ⟨after, there, named, family ▸ known, ready', ?_⟩
      obtain rfl | rfl | rfl : rank = 0 ∨ rank = 1 ∨ rank = 2 := by omega
      all_goals cases stage : waiter.stage <;> grind [State.left, Stage.rank, nextStep]

end State

/-! ## Threads -/

/-- A cancel call that has begun. It owes the notification if it was the one that set the flag. -/
structure Canceller where
  family : Family
  owes : Bool
  deriving DecidableEq, Repr

structure Threads where
  session : Session
  cancellers : List Canceller

inductive Event where
  | make (name : String)
  | clone (name source : String)
  | forget (name : String)
  | cancel (name : String)
  | wake (number : Nat)
  | wait (id name : String)
  | register (id : String)
  | readFlag (id : String)
  | resume (id : String)
  | abandon (id : String)
  deriving DecidableEq, Repr

/-- The latest event first. -/
abbrev History := List Event

namespace Threads

def start : Threads := ⟨.initial, []⟩

def act (threads : Threads) (step : Step) : Threads :=
  { threads with session := { threads.session with state := threads.session.state.act step } }

def command (threads : Threads) (command : Command) : Threads :=
  { threads with session := threads.session.apply command }

def move (threads : Threads) : Event → Threads
  | .make name => threads.command (.make name)
  | .clone name source => threads.command (.clone name source)
  | .forget name => threads.command (.forget name)
  | .cancel name =>
    match threads.session.family? name with
    | some family =>
      { threads.act (.raise family) with
        cancellers := threads.cancellers ++ [⟨family, !threads.session.state.isCancelled family⟩] }
    | none => threads
  | .wake number =>
    match threads.cancellers[number]? with
    | some ⟨family, true⟩ =>
      { threads.act (.wake family) with cancellers := threads.cancellers.set number ⟨family, false⟩ }
    | _ => threads
  | .wait id name => threads.command (.wait id name)
  | .register id => threads.act (.register id)
  | .readFlag id => threads.act (.readFlag id)
  | .resume id => threads.act (.resume id)
  | .abandon id => threads.command (.drop id)

end Threads

/-! ## Histories -/

namespace History

def names : History → List String
  | [] => []
  | .wait id _ :: past => id :: names past
  | _ :: past => names past

def threads : History → Threads
  | [] => .start
  | .wait id name :: past =>
    if id ∈ names past then threads past else (threads past).move (.wait id name)
  | event :: past => (threads past).move event

def made : History → Nat
  | [] => 0
  | .make _ :: past => made past + 1
  | _ :: past => made past

/-- A clone belongs to the family of its source, and a new handle to a new family. -/
def origin? : History → String → Option Family
  | [], _ => none
  | .make name :: past, other => if other = name then some (made past) else origin? past other
  | .clone name source :: past, other =>
    if other = name then (origin? past source).or (origin? past name) else origin? past other
  | .forget name :: past, other => if other = name then none else origin? past other
  | _ :: past, other => origin? past other

def waitsOn? : History → String → Option Family
  | [], _ => none
  | .wait id name :: past, other =>
    if other = id ∧ id ∉ names past then origin? past name else waitsOn? past other
  | _ :: past, other => waitsOn? past other

def Called (past : History) (family : Family) : Prop :=
  ∃ name earlier, .cancel name :: earlier <:+ past ∧ origin? earlier name = some family

def step? (past : History) : Event → Option Step
  | .make _ | .clone .. | .forget _ => none
  | .cancel name => (origin? past name).map .raise
  | .wake number =>
    match past.threads.cancellers[number]? with
    | some ⟨family, true⟩ => some (.wake family)
    | _ => none
  | .wait id name => if id ∈ names past then none else (origin? past name).map (.arrive id)
  | .register id => some (.register id)
  | .readFlag id => some (.readFlag id)
  | .resume id => some (.resume id)
  | .abandon id => some (.abandon id)

variable {past : History} {event : Event} {family : Family}

theorem step?_eq_raise : step? past event = some (.raise family) ↔
    ∃ name, event = .cancel name ∧ origin? past name = some family := by
  cases event with
  | cancel name => simp [step?]
  | wake number =>
      simp only [step?]
      split <;> simp
  | wait id name =>
      simp only [step?]
      split <;> simp
  | _ => simp [step?]

theorem step?_eq_arrive {id : String} : step? past event = some (.arrive id family) ↔
    ∃ name, event = .wait id name ∧ id ∉ names past ∧ origin? past name = some family := by
  cases event with
  | cancel name => simp [step?]
  | wake number =>
      simp only [step?]
      split <;> simp
  | wait other name =>
      simp only [step?]
      split
      next taken =>
        simp only [reduceCtorEq, Event.wait.injEq, false_iff, not_exists, not_and]
        rintro _ ⟨rfl, -⟩ fresh
        exact absurd taken fresh
      next fresh =>
        simp only [Option.map_eq_some_iff, Step.arrive.injEq, Event.wait.injEq]
        grind
  | _ => simp [step?]

theorem step?_eq_abandon {id : String} : step? past event = some (.abandon id) ↔ event = .abandon id := by
  cases event with
  | cancel name => simp [step?]
  | wake number =>
      simp only [step?]
      split <;> simp
  | wait id name =>
      simp only [step?]
      split <;> simp
  | _ => simp [step?]

theorem called_cons : Called (event :: past) family ↔
    Called past family ∨ step? past event = some (.raise family) := by
  simp only [step?_eq_raise, Called, List.suffix_cons_iff, List.cons.injEq]
  grind

theorem waitsOn?_eq_none {id : String} (fresh : id ∉ past.names) : past.waitsOn? id = none := by
  induction past with
  | nil => rfl
  | cons event past ih =>
      cases event <;> grind [waitsOn?, names]

theorem waitsOn?_arriving {id : String} (arriving : step? past event = some (.arrive id family)) :
    waitsOn? past id = none := by
  obtain ⟨name, -, fresh, -⟩ := step?_eq_arrive.1 arriving
  exact waitsOn?_eq_none fresh

theorem waitsOn?_cons {id : String} : waitsOn? (event :: past) id = some family ↔
    waitsOn? past id = some family ∨ step? past event = some (.arrive id family) := by
  rw [step?_eq_arrive]
  cases event with
  | wait other name =>
      have nobody := @waitsOn?_eq_none past other
      simp only [waitsOn?, Event.wait.injEq]
      grind
  | _ => simp [waitsOn?]

theorem called_append (more : History) (called : past.Called family) : (more ++ past).Called family := by
  obtain ⟨name, earlier, before, home⟩ := called
  exact ⟨name, earlier, before.trans (List.suffix_append more past), home⟩

theorem origin_lt_made {name : String} (home : past.origin? name = some family) : family < past.made := by
  induction past generalizing name family with
  | nil => cases home
  | cons event past ih =>
      cases event <;> grind [origin?, made, Option.or_eq_some_iff]

theorem called_lt_made (called : past.Called family) : family < past.made := by
  induction past with
  | nil =>
      obtain ⟨name, earlier, before, -⟩ := called
      cases List.suffix_nil.1 before
  | cons event past ih =>
      rcases called_cons.1 called with called | raised
      · cases event <;> grind [made]
      · obtain ⟨name, rfl, home⟩ := step?_eq_raise.1 raised
        exact origin_lt_made home

/-! ## What carries the statement -/

structure Sound (past : History) : Prop where
  fresh : past.threads.session.fresh = past.made
  handles : ∀ name, past.threads.session.family? name = past.origin? name
  tidy : Tidy past.Called past.waitsOn? past.threads.session.state
  owed : ∀ {family}, family ∈ past.threads.session.state.waking →
    ⟨family, true⟩ ∈ past.threads.cancellers

theorem find?_filter_ne {handles : List (String × Family)} {name other : String} :
    (handles.filter (·.1 ≠ name)).find? (·.1 = other) =
      if other = name then none else handles.find? (·.1 = other) := by
  induction handles with
  | nil => simp
  | cons handle handles ih => grind

theorem family?_bind (session : Session) (name other : String) (family : Family) :
    (session.bind name family).family? other =
      if other = name then some family else session.family? other := by
  simp only [Session.family?, Session.bind, List.find?_append, find?_filter_ne]
  grind

theorem family?_forget (session : Session) (name other : String) :
    (session.apply (.forget name)).family? other =
      if other = name then none else session.family? other := by
  simp only [Session.family?, Session.apply, find?_filter_ne]
  split <;> rfl

theorem quiet_same (cancels : ∀ name, event ≠ .cancel name) (wakes : ∀ number, event ≠ .wake number) :
    (threads (event :: past)).session.state.waking = (threads past).session.state.waking ∧
      (threads (event :: past)).cancellers = (threads past).cancellers := by
  cases event with
  | cancel name => exact absurd rfl (cancels name)
  | wake number => exact absurd rfl (wakes number)
  | clone name source =>
      simp only [threads, Threads.move, Threads.command, Session.apply]
      split <;> simp [Session.bind]
  | wait id name =>
      simp only [threads, Threads.move, Threads.command, Session.apply]
      repeat' split
      all_goals simp [State.act]
  | readFlag id => exact ⟨State.waking_act, rfl⟩
  | resume id => exact ⟨State.waking_act, rfl⟩
  | _ => exact ⟨rfl, rfl⟩

namespace Sound

theorem start : Sound [] where
  fresh := rfl
  handles name := rfl
  tidy := {
    cancelled_iff := by simp [threads, Threads.start, Session.initial, State.initial, State.isCancelled, Called]
    waking_nodup := List.nodup_nil
    waking_called := by simp [threads, Threads.start, Session.initial, State.initial]
    distinct := List.nodup_nil
    homes := by simp [threads, Threads.start, Session.initial, State.initial]
    woken := by simp [threads, Threads.start, Session.initial, State.initial]
    parked := by simp [threads, Threads.start, Session.initial, State.initial]
    finished := by simp [threads, Threads.start, Session.initial, State.initial] }
  owed := by simp [threads, Threads.start, Session.initial, State.initial]

theorem fresh_cons (sound : Sound past) (event : Event) :
    (threads (event :: past)).session.fresh = made (event :: past) := by
  have fresh := sound.fresh
  cases event with
  | make name => exact congrArg (· + 1) fresh
  | clone name source =>
      simp only [threads, Threads.move, Threads.command, Session.apply, made]
      split <;> exact fresh
  | cancel name =>
      simp only [threads, Threads.move, made]
      split <;> exact fresh
  | wake number =>
      simp only [threads, Threads.move, made]
      split <;> exact fresh
  | wait id name =>
      simp only [threads, Threads.move, Threads.command, Session.apply, made]
      repeat' split
      all_goals exact fresh
  | _ => exact fresh

theorem handles_cons (sound : Sound past) (event : Event) (other : String) :
    (threads (event :: past)).session.family? other = origin? (event :: past) other := by
  have handles := sound.handles
  cases event with
  | make name =>
      have made : (threads (.make name :: past)).session.family? other =
          ((threads past).session.bind name (threads past).session.fresh).family? other := rfl
      rw [made, family?_bind, handles, sound.fresh]
      rfl
  | clone name source =>
      simp only [threads, Threads.move, Threads.command, Session.apply, origin?]
      cases known : (threads past).session.family? source with
      | none => grind
      | some family =>
          simp only [family?_bind]
          grind
  | forget name => simp only [threads, Threads.move, Threads.command, family?_forget, handles, origin?]
  | cancel name =>
      simp only [threads, Threads.move, origin?]
      split <;> exact handles other
  | wake number =>
      simp only [threads, Threads.move, origin?]
      split <;> exact handles other
  | wait id name =>
      simp only [threads, Threads.move, Threads.command, Session.apply, origin?]
      repeat' split
      all_goals exact handles other
  | _ => exact handles other

theorem state_cons (sound : Sound past) (event : Event) :
    (threads (event :: past)).session.state =
      (step? past event).elim (threads past).session.state (threads past).session.state.act := by
  cases event with
  | clone name source =>
      simp only [threads, Threads.move, Threads.command, Session.apply]
      split <;> rfl
  | cancel name =>
      simp only [threads, Threads.move, step?, sound.handles]
      cases origin? past name <;> rfl
  | wake number =>
      simp only [threads, Threads.move, step?]
      split <;> rfl
  | wait id name =>
      simp only [threads, Threads.move, Threads.command, Session.apply, step?, sound.handles]
      split
      · rfl
      · cases origin? past name <;> rfl
  | _ => rfl

theorem tidy_cons (sound : Sound past) (event : Event) :
    Tidy (Called (event :: past)) (waitsOn? (event :: past)) (threads (event :: past)).session.state := by
  rw [sound.state_cons event]
  cases step : step? past event with
  | none =>
      refine sound.tidy.congr ?_ ?_
      · intro family
        simp [called_cons, step]
      · intro id
        exact Option.ext fun family => by simp [waitsOn?_cons, step]
  | some step' =>
      refine sound.tidy.act ?_ ?_ ?_
      · intro family
        rw [called_cons, step, Option.some.injEq]
      · exact fun waits => waitsOn?_cons.2 (Or.inl waits)
      · rintro id family rfl
        exact ⟨waitsOn?_arriving step, waitsOn?_cons.2 (Or.inr step)⟩

theorem owed_cons (sound : Sound past) (event : Event) {family : Family}
    (waking : family ∈ (threads (event :: past)).session.state.waking) :
    ⟨family, true⟩ ∈ (threads (event :: past)).cancellers := by
  have owed := @Sound.owed past sound family
  by_cases halves : (∃ name, event = .cancel name) ∨ ∃ number, event = .wake number
  · rcases halves with ⟨name, rfl⟩ | ⟨number, rfl⟩
    · simp only [threads, Threads.move] at waking ⊢
      cases known : (threads past).session.family? name with
      | none =>
          rw [known] at waking
          exact owed waking
      | some raised =>
          simp only [known, Threads.act, State.waking_act, List.mem_append, List.mem_singleton] at waking ⊢
          grind
    · simp only [threads, Threads.move] at waking ⊢
      split at waking
      next woken owes =>
        simp only [Threads.act, State.waking_act] at waking
        obtain ⟨other, waking⟩ := sound.tidy.waking_nodup.mem_erase_iff.1 waking
        obtain ⟨place, found⟩ := List.mem_iff_getElem?.1 (owed waking)
        have apart : number ≠ place := by
          rintro rfl
          rw [owes] at found
          cases found
          exact other rfl
        exact List.mem_iff_getElem?.2 ⟨place, by rw [List.getElem?_set_ne apart, found]⟩
      · exact owed waking
  · obtain ⟨same, kept⟩ : (threads (event :: past)).session.state.waking = (threads past).session.state.waking ∧ _ :=
      quiet_same (fun name same => halves (Or.inl ⟨name, same⟩)) fun number same => halves (Or.inr ⟨number, same⟩)
    rw [kept]
    exact owed (same ▸ waking)

theorem cons (sound : Sound past) (event : Event) : Sound (event :: past) :=
  ⟨sound.fresh_cons event, sound.handles_cons event, sound.tidy_cons event, sound.owed_cons event⟩

end Sound

theorem sound (past : History) : Sound past := by
  induction past with
  | nil => exact .start
  | cons event past ih => exact ih.cons event

/-! ## Polling -/

variable {id : String}

theorem present (waits : past.waitsOn? id = some family) (kept : .abandon id ∉ past) :
    id ∈ past.threads.session.state.finished ∨
      ∃ waiter ∈ past.threads.session.state.waiters, waiter.id = id := by
  induction past with
  | nil => cases waits
  | cons event past ih =>
      obtain ⟨still, kept⟩ := not_or.1 (fun gone => kept (List.mem_cons.2 gone))
      have distinct := (sound past).tidy.distinct
      rw [(sound past).state_cons event]
      rcases waitsOn?_cons.1 waits with waits | arriving
      · cases step : step? past event with
        | none => exact ih waits kept
        | some step' =>
            rcases ih waits kept with ended | ⟨waiter, here, rfl⟩
            · exact Or.inl (distinct.mem_finished_act.2 (Or.inl ended))
            · have kept : step' ≠ .abandon waiter.id := by
                rintro rfl
                exact still (step?_eq_abandon.1 step).symm
              rcases distinct.stays here kept with ended | ⟨after, there, -, named⟩
              · exact Or.inl ended
              · exact Or.inr ⟨after, there, named⟩
      · rw [arriving]
        exact Or.inr ⟨_, distinct.mem_act.2 (Or.inr ⟨id, family, rfl, rfl⟩), rfl⟩

def polling (id : String) : Nat → History
  | 0 => []
  | 1 => [.register id]
  | 2 => [.readFlag id, .register id]
  | _ => [.resume id, .readFlag id, .register id]

theorem nears_cons {rank : Nat} (nears : past.threads.session.state.Nears past.Called id rank)
    (kept : event ≠ .abandon id) :
    (threads (event :: past)).session.state.Nears (Called (event :: past)) id rank := by
  rw [(sound past).state_cons event]
  refine State.Nears.mono ?_ fun family called => called_append [event] called
  cases step : step? past event with
  | none => exact nears
  | some step' =>
      refine (nears.act (sound past).tidy ?_).1
      rintro rfl
      exact kept (step?_eq_abandon.1 step)

theorem nears_next {rank : Nat} (nears : past.threads.session.state.Nears past.Called id rank)
    (step : step? past event = some (State.nextStep id rank)) (bound : rank ≤ 2) :
    (threads (event :: past)).session.state.Nears (Called (event :: past)) id (rank + 1) := by
  rw [(sound past).state_cons event, step]
  refine State.Nears.mono ?_ fun family called => called_append [event] called
  refine (nears.act (sound past).tidy ?_).2 rfl bound
  match rank, bound with
  | 0, _ | 1, _ | 2, _ => simp [State.nextStep]

theorem nears_polled {more : History} {rank : Nat}
    (nears : past.threads.session.state.Nears past.Called id 0) (kept : .abandon id ∉ more)
    (polled : (polling id rank).Sublist more) (bound : rank ≤ 3) :
    (threads (more ++ past)).session.state.Nears (Called (more ++ past)) id rank := by
  induction more generalizing rank with
  | nil =>
      match rank, bound with
      | 0, _ => exact nears
      | 1, _ | 2, _ | 3, _ => cases polled
  | cons event more ih =>
      obtain ⟨still, others⟩ := not_or.1 (fun gone => kept (List.mem_cons.2 gone))
      by_cases before : (polling id rank).Sublist more
      · exact nears_cons (ih others before bound) (Ne.symm still)
      · match rank, bound with
        | 0, _ => exact absurd (List.nil_sublist more) before
        | 1, _ | 2, _ | 3, _ =>
          cases polled with
          | cons _ polled => exact absurd polled before
          | cons_cons _ polled => exact nears_next (ih others polled (by omega)) rfl (by omega)

/-! ## The statement -/

structure Heeded (past : History) : Prop where
  cancelled_iff : ∀ {name family}, origin? past name = some family →
    (past.threads.session.isCancelled name = true ↔ past.Called family)
  never_reverts : ∀ {more : History} {name other family}, origin? past name = some family →
    past.threads.session.isCancelled name = true → origin? (more ++ past) other = some family →
    (threads (more ++ past)).session.isCancelled other = true
  made_apart : ∀ name, origin? past name ≠ some past.made ∧ ¬ past.Called past.made
  finished_called : ∀ {id}, id ∈ past.threads.session.state.finished →
    ∃ family, past.waitsOn? id = some family ∧ past.Called family
  /-- While no cancel call owes a notification, a waiter of a cancelled family finishes when it is polled, in any
  interleaving. -/
  polled_finishes : (∀ canceller ∈ past.threads.cancellers, canceller.owes = false) →
    ∀ {id family}, past.waitsOn? id = some family → past.Called family →
    ∀ more : History, .abandon id ∉ more ++ past →
    [.resume id, .readFlag id, .register id].Sublist more →
    id ∈ (threads (more ++ past)).session.state.finished

theorem isCancelled_iff {name : String} (home : origin? past name = some family) :
    past.threads.session.isCancelled name = true ↔ past.Called family := by
  rw [Session.isCancelled, (sound past).handles, home, Option.any_some, (sound past).tidy.cancelled_iff]

/-- Handles are made, cloned and dropped, and threads cancel, wait and give up, in any interleaving of their atomic
actions. -/
theorem never_lost (past : History) : past.Heeded where
  cancelled_iff := isCancelled_iff
  never_reverts home cancelled later :=
    (isCancelled_iff later).2 (called_append _ ((isCancelled_iff home).1 cancelled))
  made_apart name :=
    ⟨fun home => Nat.lt_irrefl _ (origin_lt_made home), fun called => Nat.lt_irrefl _ (called_lt_made called)⟩
  finished_called := (sound past).tidy.finished
  polled_finishes := by
    intro done id family waits called more kept polled
    obtain ⟨kept', kept⟩ := not_or.1 (fun gone => kept (List.mem_append.2 gone))
    have tidy := (sound past).tidy
    have nears : past.threads.session.state.Nears past.Called id 0 := by
      rcases present waits kept with ended | ⟨waiter, here, rfl⟩
      · exact Or.inl ended
      · obtain rfl : waiter.family = family := Option.some.inj ((tidy.homes here).symm.trans waits)
        refine Or.inr ⟨waiter, here, rfl, called, ?_, Nat.zero_le _⟩
        intro parked
        rcases tidy.parked here parked called with waking | woken
        · cases done _ ((sound past).owed waking)
        · exact woken
    exact (nears_polled nears kept' (show (polling id 3).Sublist more from polled) (Nat.le_refl 3)).finished

end History

end SecretStore.Cancellation
