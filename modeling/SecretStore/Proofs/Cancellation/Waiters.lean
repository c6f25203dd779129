import Mathlib.Data.List.Nodup
import SecretStore.Cancellation.Session

namespace SecretStore.Cancellation

namespace State

def left (state : State) (step : Step) (waiter : Waiter) : Option Waiter :=
  match step with
  | .register id =>
    if id = waiter.id ∧ waiter.stage = .arriving then some { waiter with stage := .registered }
    else some waiter
  | .readFlag id =>
    if id = waiter.id ∧ waiter.stage = .registered then
      if state.isCancelled waiter.family then none else some { waiter with stage := .parked }
    else some waiter
  | .resume id =>
    if id = waiter.id ∧ waiter.stage = .parked ∧ waiter.woken then none else some waiter
  | .abandon id => if id = waiter.id then none else some waiter
  | .wake family =>
    if family ∈ state.waking ∧ waiter.family = family ∧ waiter.stage ≠ .arriving then
      some { waiter with woken := true }
    else some waiter
  | .arrive .. | .raise _ => some waiter

def ends (state : State) (step : Step) (waiter : Waiter) : Prop :=
  (step = .readFlag waiter.id ∧ waiter.stage = .registered ∧ state.isCancelled waiter.family = true) ∨
    (step = .resume waiter.id ∧ waiter.stage = .parked ∧ waiter.woken = true)

def Distinct (state : State) : Prop := (state.waiters.map (·.id)).Nodup

variable {state : State} {step : Step} {waiter : Waiter} {id : String}

theorem Distinct.same (distinct : state.Distinct) {first second : Waiter} (one : first ∈ state.waiters)
    (two : second ∈ state.waiters) (named : first.id = second.id) : first = second :=
  List.inj_on_of_nodup_map distinct one two named

theorem Distinct.waiter?_eq_some (distinct : state.Distinct) :
    state.waiter? id = some waiter ↔ waiter ∈ state.waiters ∧ waiter.id = id := by
  constructor
  · intro found
    exact ⟨List.mem_of_find?_eq_some found, by simpa using List.find?_some found⟩
  · rintro ⟨here, rfl⟩
    cases found : state.waiter? waiter.id with
    | none => simpa using List.find?_eq_none.1 found waiter here
    | some other =>
        have named : other.id = waiter.id := by simpa using List.find?_some found
        rw [distinct.same (List.mem_of_find?_eq_some found) here named]

theorem Distinct.found (distinct : state.Distinct) (found : state.waiter? id = some waiter) :
    waiter ∈ state.waiters ∧ waiter.id = id ∧
      ∀ other ∈ state.waiters, id = other.id → waiter = other := by
  obtain ⟨here, rfl⟩ := distinct.waiter?_eq_some.1 found
  exact ⟨here, rfl, fun other there => distinct.same here there⟩

theorem waiter?_eq_none : state.waiter? id = none ↔ ∀ waiter ∈ state.waiters, waiter.id ≠ id := by
  simp [waiter?, List.find?_eq_none]

theorem Distinct.without_waiters (distinct : state.Distinct) :
    (state.without id).waiters = state.waiters.filter (·.id ≠ id) := by
  have distinct : (state.waiters.map (·.id)).Nodup := distinct
  simp only [without]
  generalize state.waiters = waiters at distinct
  induction waiters with
  | nil => rfl
  | cons first rest ih =>
      rw [List.map_cons, List.nodup_cons] at distinct
      obtain ⟨fresh, distinct⟩ := distinct
      by_cases named : first.id = id
      · have others : ∀ other ∈ rest, other.id ≠ id := by
          rintro other here rfl
          exact fresh (named ▸ List.mem_map_of_mem here)
        rw [List.eraseP_cons_of_pos (by simpa using named), List.filter_cons_of_neg (by simpa using named),
          List.filter_eq_self.2 (by simpa using others)]
      · rw [List.eraseP_cons_of_neg (by simpa using named), List.filter_cons_of_pos (by simpa using named),
          ih distinct]

theorem Distinct.mem_without (distinct : state.Distinct) :
    waiter ∈ (state.without id).waiters ↔ waiter ∈ state.waiters ∧ waiter.id ≠ id := by
  rw [distinct.without_waiters, List.mem_filter, decide_eq_true_eq]

theorem mem_update {change : Waiter → Waiter} :
    waiter ∈ (state.update id change).waiters ↔
      ∃ before ∈ state.waiters, (if before.id = id then change before else before) = waiter := by
  simp only [update, List.mem_map]

theorem Distinct.mem_act (distinct : state.Distinct) :
    waiter ∈ (state.act step).waiters ↔
      (∃ before ∈ state.waiters, state.left step before = some waiter) ∨
        ∃ id family, step = .arrive id family ∧ waiter = ⟨id, family, .arriving, false⟩ := by
  cases step with
  | arrive id family => simp [act, left]
  | register id =>
      simp only [act, mem_update, left, reduceCtorEq, false_and, exists_false, or_false]
      refine exists_congr fun before => and_congr_right fun _ => ?_
      grind
  | readFlag id =>
      simp only [act, left, reduceCtorEq, false_and, exists_false, or_false]
      cases found : state.waiter? id with
      | none =>
          have others := waiter?_eq_none.1 found
          grind
      | some reader =>
          obtain ⟨here, rfl, alone⟩ := distinct.found found
          by_cases stage : reader.stage = .registered
          · cases flag : state.isCancelled reader.family with
            | true =>
                simp only [stage, flag, ↓reduceIte, finish, distinct.mem_without]
                grind
            | false =>
                simp only [stage, flag, ↓reduceIte, Bool.false_eq_true, mem_update]
                grind
          · simp only [stage, ↓reduceIte]
            grind
  | resume id =>
      simp only [act, left, reduceCtorEq, false_and, exists_false, or_false]
      cases found : state.waiter? id with
      | none =>
          have others := waiter?_eq_none.1 found
          grind
      | some reader =>
          obtain ⟨here, rfl, alone⟩ := distinct.found found
          by_cases ready : reader.stage = .parked ∧ reader.woken = true
          · simp only [ready, and_self, ↓reduceIte, finish, distinct.mem_without]
            grind
          · simp only [ready, ↓reduceIte]
            grind
  | abandon id =>
      simp only [act, left, distinct.mem_without, reduceCtorEq, false_and, exists_false, or_false]
      grind
  | raise family =>
      simp only [act, left, reduceCtorEq, false_and, exists_false, or_false]
      split <;> simp
  | wake family =>
      simp only [act, left, reduceCtorEq, false_and, exists_false, or_false]
      split <;> grind

theorem Distinct.mem_finished_act (distinct : state.Distinct) :
    id ∈ (state.act step).finished ↔
      id ∈ state.finished ∨ ∃ waiter ∈ state.waiters, waiter.id = id ∧ state.ends step waiter := by
  cases step with
  | readFlag asked =>
      simp only [act, ends, reduceCtorEq, false_and, or_false, Step.readFlag.injEq]
      cases found : state.waiter? asked with
      | none =>
          have others := waiter?_eq_none.1 found
          grind
      | some reader =>
          obtain ⟨here, rfl, alone⟩ := distinct.found found
          by_cases stage : reader.stage = .registered
          · cases flag : state.isCancelled reader.family with
            | true =>
                simp only [stage, flag, ↓reduceIte, finish, List.mem_append, List.mem_singleton]
                grind [without]
            | false =>
                simp only [stage, flag, ↓reduceIte, Bool.false_eq_true, update]
                grind
          · simp only [stage, ↓reduceIte]
            grind
  | resume asked =>
      simp only [act, ends, reduceCtorEq, false_and, false_or, Step.resume.injEq]
      cases found : state.waiter? asked with
      | none =>
          have others := waiter?_eq_none.1 found
          grind
      | some reader =>
          obtain ⟨here, rfl, alone⟩ := distinct.found found
          by_cases ready : reader.stage = .parked ∧ reader.woken = true
          · simp only [ready, and_self, ↓reduceIte, finish, List.mem_append, List.mem_singleton]
            grind [without]
          · simp only [ready, ↓reduceIte]
            grind
  | raise family =>
      simp only [act, ends, reduceCtorEq, false_and, or_false, and_false, exists_false]
      split <;> rfl
  | wake family =>
      simp only [act, ends, reduceCtorEq, false_and, or_false, and_false, exists_false]
      split <;> rfl
  | _ => simp [act, ends, update, without]

theorem Distinct.stays (distinct : state.Distinct) (here : waiter ∈ state.waiters)
    (kept : step ≠ .abandon waiter.id) :
    waiter.id ∈ (state.act step).finished ∨
      ∃ after ∈ (state.act step).waiters, state.left step waiter = some after ∧ after.id = waiter.id := by
  cases left : state.left step waiter with
  | none =>
      have ends : state.ends step waiter := by
        cases step <;> grind [State.left, State.ends]
      exact Or.inl (distinct.mem_finished_act.2 (Or.inr ⟨waiter, here, rfl, ends⟩))
  | some after =>
      have named : after.id = waiter.id := by
        cases step <;> grind [State.left]
      exact Or.inr ⟨after, distinct.mem_act.2 (Or.inl ⟨waiter, here, left⟩), rfl, named⟩

theorem Distinct.act (distinct : state.Distinct)
    (fresh : ∀ id family, step = .arrive id family → ∀ waiter ∈ state.waiters, waiter.id ≠ id) :
    (state.act step).Distinct := by
  have finishing (id : String) : (state.finish id).Distinct :=
    List.Nodup.sublist (List.eraseP_sublist.map _) distinct
  have same (change : Waiter → Waiter) (kept : ∀ waiter, (change waiter).id = waiter.id) :
      (state.waiters.map change).map (·.id) = state.waiters.map (·.id) := by
    simp [kept]
  have updating (id : String) (change : Waiter → Waiter) (kept : ∀ waiter, (change waiter).id = waiter.id) :
      (state.update id change).Distinct := by
    rw [Distinct, update, same _ fun waiter => by split <;> simp [kept]]
    exact distinct
  cases step with
  | arrive id family =>
      have others : id ∉ state.waiters.map (·.id) := by
        simpa using fun waiter here => fresh id family rfl waiter here
      simp only [Distinct, State.act, List.map_append, List.map_cons, List.map_nil]
      exact List.Nodup.append distinct (List.nodup_singleton _) (by simpa using others)
  | register id => exact updating id _ fun waiter => by split <;> rfl
  | readFlag id =>
      simp only [State.act]
      repeat' split
      · exact finishing id
      · exact updating id _ fun waiter => rfl
      · exact distinct
      · exact distinct
  | resume id =>
      simp only [State.act]
      repeat' split
      · exact finishing id
      · exact distinct
      · exact distinct
  | abandon id => exact List.Nodup.sublist (List.eraseP_sublist.map _) distinct
  | raise family =>
      simp only [State.act]
      split <;> exact distinct
  | wake family =>
      simp only [State.act]
      split
      · rw [Distinct, same _ fun waiter => by split <;> rfl]
        exact distinct
      · exact distinct

theorem isCancelled_act {family : Family} :
    (state.act step).isCancelled family = true ↔ state.isCancelled family = true ∨ step = .raise family := by
  simp only [isCancelled, List.contains_iff_mem]
  cases step with
  | raise raised =>
      simp only [act, isCancelled, List.contains_iff_mem]
      split <;> grind
  | readFlag id | resume id =>
      simp only [act]
      repeat' split
      all_goals simp [finish, without, update]
  | wake woken =>
      simp only [act]
      split <;> simp
  | _ => simp [act, update, without]

theorem waking_act :
    (state.act step).waking = match step with
      | .raise family => if state.isCancelled family then state.waking else family :: state.waking
      | .wake family => state.waking.erase family
      | _ => state.waking := by
  cases step with
  | raise family =>
      simp only [act]
      split <;> rfl
  | wake family =>
      simp only [act]
      split
      · rfl
      · rw [List.erase_of_not_mem ‹_›]
  | readFlag id | resume id =>
      simp only [act]
      repeat' split
      all_goals rfl
  | _ => rfl

end State

end SecretStore.Cancellation
