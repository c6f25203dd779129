import SecretStore.CredHub.Session
import SecretStore.Proofs.Flight.Exclusion
import SecretStore.Proofs.Http.Steps

namespace SecretStore.CredHub

open Http

/-- One step of a task, of its own or of its work. -/
inductive Task.Step (settings : Settings) : Task → Creates → Deed → Task → Creates → Prop where
  | plain {program next : Program Outcome} {deed : Deed} (creates : Creates) :
      program.Step deed next → Step settings (.plain program) creates deed (.plain next) creates
  | announce (key : String) (caller : Creator) (creates : Creates) :
      Step settings (.create key false caller) creates (.logs (createLine settings key))
        (.create key true caller) creates
  | work {caller : Creator} {flight : Nat} {work next : CreateWork} {deed : Deed} (key : String)
      (creates : Creates) :
      caller.point = .working flight work → work.Step deed next →
      Step settings (.create key true caller) creates deed
        (.create key true (caller.progress flight (.waiting next))) creates
  | finish {caller : Creator} {flight : Nat} {value : Except Failure Unit} (key : String)
      (creates : Creates) :
      caller.point = .working flight (.done value) →
      Step settings (.create key true caller) creates .silent
        (.create key true (caller.progress flight (.finished value))) creates
  | act (key : String) (caller : Creator) (creates : Creates) :
      Step settings (.create key true caller) creates .silent
        (.create key true (caller.act creates).1) (caller.act creates).2

inductive Task.Steps (settings : Settings) : Task → Creates → List Deed → Task → Creates → Prop where
  | refl (task : Task) (creates : Creates) : Steps settings task creates [] task creates
  | head {first second third : Task} {before middle after : Creates} {deed : Deed} {deeds : List Deed} :
      Step settings first before deed second middle → Steps settings second middle deeds third after →
      Steps settings first before (deed :: deeds) third after

namespace Task

variable {σ : Type} {host : Program.Host σ} {settings : Settings}

theorem Steps.trans {first second third : Task} {before middle after : Creates} {deeds more : List Deed}
    (one : Steps settings first before deeds second middle)
    (two : Steps settings second middle more third after) :
    Steps settings first before (deeds ++ more) third after := by
  induction one with
  | refl task creates => exact two
  | head step steps ih => exact .head step (ih two)

theorem steps_plain {program next : Program Outcome} {deeds : List Deed} (creates : Creates)
    (steps : program.Steps deeds next) :
    Steps settings (.plain program) creates deeds (.plain next) creates := by
  induction steps with
  | refl program => exact .refl _ _
  | head step steps ih => exact .head (.plain creates step) ih

theorem steps_work {caller : Creator} {flight : Nat} {work next : CreateWork} {deeds : List Deed}
    (key : String) (creates : Creates) (point : caller.point = .working flight work)
    (steps : work.Steps deeds next) :
    Steps settings (.create key true caller) creates deeds
      (.create key true (caller.progress flight (.waiting next))) creates := by
  induction steps generalizing caller with
  | refl work =>
      have same : caller.progress flight (.waiting work) = caller := by
        rw [Flight.Caller.progress, ← point]
      rw [same]
      exact .refl _ _
  | head step steps ih =>
      have rest := @ih (caller.progress flight (.waiting _)) rfl
      exact .head (.work key creates point step) rest

theorem caller_run_steps (honest : host.Honest) (token : Token) (key : String) (steps : Nat)
    (caller : Creator) (creates : Creates) (state : σ) :
    ∃ deeds, Steps settings (.create key true caller) creates deeds
      (.create key true (caller.run (advance host token) steps creates state).1)
      (caller.run (advance host token) steps creates state).2.1 ∧ ∀ deed ∈ deeds, host.Allows deed := by
  refine Flight.Caller.run_keeps (advance host token) (fun after left _ => ∃ deeds,
    Steps settings (.create key true caller) creates deeds (.create key true after) left ∧
      ∀ deed ∈ deeds, host.Allows deed) ?acts ?works steps ⟨[], .refl _ _, by simp⟩
  case acts =>
      rintro after left state ⟨deeds, steps, allowed⟩
      refine ⟨_, steps.trans (.head (.act key after left) (.refl _ _)), ?_⟩
      exact List.forall_mem_append.2 ⟨allowed, by simp [Program.Host.Allows]⟩
  case works =>
      rintro after left state flight work point ⟨deeds, steps, allowed⟩
      obtain ⟨more, worked, allowed'⟩ := Program.run_steps honest token work state
      have progressed : Steps settings _ _ _ _ _ := steps.trans (steps_work key left point worked)
      cases ran : Program.run host token work state with
      | mk rest after' =>
          rw [ran] at progressed
          have both := List.forall_mem_append.2 ⟨allowed, allowed'⟩
          cases rest with
          | done value =>
              simp only [advance, ran]
              refine ⟨_, progressed.trans (.head (.finish key left rfl) (.refl _ _)), ?_⟩
              exact List.forall_mem_append.2 ⟨both, by simp [Program.Host.Allows]⟩
          | _ =>
              simp only [advance, ran]
              exact ⟨_, progressed, both⟩

theorem poll_steps (honest : host.Honest) (settings : Settings) (token : Token) (task : Task)
    (creates : Creates) (state : σ) :
    ∃ deeds, Steps settings task creates deeds (task.poll host settings token creates state).1
      (task.poll host settings token creates state).2.1 ∧ ∀ deed ∈ deeds, host.Allows deed := by
  cases task with
  | plain program =>
      obtain ⟨deeds, steps, allowed⟩ := Program.run_steps honest token program state
      exact ⟨deeds, steps_plain creates steps, allowed⟩
  | create key announced caller =>
      cases announced with
      | true => exact caller_run_steps honest token key Flight.mostSteps caller creates state
      | false =>
          obtain ⟨deeds, steps, allowed⟩ := caller_run_steps honest token key Flight.mostSteps caller creates
            (host.log (createLine settings key) state)
          exact ⟨_, .head (.announce key caller creates) steps, List.forall_mem_cons.2 ⟨trivial, allowed⟩⟩

def creator? : Task → Option Creator
  | .plain _ => none
  | .create _ _ caller => some caller

theorem Step.cases {task after : Task} {creates left : Creates} {deed : Deed}
    (step : Step settings task creates deed after left) :
    (after.creator? = task.creator? ∧ left = creates) ∨
      ∃ caller point, task.creator? = some caller ∧ Flight.Turn caller creates point left ∧
        after.creator? = some (caller.at point) := by
  cases step with
  | plain creates step => exact Or.inl ⟨rfl, rfl⟩
  | announce key caller creates => exact Or.inl ⟨rfl, rfl⟩
  | work key creates point step => exact Or.inr ⟨_, _, rfl, .toil _ point, rfl⟩
  | finish key creates point => exact Or.inr ⟨_, _, rfl, .finish _ point, rfl⟩
  | act key caller creates =>
      rcases caller.act_turn creates with stays | ⟨point, left, turn, acts⟩
      · rw [stays]
        exact Or.inl ⟨rfl, rfl⟩
      · rw [acts]
        exact Or.inr ⟨caller, point, rfl, turn, rfl⟩

inductive Abandons : Task → Task → Prop where
  | plain (program : Program Outcome) : Abandons (.plain program) (.plain program)
  | create {caller : Creator} (key : String) (announced : Bool) :
      caller.point.AtRest → Abandons (.create key announced caller) (.create key announced caller.abandon)

theorem Abandons.cases {task after : Task} (abandons : Abandons task after) (creates : Creates) :
    after.creator? = task.creator? ∨
      ∃ caller point, task.creator? = some caller ∧ Flight.Turn caller creates point creates ∧
        after.creator? = some (caller.at point) := by
  cases abandons with
  | plain program => exact Or.inl rfl
  | @create caller key announced rest =>
      rcases caller.abandon_turn creates with stays | ⟨point, turn, moved⟩
      · rw [stays]
        exact Or.inl rfl
      · rw [moved]
        exact Or.inr ⟨caller, point, rfl, turn, rfl⟩

end Task

structure Visit where
  call : Call
  task : Task
  dropped : Bool

def Visit.MaySteps (visit : Visit) : Prop :=
  visit.dropped = false ∨ ∃ key caller, visit.task = .create key true caller

structure Service (ι : Type) where
  creates : Creates
  visits : ι → Option Visit

namespace Service

variable {ι : Type}

def empty : Service ι := ⟨.empty, fun _ => none⟩

def crowd (service : Service ι) : Flight.Crowd ι CreateWork (Except Failure Unit) :=
  ⟨service.creates, fun id => (service.visits id).bind (·.task.creator?)⟩

theorem sound_empty : (empty : Service ι).crowd.Sound := Flight.Crowd.sound_empty

theorem crowd_callers {service : Service ι} {id : ι} {visit : Visit}
    (here : service.visits id = some visit) : service.crowd.callers id = visit.task.creator? := by
  simp only [crowd, here, Option.bind_some]

theorem crowd_creator {service : Service ι} {id : ι} {visit : Visit} {key : String} {announced : Bool}
    {caller : Creator} (here : service.visits id = some visit) (task : visit.task = .create key announced caller) :
    service.crowd.callers id = some caller := by
  rw [crowd_callers here, task]
  rfl

variable [DecidableEq ι]

def place (service : Service ι) (id : ι) (visit : Visit) (creates : Creates) : Service ι :=
  ⟨creates, Function.update service.visits id (some visit)⟩

def begin (service : Service ι) (settings : Settings) (id : ι) (call : Call) : Service ι :=
  service.place id ⟨call, .start settings call, false⟩ service.creates

def Does (settings : Settings) (service : Service ι) (id : ι) (deed : Deed) (after : Service ι) :
    Prop :=
  ∃ visit task creates, service.visits id = some visit ∧ visit.MaySteps ∧
    Task.Step settings visit.task service.creates deed task creates ∧
    after = service.place id { visit with task } creates

theorem does_alive {settings : Settings} {service : Service ι} (id : ι) {call : Call} {task after : Task}
    {deed : Deed} {left : Creates} (here : service.visits id = some ⟨call, task, false⟩)
    (step : Task.Step settings task service.creates deed after left) :
    service.Does settings id deed (service.place id ⟨call, after, false⟩ left) :=
  ⟨_, _, _, here, Or.inl rfl, step, rfl⟩

def Drops (service : Service ι) (id : ι) (after : Service ι) : Prop :=
  ∃ visit task, service.visits id = some visit ∧ visit.task.Abandons task ∧
    after = service.place id { visit with task, dropped := true } service.creates

theorem place_visits (service : Service ι) (id other : ι) (visit : Visit) (creates : Creates) :
    (service.place id visit creates).visits other =
      if other = id then some visit else service.visits other := by
  simp [place, Function.update_apply]

@[simp]
theorem place_visits_self (service : Service ι) (id : ι) (visit : Visit) (creates : Creates) :
    (service.place id visit creates).visits id = some visit := by
  rw [place_visits, if_pos rfl]

theorem place_self {service : Service ι} {id : ι} {visit : Visit} (here : service.visits id = some visit) :
    service.place id visit service.creates = service := by
  rw [place, ← here, Function.update_eq_self]

theorem place_place (service : Service ι) (id : ι) (visit visit' : Visit) (creates creates' : Creates) :
    (service.place id visit creates).place id visit' creates' = service.place id visit' creates' := by
  rw [place, place, Function.update_idem, place]

theorem crowd_place_same {service : Service ι} {id : ι} {visit : Visit}
    (same : visit.task.creator? = service.crowd.callers id) :
    (service.place id visit service.creates).crowd = service.crowd := by
  have callers : (service.place id visit service.creates).crowd.callers = service.crowd.callers := by
    funext other
    rcases eq_or_ne other id with rfl | different
    · rw [crowd_callers (place_visits_self ..), same]
    · simp only [crowd, place_visits, different, ↓reduceIte]
  exact congrArg (Flight.Crowd.mk service.creates) callers

theorem crowd_place {service : Service ι} {id : ι} {visit : Visit} {caller : Creator}
    {creates : Creates} (creator : visit.task.creator? = some caller) :
    (service.place id visit creates).crowd = service.crowd.place id caller creates := by
  have callers : (service.place id visit creates).crowd.callers =
      (service.crowd.place id caller creates).callers := by
    funext other
    rw [Flight.Crowd.place_callers]
    rcases eq_or_ne other id with rfl | different
    · rw [crowd_callers (place_visits_self ..), creator, if_pos rfl]
    · simp only [crowd, place_visits, different, ↓reduceIte]
  exact congrArg (Flight.Crowd.mk creates) callers

variable {settings : Settings} {service after : Service ι}

theorem place_moves {id : ι} {visit visit' : Visit} {creates : Creates} (here : service.visits id = some visit)
    (turned : (visit'.task.creator? = visit.task.creator? ∧ creates = service.creates) ∨
      ∃ caller point, visit.task.creator? = some caller ∧ Flight.Turn caller service.creates point creates ∧
        visit'.task.creator? = some (caller.at point)) :
    (service.place id visit' creates).crowd = service.crowd ∨
      ∃ step, (service.place id visit' creates).crowd = service.crowd.move step := by
  have caller := crowd_callers here
  rcases turned with ⟨same, rfl⟩ | ⟨caller', point, creator, turn, moved⟩
  · exact Or.inl (crowd_place_same (same.trans caller.symm))
  · obtain ⟨step, moves⟩ := Flight.Crowd.turn_move (caller.trans creator) turn
    exact Or.inr ⟨step, by rw [crowd_place moved, moves]⟩

theorem begin_moves {id : ι} (settings : Settings) (call : Call) (free : service.visits id = none) :
    (service.begin settings id call).crowd = service.crowd ∨
      ∃ step, (service.begin settings id call).crowd = service.crowd.move step := by
  have absent : service.crowd.callers id = none := by simp only [crowd, free, Option.bind_none]
  cases creator : (Task.start settings call).creator? with
  | none => exact Or.inl (crowd_place_same (creator.trans absent.symm))
  | some caller =>
      refine Or.inr ⟨.arrive id caller.key caller.work, ?_⟩
      cases call with
      | create key value =>
          cases creator
          rw [begin, crowd_place rfl, Flight.Crowd.move, absent]
          rfl
      | _ => cases creator

theorem drops_moves {id : ι} (drops : service.Drops id after) :
    after.crowd = service.crowd ∨ ∃ step, after.crowd = service.crowd.move step := by
  obtain ⟨visit, task, here, abandons, rfl⟩ := drops
  refine place_moves here ?_
  rcases abandons.cases service.creates with same | turned
  · exact Or.inl ⟨same, rfl⟩
  · exact Or.inr turned

theorem does_moves {id : ι} {deed : Deed} (does : service.Does settings id deed after) :
    after.crowd = service.crowd ∨ ∃ step, after.crowd = service.crowd.move step := by
  obtain ⟨visit, task, creates, here, -, step, rfl⟩ := does
  exact place_moves here step.cases

theorem moves_sound (sound : service.crowd.Sound)
    (moved : after.crowd = service.crowd ∨ ∃ step, after.crowd = service.crowd.move step) : after.crowd.Sound := by
  rcases moved with same | ⟨step, moved⟩
  · exact same ▸ sound
  · exact moved ▸ sound.move step

theorem begin_sound {id : ι} (sound : service.crowd.Sound) (settings : Settings) (call : Call)
    (fresh : service.visits id = none) : (service.begin settings id call).crowd.Sound :=
  moves_sound sound (begin_moves settings call fresh)

theorem does_sound {id : ι} {deed : Deed} (sound : service.crowd.Sound)
    (does : service.Does settings id deed after) : after.crowd.Sound :=
  moves_sound sound (does_moves does)

theorem drops_sound {id : ι} (sound : service.crowd.Sound) (drops : service.Drops id after) : after.crowd.Sound :=
  moves_sound sound (drops_moves drops)

end Service

end SecretStore.CredHub
