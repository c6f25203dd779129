import SecretStore.Proofs.CredHub.Heeding
import SecretStore.Proofs.CredHub.Service

namespace SecretStore.CredHub

open Http

inductive Task.StepUnder (settings : Settings) (cancelled : Bool) :
    Task → Creates → Deed → Task → Creates → Prop where
  | plain {program next : Program Outcome} {deed : Deed} (creates : Creates) :
      program.StepUnder cancelled deed next →
      StepUnder settings cancelled (.plain program) creates deed (.plain next) creates
  | announce (key : String) (caller : Creator) (creates : Creates) :
      StepUnder settings cancelled (.create key false caller) creates (.logs (createLine settings key))
        (.create key true caller) creates
  | work {caller : Creator} {flight : Nat} {work next : CreateWork} {deed : Deed} (key : String)
      (creates : Creates) :
      caller.point = .working flight work → work.StepUnder cancelled deed next →
      StepUnder settings cancelled (.create key true caller) creates deed
        (.create key true (caller.progress flight (.waiting next))) creates
  | finish {caller : Creator} {flight : Nat} {value : Except Failure Unit} (key : String)
      (creates : Creates) :
      caller.point = .working flight (.done value) →
      StepUnder settings cancelled (.create key true caller) creates .silent
        (.create key true (caller.progress flight (.finished value))) creates
  | act (key : String) (caller : Creator) (creates : Creates) :
      StepUnder settings cancelled (.create key true caller) creates .silent
        (.create key true (caller.act creates).1) (caller.act creates).2

theorem Task.StepUnder.cases {settings : Settings} {cancelled : Bool} {task after : Task}
    {creates left : Creates} {deed : Deed} (step : StepUnder settings cancelled task creates deed after left) :
    (after.creator? = task.creator? ∧ left = creates) ∨
      ∃ caller point, task.creator? = some caller ∧ Flight.Turn caller creates point left ∧
        after.creator? = some (caller.at point) := by
  cases step with
  | plain creates step => exact Or.inl ⟨rfl, rfl⟩
  | announce key caller creates => exact Or.inl ⟨rfl, rfl⟩
  | work key creates point step => exact Or.inr ⟨_, _, rfl, .toil _ point, rfl⟩
  | finish key creates point => exact Or.inr ⟨_, _, rfl, .finish _ point, rfl⟩
  | act key caller creates =>
      rcases caller.act_turn creates with stays | ⟨point, left, turn, acts⟩
      · rw [stays]
        exact Or.inl ⟨rfl, rfl⟩
      · rw [acts]
        exact Or.inr ⟨caller, point, rfl, turn, rfl⟩

theorem Task.StepUnder.sends {settings : Settings} {cancelled : Bool} {task after : Task}
    {creates left : Creates} {request : Request}
    (step : StepUnder settings cancelled task creates (.sends request) after left) : cancelled = false := by
  cases step with
  | plain creates step =>
      cases step with
      | send request next alive => exact alive
  | work key creates point step =>
      cases step with
      | send request next alive => exact alive

abbrev IsHeedful {α : Type} (program : Program (Except Failure α)) : Prop :=
  program.Heeds (.error .cancelled) (Action.Ends fun _ => True)

abbrev IsDoomed {α : Type} (program : Program (Except Failure α)) : Prop :=
  program.Doomed (.error .cancelled) (Action.Ends fun _ => True)

def Obeys {α : Type} (dead : Prop) (program : Program (Except Failure α)) : Prop :=
  IsHeedful program ∨ dead ∧ program = .done (.error .cancelled)

def PointObeys (dead : Prop) : Flight.Point CreateWork (Except Failure Unit) → Prop
  | .working _ work => Obeys dead work
  | .publishing _ result | .leaving _ result | .closing _ result | .returned result false =>
    result = .error .cancelled → dead
  | _ => True

def Task.Obeys (dead : Prop) : Task → Prop
  | .plain program => CredHub.Obeys dead program
  | .create _ _ caller => (IsHeedful caller.work ∧ caller.work.IsAsking) ∧ PointObeys dead caller.point

def Task.IsAsking : Task → Prop
  | .plain program => program.IsAsking
  | .create _ announced caller =>
    announced = true ∧ ∃ flight work, caller.point = .working flight work ∧ work.IsAsking

def PointDoomed : Flight.Point CreateWork (Except Failure Unit) → Prop
  | .working _ work => IsDoomed work
  | .publishing _ result | .leaving _ result | .closing _ result | .returned result false =>
    result = .error .cancelled
  | .quitting _ | .hangingUp _ | .gone => True
  | _ => False

/-- Every outcome that the task can still have is cancellation. -/
def Task.Doomed : Task → Prop
  | .plain program => IsDoomed program
  | .create _ _ caller => PointDoomed caller.point

section Programs

variable {α : Type} {program next : Program (Except Failure α)} {cancelled : Bool} {dead dead' : Prop} {deed : Deed}

theorem Obeys.mono (obeys : Obeys dead program) (implies : dead → dead') : Obeys dead' program :=
  obeys.imp_right (And.imp_left implies)

theorem Obeys.step (obeys : Obeys dead program) (step : program.StepUnder cancelled deed next)
    (knows : cancelled = true → dead) : Obeys dead next := by
  rcases obeys with heeds | ⟨-, rfl⟩
  · rcases heeds.step step with heeds | ⟨known, rfl⟩
    · exact Or.inl heeds
    · exact Or.inr ⟨knows known, rfl⟩
  · cases step

theorem Obeys.done {result : Except Failure α} (obeys : Obeys dead (.done result))
    (failed : result = .error .cancelled) : dead := by
  rcases obeys with heeds | ⟨known, -⟩
  · subst failed
    exact absurd rfl heeds
  · exact known

theorem Obeys.doomed (obeys : Obeys dead program) (asks : program.IsAsking) : IsDoomed program := by
  rcases obeys with heeds | ⟨-, rfl⟩
  · exact Or.inl ⟨heeds, asks⟩
  · exact asks.elim

theorem doomed_done {result : Except Failure α} (doomed : IsDoomed (.done result)) : result = .error .cancelled := by
  rcases doomed with ⟨-, asks⟩ | same
  · exact asks.elim
  · cases same
    rfl

end Programs

theorem createWork_asks (settings : Settings) (key : String) (value : Bytes) :
    (createWork settings key value).IsAsking := trivial

section Points

variable {caller : Creator} {creates : Creates} {dead : Prop}

theorem PointObeys.mono {dead' : Prop} {point : Flight.Point CreateWork (Except Failure Unit)}
    (obeys : PointObeys dead point) (implies : dead → dead') : PointObeys dead' point := by
  cases point with
  | working flight work => exact Obeys.mono obeys implies
  | returned result shared =>
      cases shared with
      | true => trivial
      | false => exact fun failed => implies (obeys failed)
  | publishing flight result | leaving flight result | closing flight result =>
      exact fun failed => implies (obeys failed)
  | _ => trivial

theorem PointObeys.act (obeys : PointObeys dead caller.point) (heeds : IsHeedful caller.work) :
    PointObeys dead (caller.act creates).1.point := by
  obtain ⟨name, start, point⟩ := caller
  cases point with
  | joining =>
      simp only [Flight.Caller.act]
      cases entry : creates.flight? name with
      | none =>
          simp only [Flight.Table.join, entry]
          exact Or.inl heeds
      | some flight =>
          simp only [Flight.Table.join, entry]
          trivial
  | following flight =>
      simp only [Flight.Caller.act]
      cases creates.look flight <;> trivial
  | _ => exact obeys

theorem PointObeys.abandon (obeys : PointObeys dead caller.point) (rest : caller.point.AtRest) :
    PointObeys dead caller.abandon.point := by
  obtain ⟨name, start, point⟩ := caller
  cases point with
  | returned result shared => exact obeys
  | joining | following flight | working flight work | gone => trivial
  | _ => exact rest.elim

theorem PointDoomed.act (doomed : PointDoomed caller.point) : PointDoomed (caller.act creates).1.point := by
  obtain ⟨name, start, point⟩ := caller
  cases point with
  | joining => exact doomed.elim
  | following flight => exact doomed.elim
  | quitting flight => trivial
  | hangingUp flight => trivial
  | _ => exact doomed

theorem PointDoomed.abandon (doomed : PointDoomed caller.point) : PointDoomed caller.abandon.point := by
  obtain ⟨name, start, point⟩ := caller
  cases point with
  | joining => exact doomed.elim
  | following flight => exact doomed.elim
  | working flight work => trivial
  | _ => exact doomed

end Points

namespace Task

variable {settings : Settings} {cancelled : Bool} {task after : Task} {creates left : Creates} {deed : Deed}
  {dead : Prop}

theorem obeys_start (settings : Settings) (call : Call) (dead : Prop) : (Task.start settings call).Obeys dead := by
  cases call with
  | create key value => exact ⟨⟨heeds_createWork settings key value, createWork_asks settings key value⟩, trivial⟩
  | status | set key value | get key | delete key | list | close | name => exact Or.inl (heeds_program settings _)

theorem Obeys.mono {dead' : Prop} (obeys : task.Obeys dead) (implies : dead → dead') : task.Obeys dead' := by
  cases task with
  | plain program => exact CredHub.Obeys.mono obeys implies
  | create key announced caller => exact ⟨obeys.1, obeys.2.mono implies⟩

theorem Obeys.step (obeys : task.Obeys dead) (step : StepUnder settings cancelled task creates deed after left)
    (knows : cancelled = true → dead) : after.Obeys dead := by
  cases step with
  | plain creates step => exact CredHub.Obeys.step obeys step knows
  | announce key caller creates => exact obeys
  | work key creates point step =>
      obtain ⟨work, obeys⟩ := obeys
      rw [point] at obeys
      exact ⟨work, CredHub.Obeys.step obeys step knows⟩
  | finish key creates point =>
      obtain ⟨work, obeys⟩ := obeys
      rw [point] at obeys
      exact ⟨work, fun failed => CredHub.Obeys.done obeys failed⟩
  | act key caller creates =>
      obtain ⟨⟨heeds, asks⟩, obeys⟩ := obeys
      obtain ⟨-, same⟩ := caller.act_same creates
      refine ⟨?_, obeys.act heeds⟩
      rw [same]
      exact ⟨heeds, asks⟩

theorem Obeys.abandon (obeys : task.Obeys dead) (abandons : task.Abandons after) : after.Obeys dead := by
  cases abandons with
  | plain program => exact obeys
  | @create caller key announced rest =>
      obtain ⟨work, obeys⟩ := obeys
      obtain ⟨-, same⟩ := caller.abandon_same
      refine ⟨?_, obeys.abandon rest⟩
      rw [same]
      exact work

theorem Obeys.doomed (obeys : task.Obeys dead) (asks : task.IsAsking) : task.Doomed := by
  cases task with
  | plain program => exact CredHub.Obeys.doomed obeys asks
  | create key announced caller =>
      obtain ⟨-, flight, work, point, asks⟩ := asks
      obtain ⟨-, obeys⟩ := obeys
      rw [point] at obeys
      rw [Task.Doomed, point]
      exact CredHub.Obeys.doomed obeys asks

theorem Doomed.step (doomed : task.Doomed) (step : StepUnder settings true task creates deed after left) :
    after.Doomed := by
  cases step with
  | plain creates step => exact Program.Doomed.step doomed step
  | announce key caller creates => exact doomed
  | work key creates point step =>
      rw [Task.Doomed, point] at doomed
      exact Program.Doomed.step doomed step
  | finish key creates point =>
      rw [Task.Doomed, point] at doomed
      exact doomed_done doomed
  | act key caller creates => exact PointDoomed.act doomed

theorem Doomed.abandon (doomed : task.Doomed) (abandons : task.Abandons after) : after.Doomed := by
  cases abandons with
  | plain program => exact doomed
  | create key announced rest => exact PointDoomed.abandon doomed

theorem Doomed.outcome {outcome : Outcome} (doomed : task.Doomed) (told : task.outcome? = some outcome) :
    outcome = .error .cancelled := by
  cases task with
  | plain program =>
      rcases doomed with ⟨-, asks⟩ | rfl
      · cases program with
        | done value => exact asks.elim
        | _ => cases told
      · cases told
        rfl
  | create key announced caller =>
      obtain ⟨name, start, point⟩ := caller
      cases point with
      | returned result shared =>
          cases shared with
          | true => exact doomed.elim
          | false =>
              obtain rfl : result = .error .cancelled := doomed
              cases told
              rfl
      | _ => cases told

theorem Obeys.told (obeys : task.Obeys dead) (told : task.outcome? = some (.error .cancelled)) :
    dead ∨ ∃ key announced caller, task = .create key announced caller ∧
      caller.point = .returned (.error .cancelled) true := by
  cases task with
  | plain program =>
      cases program with
      | done result =>
          cases told
          exact Or.inl (CredHub.Obeys.done obeys rfl)
      | _ => cases told
  | create key announced caller =>
      obtain ⟨name, start, point⟩ := caller
      cases point with
      | returned result shared =>
          have failed : result = .error .cancelled := by
            cases result with
            | ok _ => cases shared <;> cases told
            | error failure =>
                cases told
                rfl
          cases shared with
          | true => exact Or.inr ⟨_, _, _, rfl, by rw [failed]⟩
          | false => exact Or.inl (obeys.2 failed)
      | _ => cases told

end Task

end SecretStore.CredHub
