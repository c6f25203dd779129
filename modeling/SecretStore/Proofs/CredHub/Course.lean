import SecretStore.CredHub.Client
import SecretStore.Proofs.CredHub.Service
import SecretStore.Proofs.Flight.Evolution

namespace SecretStore

namespace Http

instance : DecidablePred Deed.IsQuiet
  | .logs _ | .reads _ | .silent => .isTrue trivial
  | .sends _ | .receives .. | .fails .. => .isFalse id

def Deed.spoken (deed : Deed) : List Deed := if deed.IsQuiet then [] else [deed]

def Response.IsFair (response : Response) : Prop :=
  ∀ failure, .failure failure ∈ response.body → failure.isTransport = true

def Deed.IsFair : Deed → Prop
  | .receives _ response => response.IsFair
  | _ => True

end Http

namespace CredHub

open Http

theorem Client.honest {σ : Type} (client : Client) (network : Network σ) : (client.host network).Honest where
  send failed := by
    simp only [host, send] at failed
    split at failed <;> cases failed
    rfl
  receive {token request state failure after} failed := by
    simp only [host, receive] at failed
    split at failed
    · cases failed
      rfl
    · split at failed <;> cases failed
      rfl

variable {ι : Type} {settings : Settings}

/-- A state of the store with the deed of a call in it, or none where a call arrives or is dropped. -/
structure Moment (ι : Type) where
  service : Service ι
  deed : Option (ι × Deed)

def servicesOf (past : List (Moment ι)) (service : Service ι) : List (Service ι) :=
  past.map (·.service) ++ [service]

variable [DecidableEq ι]

def Moment.said (moment : Moment ι) (id : ι) : List Deed :=
  match moment.deed with
  | some (other, deed) => if other = id then deed.spoken else []
  | none => []

def said (past : List (Moment ι)) (id : ι) : List Deed := past.flatMap (·.said id)

theorem said_append (past : List (Moment ι)) (moment : Moment ι) (id : ι) :
    said (past ++ [moment]) id = said past id ++ moment.said id := by
  simp [said]

inductive Service.Goes (settings : Settings) (service : Service ι) : Option (ι × Deed) → Service ι → Prop where
  | begins {id : ι} (call : Call) : service.visits id = none →
      Goes settings service none (service.begin settings id call)
  | does {id : ι} {deed : Deed} {after : Service ι} : deed.IsFair → service.Does settings id deed after →
      Goes settings service (some (id, deed)) after
  | drops {id : ι} {after : Service ι} : service.Drops id after → Goes settings service none after

inductive Course (settings : Settings) : List (Moment ι) → Service ι → Prop where
  | start : Course settings [] .empty
  | step {past : List (Moment ι)} {service after : Service ι} {deed : Option (ι × Deed)} :
      Course settings past service → service.Goes settings deed after →
      Course settings (past ++ [⟨service, deed⟩]) after

namespace Course

variable {past : List (Moment ι)} {service after : Service ι}

theorem goesOn (course : Course settings past service) (id : ι) {call : Call} {task after : Task}
    {deed : Deed} {left : Creates} (here : service.visits id = some ⟨call, task, false⟩)
    (step : Task.Step settings task service.creates deed after left) (fair : deed.IsFair) :
    Course settings (past ++ [⟨service, some (id, deed)⟩])
      (service.place id ⟨call, after, false⟩ left) :=
  course.step (.does fair (Service.does_alive id here step))

theorem earlier (course : Course settings past service) {then' : Service ι}
    (member : then' ∈ servicesOf past service) :
    ∃ before, before <+: past ∧ Course settings before then' := by
  induction course with
  | start =>
      rw [servicesOf, List.map_nil, List.nil_append, List.mem_singleton] at member
      subst member
      exact ⟨[], List.prefix_rfl, .start⟩
  | @step past service after deed course goes ih =>
      have whole : servicesOf (past ++ [⟨service, deed⟩]) after = servicesOf past service ++ [after] := by
        simp [servicesOf]
      rw [whole, List.mem_append, List.mem_singleton] at member
      rcases member with old | rfl
      · obtain ⟨before, front, course⟩ := ih old
        exact ⟨before, front.trans (List.prefix_append _ _), course⟩
      · exact ⟨_, List.prefix_rfl, course.step goes⟩

theorem steps (course : Course settings past service) {id : ι} {call : Call} {task after : Task}
    {before left : Creates} {deeds : List Deed} (here : service.visits id = some ⟨call, task, false⟩)
    (creates : service.creates = before) (steps : Task.Steps settings task before deeds after left)
    (fair : ∀ deed ∈ deeds, deed.IsFair) :
    ∃ more, Course settings (past ++ more) (service.place id ⟨call, after, false⟩ left) := by
  induction steps generalizing past service with
  | refl task before =>
      rw [← creates, Service.place_self here]
      exact ⟨[], by simpa using course⟩
  | head step steps ih =>
      subst creates
      obtain ⟨first, rest⟩ := List.forall_mem_cons.1 fair
      obtain ⟨more, course⟩ := ih (course.goesOn id here step first) (Service.place_visits_self ..) rfl rest
      rw [Service.place_place, List.append_assoc] at course
      exact ⟨_, course⟩

theorem polled {σ : Type} {host : Program.Host σ} (honest : host.Honest)
    (fair : ∀ response, host.Answers response → response.IsFair) (course : Course settings past service)
    {id : ι} {call : Call} {task : Task} (here : service.visits id = some ⟨call, task, false⟩) (token : Token)
    (state : σ) :
    ∃ more, Course settings (past ++ more) (service.place id
      ⟨call, (task.poll host settings token service.creates state).1, false⟩
      (task.poll host settings token service.creates state).2.1) := by
  obtain ⟨deeds, steps, allowed⟩ := Task.poll_steps honest settings token task service.creates state
  refine course.steps here rfl steps ?_
  intro deed member
  cases deed with
  | receives request response => exact fair response (allowed _ member)
  | _ => trivial

theorem dropped (course : Course settings past service) {id : ι} {call : Call} {key : String}
    {caller : Creator} (here : service.visits id = some ⟨call, .create key true caller, false⟩)
    (rest : caller.point.AtRest) :
    ∃ more left, Course settings (past ++ more) (service.place id left (caller.drop service.creates)) := by
  have silent : Deed.IsFair .silent := trivial
  have drops := course.step (.drops ⟨_, _, here, .create key true rest, rfl⟩)
  have leaves := drops.step (.does silent ⟨_, _, _, Service.place_visits_self .., Or.inr ⟨_, _, rfl⟩,
    .act key caller.abandon _, rfl⟩)
  have closes := leaves.step (.does silent ⟨_, _, _, Service.place_visits_self .., Or.inr ⟨_, _, rfl⟩,
    .act key _ _, rfl⟩)
  rw [Service.place_place, Service.place_place, List.append_assoc, List.append_assoc] at closes
  exact ⟨_, _, closes⟩

theorem evolves (course : Course settings past service) :
    Flight.Crowd.Evolves (past.map (·.service.crowd)) service.crowd := by
  induction course with
  | start => exact .start
  | @step past service after deed course goes ih =>
      rw [List.map_append]
      refine ih.step ?_
      cases goes with
      | begins call free => exact Service.begin_moves settings call free
      | does fair does => exact Service.does_moves does
      | drops drops => exact Service.drops_moves drops

theorem sound (course : Course settings past service) : service.crowd.Sound := course.evolves.sound

end Course

end CredHub

end SecretStore
