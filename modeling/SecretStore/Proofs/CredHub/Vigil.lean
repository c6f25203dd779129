import SecretStore.Proofs.CredHub.Settling
import SecretStore.Proofs.Flight.Evolution

namespace SecretStore.CredHub

open Http
open Program (Host)

structure Watch (ι : Type) where
  service : Service ι
  cancelled : List Token

structure Instant (ι : Type) where
  watch : Watch ι
  deed : Option (ι × Deed)

variable {ι : Type} {settings : Settings} {token : ι → Token}

namespace Watch

def start : Watch ι := ⟨.empty, []⟩

def isCancelled (watch : Watch ι) (token : Token) : Bool := watch.cancelled.contains token

theorem isCancelled_iff {watch : Watch ι} {token : Token} :
    watch.isCancelled token = true ↔ token ∈ watch.cancelled := by
  rw [isCancelled, List.contains_iff_mem]

variable [DecidableEq ι]

inductive Goes (settings : Settings) (token : ι → Token) (watch : Watch ι) :
    Option (ι × Deed) → Watch ι → Prop where
  | begins {id : ι} (call : Call) : watch.service.visits id = none →
      Goes settings token watch none { watch with service := watch.service.begin settings id call }
  | cancels (cancelled : Token) :
      Goes settings token watch none { watch with cancelled := cancelled :: watch.cancelled }
  | does {id : ι} {visit : Visit} {deed : Deed} {task : Task} {creates : Creates} :
      watch.service.visits id = some visit → visit.MaySteps →
      visit.task.StepUnder settings (watch.isCancelled (token id)) watch.service.creates deed task creates →
      Goes settings token watch (some (id, deed))
        { watch with service := watch.service.place id { visit with task } creates }
  | drops {id : ι} {after : Service ι} : watch.service.Drops id after →
      Goes settings token watch none { watch with service := after }

end Watch

variable [DecidableEq ι]

/-- Runs of a store in which tokens are cancelled at any time. The latest instant comes first. -/
inductive Vigil (settings : Settings) (token : ι → Token) : List (Instant ι) → Watch ι → Prop where
  | start : Vigil settings token [] .start
  | step {past : List (Instant ι)} {now after : Watch ι} {deed : Option (ι × Deed)} :
      Vigil settings token past now → now.Goes settings token deed after →
      Vigil settings token (⟨now, deed⟩ :: past) after

omit [DecidableEq ι] in
def Instant.issued (token : ι → Token) (mine : Token) (instant : Instant ι) : List Request :=
  match instant.deed with
  | some (id, .sends request) => if token id = mine then [request] else []
  | _ => []

def issued (token : ι → Token) (mine : Token) (past : List (Instant ι)) : List Request :=
  past.flatMap (·.issued token mine)

def watchesOf (past : List (Instant ι)) (now : Watch ι) : List (Watch ι) := now :: past.map (·.watch)

/-! ## What a step keeps -/

namespace Watch.Goes

variable {watch after : Watch ι} {deed : Option (ι × Deed)} {id : ι}

theorem cancelled_mono (goes : watch.Goes settings token deed after) {mine : Token}
    (dead : mine ∈ watch.cancelled) : mine ∈ after.cancelled := by
  cases goes with
  | cancels other => exact List.mem_cons_of_mem other dead
  | _ => exact dead

theorem visit_cases (goes : watch.Goes settings token deed after) {visit : Visit}
    (here : after.service.visits id = some visit) :
    (watch.service.visits id = none ∧ visit.task = .start settings visit.call) ∨
      ∃ before, watch.service.visits id = some before ∧
        (visit.task = before.task ∨ before.task.Abandons visit.task ∨
          ∃ deed left, before.task.StepUnder settings (watch.isCancelled (token id)) watch.service.creates deed
            visit.task left) := by
  cases goes with
  | @begins other call free =>
      rw [Service.begin, Service.place_visits] at here
      split at here
      · rename_i same
        cases here
        exact Or.inl ⟨same ▸ free, rfl⟩
      · exact Or.inr ⟨visit, here, Or.inl rfl⟩
  | cancels other => exact Or.inr ⟨visit, here, Or.inl rfl⟩
  | @does other before deed task creates there may step =>
      rw [Service.place_visits] at here
      split at here
      · rename_i same
        subst same
        cases here
        exact Or.inr ⟨before, there, Or.inr (Or.inr ⟨deed, creates, step⟩)⟩
      · exact Or.inr ⟨visit, here, Or.inl rfl⟩
  | @drops other after drops =>
      obtain ⟨before, task, there, abandons, rfl⟩ := drops
      rw [Service.place_visits] at here
      split at here
      · rename_i same
        subst same
        cases here
        exact Or.inr ⟨before, there, Or.inr (Or.inl abandons)⟩
      · exact Or.inr ⟨visit, here, Or.inl rfl⟩

theorem stays (goes : watch.Goes settings token deed after) {visit : Visit}
    (here : watch.service.visits id = some visit) : ∃ visit', after.service.visits id = some visit' := by
  have placed (service : Service ι) (other : ι) (visit' : Visit) (creates : Creates)
      (here : service.visits id = some visit) :
      ∃ visit'', (service.place other visit' creates).visits id = some visit'' := by
    rw [Service.place_visits]
    split
    · exact ⟨_, rfl⟩
    · exact ⟨visit, here⟩
  cases goes with
  | begins call free => exact placed _ _ _ _ here
  | cancels other => exact ⟨visit, here⟩
  | does there may step => exact placed _ _ _ _ here
  | drops drops =>
      obtain ⟨before, task, there, abandons, rfl⟩ := drops
      exact placed _ _ _ _ here

theorem doomed (goes : watch.Goes settings token deed after) {visit : Visit}
    (here : watch.service.visits id = some visit) (dead : token id ∈ watch.cancelled)
    (doomed : visit.task.Doomed) : ∃ visit', after.service.visits id = some visit' ∧ visit'.task.Doomed := by
  obtain ⟨visit', there⟩ := goes.stays here
  refine ⟨visit', there, ?_⟩
  rcases goes.visit_cases there with ⟨free, -⟩ | ⟨before, found, turned⟩
  · rw [here] at free
    cases free
  · cases here.symm.trans found
    rcases turned with same | abandons | ⟨deed, left, step⟩
    · exact same ▸ doomed
    · exact doomed.abandon abandons
    · rw [Watch.isCancelled_iff.2 dead] at step
      exact doomed.step step

theorem moves (goes : watch.Goes settings token deed after) :
    after.service.crowd = watch.service.crowd ∨
      ∃ step, after.service.crowd = watch.service.crowd.move step := by
  cases goes with
  | begins call free => exact Service.begin_moves settings call free
  | cancels other => exact Or.inl rfl
  | does here may step => exact Service.place_moves here step.cases
  | drops drops => exact Service.drops_moves drops

theorem sends {request : Request} (goes : watch.Goes settings token (some (id, .sends request)) after) :
    token id ∉ watch.cancelled := by
  cases goes with
  | does here may step =>
      intro dead
      rw [Watch.isCancelled_iff.2 dead] at step
      cases step.sends

end Watch.Goes

namespace Vigil

variable {past : List (Instant ι)} {now : Watch ι}

theorem obeys (vigil : Vigil settings token past now) {id : ι} {visit : Visit}
    (here : now.service.visits id = some visit) : visit.task.Obeys (token id ∈ now.cancelled) := by
  induction vigil generalizing visit with
  | start => cases here
  | @step past now after deed vigil goes ih =>
      rcases goes.visit_cases here with ⟨-, fresh⟩ | ⟨before, found, turned⟩
      · rw [fresh]
        exact Task.obeys_start settings visit.call _
      · have kept := ih found
        rcases turned with same | abandons | ⟨deed, left, step⟩
        · exact (same ▸ kept).mono goes.cancelled_mono
        · exact (kept.abandon abandons).mono goes.cancelled_mono
        · exact (kept.step step Watch.isCancelled_iff.1).mono goes.cancelled_mono

theorem evolves (vigil : Vigil settings token past now) :
    Flight.Crowd.Evolves (past.reverse.map (·.watch.service.crowd)) now.service.crowd := by
  induction vigil with
  | start => exact .start
  | step vigil goes ih =>
      rw [List.reverse_cons, List.map_append]
      exact ih.step goes.moves

theorem earlier (vigil : Vigil settings token past now) {watch : Watch ι} (member : watch ∈ watchesOf past now) :
    ∃ before, Vigil settings token before watch := by
  induction vigil with
  | start =>
      obtain rfl := List.mem_singleton.1 member
      exact ⟨_, .start⟩
  | step vigil goes ih =>
      rcases List.mem_cons.1 member with rfl | old
      · exact ⟨_, vigil.step goes⟩
      · exact ih old

theorem still_cancelled (vigil : Vigil settings token past now) {instant : Instant ι} (member : instant ∈ past)
    {mine : Token} (dead : mine ∈ instant.watch.cancelled) : mine ∈ now.cancelled := by
  induction vigil with
  | start => cases member
  | step vigil goes ih =>
      rcases List.mem_cons.1 member with rfl | old
      · exact goes.cancelled_mono dead
      · exact goes.cancelled_mono (ih old)

theorem doomed (vigil : Vigil settings token past now) {watch : Watch ι} (member : watch ∈ watchesOf past now)
    {id : ι} {visit : Visit} (here : watch.service.visits id = some visit) (dead : token id ∈ watch.cancelled)
    (asks : visit.task.IsAsking) : ∃ visit', now.service.visits id = some visit' ∧ visit'.task.Doomed := by
  induction vigil with
  | start =>
      obtain rfl := List.mem_singleton.1 member
      cases here
  | @step past now after deed vigil goes ih =>
      rcases List.mem_cons.1 member with rfl | old
      · exact ⟨visit, here, ((vigil.step goes).obeys here).doomed asks⟩
      · obtain ⟨visit', there, doomed⟩ := ih old
        have dead' : token id ∈ now.cancelled := by
          rcases List.mem_cons.1 old with rfl | old
          · exact dead
          · obtain ⟨instant, present, rfl⟩ := List.mem_map.1 old
            exact vigil.still_cancelled present dead
        exact goes.doomed there dead' doomed

theorem issued_after (vigil : Vigil settings token past now) {later earlier : List (Instant ι)}
    {instant : Instant ι} (split : past = later ++ instant :: earlier) {mine : Token}
    (dead : mine ∈ instant.watch.cancelled) : issued token mine past = issued token mine earlier := by
  -- From the moment on at which the token is cancelled, every deed is another's or sends nothing.
  have silent {past : List (Instant ι)} {now after : Watch ι} {deed : Option (ι × Deed)}
      (goes : now.Goes settings token deed after) (dead : mine ∈ now.cancelled) :
      issued token mine (⟨now, deed⟩ :: past) = issued token mine past := by
    have nothing : (Instant.mk now deed).issued token mine = [] := by
      rw [Instant.issued]
      split
      · rename_i id request same
        cases (same : deed = some (id, .sends request))
        refine if_neg ?_
        rintro rfl
        exact goes.sends dead
      · rfl
    rw [issued, List.flatMap_cons, nothing]
    rfl
  induction vigil generalizing later with
  | start => simp at split
  | @step past now after deed vigil goes ih =>
      cases later with
      | nil =>
          obtain ⟨rfl, rfl⟩ := List.cons.inj split
          exact silent goes dead
      | cons last later =>
          obtain ⟨rfl, rest⟩ := List.cons.inj split
          have known : mine ∈ now.cancelled :=
            vigil.still_cancelled (rest ▸ List.mem_append_right _ (List.mem_cons_self ..)) dead
          rw [silent goes known]
          exact ih rest

end Vigil

/-! ## Polls -/

namespace Vigil

variable {past : List (Instant ι)} {now : Watch ι}

def GoesOn (settings : Settings) (token : ι → Token) (past : List (Instant ι)) (now : Watch ι) (id : ι)
    (call : Call) (task : Task) (creates : Creates) : Prop :=
  ∃ more, Vigil settings token (more ++ past)
    { now with service := now.service.place id ⟨call, task, false⟩ creates }

namespace GoesOn

variable {id : ι} {call : Call} {task after : Task} {creates left : Creates}

theorem step {deed : Deed} (goesOn : GoesOn settings token past now id call task creates)
    (step : task.StepUnder settings (now.isCancelled (token id)) creates deed after left) :
    GoesOn settings token past now id call after left := by
  obtain ⟨more, vigil⟩ := goesOn
  have does := vigil.step (.does (Service.place_visits_self ..) (Or.inl rfl) step)
  simp only [Service.place_place] at does
  exact ⟨_ :: more, does⟩

theorem plain {program next : Program Outcome}
    (goesOn : GoesOn settings token past now id call (.plain program) creates)
    (steps : program.StepsUnder (now.isCancelled (token id)) next) :
    GoesOn settings token past now id call (.plain next) creates := by
  induction steps with
  | refl => exact goesOn
  | tail steps step ih =>
      obtain ⟨deed, step⟩ := step
      exact ih.step (.plain creates step)

theorem work {key : String} {caller : Creator} {flight : Nat} {work next : CreateWork}
    (goesOn : GoesOn settings token past now id call (.create key true caller) creates)
    (point : caller.point = .working flight work)
    (steps : work.StepsUnder (now.isCancelled (token id)) next) :
    GoesOn settings token past now id call (.create key true (caller.progress flight (.waiting next))) creates := by
  induction steps with
  | refl =>
      have same : caller.progress flight (.waiting work) = caller := by rw [Flight.Caller.progress, ← point]
      rw [same]
      exact goesOn
  | tail steps step ih =>
      obtain ⟨deed, step⟩ := step
      exact ih.step (.work key creates rfl step)

end GoesOn

theorem polled {σ : Type} {host : Host σ} {fit : σ → Prop} (looks : host.Heeds fit)
    (vigil : Vigil settings token past now) {id : ι} {call : Call} {task : Task}
    (here : now.service.visits id = some ⟨call, task, false⟩) {state : σ} (fits : fit state)
    (same : host.isCancelled (token id) state = now.isCancelled (token id)) :
    GoesOn settings token past now id call (task.poll host settings (token id) now.service.creates state).1
        (task.poll host settings (token id) now.service.creates state).2.1 ∧
      host.Keeps fit state (task.poll host settings (token id) now.service.creates state).2.2 := by
  have here' : GoesOn settings token past now id call task now.service.creates :=
    ⟨[], by rwa [Service.place_self here]⟩
  cases task with
  | plain program =>
      obtain ⟨steps, keeps⟩ := Program.run_stepsUnder looks (token id) program fits
      rw [same] at steps
      exact ⟨here'.plain steps, keeps⟩
  | create key announced caller =>
      have begun : ∃ state', (Task.create key announced caller).poll host settings (token id) now.service.creates
            state = (Task.create key true caller).poll host settings (token id) now.service.creates state' ∧
          host.Keeps fit state state' ∧
          GoesOn settings token past now id call (.create key true caller) now.service.creates := by
        cases announced with
        | true => exact ⟨state, rfl, host.keeps_self fits, here'⟩
        | false => exact ⟨_, rfl, looks.logs _ fits, here'.step (.announce key caller _)⟩
      obtain ⟨state', polls, keeps, goesOn⟩ := begun
      rw [polls]
      refine Flight.Caller.run_keeps (advance host (token id)) (fun caller creates after =>
        GoesOn settings token past now id call (.create key true caller) creates ∧ host.Keeps fit state after)
        ?acts ?works Flight.mostSteps ⟨goesOn, keeps⟩
      case acts =>
          rintro caller creates after ⟨goesOn, keeps⟩
          exact ⟨goesOn.step (.act key caller creates), keeps⟩
      case works =>
          rintro caller creates after flight work point ⟨goesOn, keeps⟩
          obtain ⟨steps, keeps'⟩ := Program.run_stepsUnder looks (token id) work keeps.1
          rw [keeps.2, same] at steps
          have worked := goesOn.work point steps
          cases ran : Program.run host (token id) work after with
          | mk rest left =>
              rw [ran] at worked keeps'
              cases rest with
              | done value =>
                  simp only [advance, ran]
                  exact ⟨worked.step (.finish key creates rfl), keeps.trans keeps'⟩
              | _ =>
                  simp only [advance, ran]
                  exact ⟨worked, keeps.trans keeps'⟩

end Vigil

/-! ## The statement -/

/-- The call has followed a creation whose leader published that it was cancelled, under a cancelled token. -/
def LeaderCancelled (token : ι → Token) (past : List (Instant ι)) (now : Watch ι) (id : ι) (name : String) : Prop :=
  ∃ leader ≠ id, ∃ flight,
    (∃ watch ∈ watchesOf past now,
      watch.service.crowd.Follows id name flight ∧ watch.service.crowd.Leads leader name flight) ∧
    ∃ watch ∈ watchesOf past now, ∃ caller, watch.service.crowd.callers leader = some caller ∧
      caller.point = .publishing flight (.error .cancelled) ∧ token leader ∈ watch.cancelled

structure Heeded (settings : Settings) (token : ι → Token) (past : List (Instant ι)) (now : Watch ι) : Prop where
  /-- No request is sent under a cancelled token. In particular, a creation that is cancelled after its lookup writes
  nothing. -/
  silent : ∀ {later earlier : List (Instant ι)} {instant : Instant ι} {mine : Token},
    past = later ++ instant :: earlier → mine ∈ instant.watch.cancelled →
    issued token mine past = issued token mine earlier
  /-- A call ends as cancelled only if its token is cancelled, or that of a leader it has joined is. -/
  told : ∀ {id visit}, now.service.visits id = some visit → visit.task.outcome? = some (.error .cancelled) →
    token id ∈ now.cancelled ∨ ∃ key announced caller, visit.task = .create key announced caller ∧
      caller.point = .returned (.error .cancelled) true ∧ LeaderCancelled token past now id caller.key
  /-- A call that is about to ask or to read when its token is cancelled has no other outcome. -/
  doomed : ∀ {watch id visit}, watch ∈ watchesOf past now → watch.service.visits id = some visit →
    token id ∈ watch.cancelled → visit.task.IsAsking →
    ∃ visit', now.service.visits id = some visit' ∧
      (visit'.task.outcome? = none ∨ visit'.task.outcome? = some (.error .cancelled))
  /-- The outcome is there after the next poll, which sends nothing. -/
  ends : ∀ {σ : Type} {host : Host σ} {fit : σ → Prop} {state : σ} {id visit}, host.Heeds fit →
    host.isCancelled (token id) state = true → now.service.visits id = some visit → visit.task.IsAsking →
    (visit.task.poll host settings (token id) now.service.creates state).1.outcome? =
        some (.error .cancelled) ∧
      (visit.task.poll host settings (token id) now.service.creates state).2.2 = state
  settles : ∀ {session : Session} {running : Running} {id visit}, session.Waits running →
    now.service.visits id = some visit → visit.task = running.task → running.task.IsAsking →
    ⟨running.id, running.token, .error .cancelled⟩ ∈ session.settle.finished
  /-- A follower does not look at its token, neither while the leader works nor when it has published. -/
  waits : ∀ {σ : Type} (host : Host σ) (state : σ) {id visit key caller flight leader other work},
    now.service.visits id = some visit → visit.task = .create key true caller →
    caller.point = .following flight → now.service.crowd.callers leader = some other →
    other.point = .working flight work →
    visit.task.outcome? = none ∧
      visit.task.poll host settings (token id) now.service.creates state =
        (visit.task, now.service.creates, state)
  shares : ∀ {σ : Type} (host : Host σ) (state : σ) {id visit key caller flight result},
    now.service.visits id = some visit → visit.task = .create key true caller →
    caller.point = .following flight → now.service.creates.look flight = .value result →
    visit.task.poll host settings (token id) now.service.creates state =
      (.create key true (caller.at (.returned result true)), now.service.creates, state)
  /-- A follower that takes over under a cancelled token ends as cancelled and sends nothing. -/
  takes_over : ∀ {σ : Type} {host : Host σ} {fit : σ → Prop} {state : σ} {id visit key caller}, host.Heeds fit →
    host.isCancelled (token id) state = true → now.service.visits id = some visit →
    visit.task = .create key true caller → caller.HasToJoin now.service.creates →
    now.service.creates.flight? caller.key = none →
    (visit.task.poll host settings (token id) now.service.creates state).1.outcome? =
        some (.error .cancelled) ∧
      (visit.task.poll host settings (token id) now.service.creates state).2.2 = state

namespace Vigil

variable {past : List (Instant ι)} {now : Watch ι}

theorem leader_cancelled (vigil : Vigil settings token past now) {id : ι} {caller : Creator}
    (here : now.service.crowd.callers id = some caller)
    (point : caller.point = .returned (.error .cancelled) true) :
    LeaderCancelled token past now id caller.key := by
  obtain ⟨leader, foreign, flight, ⟨joining, member, follows, leads⟩, publishing, member', publisher, there,
    publishes⟩ := vigil.evolves.joined here point
  have once {crowd : Flight.Crowd ι CreateWork (Except Failure Unit)}
      (member : crowd ∈ past.reverse.map (·.watch.service.crowd) ++ [now.service.crowd]) :
      ∃ watch ∈ watchesOf past now, watch.service.crowd = crowd := by
    simpa [watchesOf, or_comm, eq_comm] using member
  obtain ⟨watch, old, rfl⟩ := once member
  obtain ⟨watch', old', rfl⟩ := once member'
  refine ⟨leader, foreign, flight, ⟨watch, old, follows, leads⟩, watch', old', publisher, there, publishes, ?_⟩
  -- What the leader has published comes from its own work, so it is its own token that was cancelled.
  obtain ⟨before, vigil'⟩ := vigil.earlier old'
  obtain ⟨visit, found, creator⟩ := Option.bind_eq_some_iff.1 there
  have obeys := vigil'.obeys found
  cases task : visit.task with
  | plain program =>
      rw [task] at creator
      cases creator
  | create key announced caller' =>
      rw [task] at creator obeys
      cases creator
      obtain ⟨-, obeys⟩ := obeys
      rw [publishes] at obeys
      exact obeys rfl

theorem heeded (vigil : Vigil settings token past now) : Heeded settings token past now where
  silent split dead := vigil.issued_after split dead
  told {id visit} here failed := by
    rcases (vigil.obeys here).told failed with dead | ⟨key, announced, caller, task, point⟩
    · exact Or.inl dead
    · exact Or.inr ⟨key, announced, caller, task, point,
        vigil.leader_cancelled (Service.crowd_creator here task) point⟩
  doomed {watch id visit} member here dead asks := by
    obtain ⟨visit', there, doomed⟩ := vigil.doomed member here dead asks
    refine ⟨visit', there, ?_⟩
    cases told : visit'.task.outcome? with
    | none => exact Or.inl rfl
    | some outcome => exact Or.inr (congrArg some (doomed.outcome told))
  ends looks dead here asks := Task.poll_cancelled looks dead (vigil.obeys here) asks _
  settles waits here same asks := Session.settle_cancelled waits (same ▸ vigil.obeys here) asks
  waits {σ} host state {id visit key caller flight leader other work} here task point there works := by
    have pending := vigil.evolves.pending there works
    rw [task]
    refine ⟨?_, Task.poll_pending host _ state key point pending⟩
    rw [Task.outcome?, Flight.Caller.result?, point]
    rfl
  shares {σ} host state {id visit key caller flight result} here task point sight := by
    rw [task]
    exact Task.poll_lands host _ state key point sight
  takes_over {σ host fit state id visit key caller} looks dead here task joins absent := by
    have obeys := vigil.obeys here
    rw [task] at obeys ⊢
    exact Task.poll_takes_over looks dead obeys joins absent

theorem goesOn (vigil : Vigil settings token past now) (id : ι) {call : Call} {task after : Task} {deed : Deed}
    {left : Creates} (here : now.service.visits id = some ⟨call, task, false⟩)
    (step : task.StepUnder settings (now.isCancelled (token id)) now.service.creates deed after left) :
    Vigil settings token (⟨now, some (id, deed)⟩ :: past)
      { now with service := now.service.place id ⟨call, after, false⟩ left } :=
  vigil.step (.does here (Or.inl rfl) step)

theorem heeded_joined :
    ∃ (past : List (Instant Bool)) (now : Watch Bool),
      Vigil {} (fun id => if id then "leader" else "follower") past now ∧
      Heeded {} (fun id => if id then "leader" else "follower") past now ∧ now.cancelled = ["leader"] ∧
      issued (fun id => if id then "leader" else "follower") "leader" past = [getRequest "/k"] ∧
      (now.service.visits false).map (·.task.outcome?) = some (some (.error .cancelled)) := by
  have nobody : Vigil {} (fun id => if id then "leader" else "follower") [] (Watch.start : Watch Bool) := .start
  have one := nobody.step (@Watch.Goes.begins Bool _ {} _ _ true (.create "k" [49]) rfl)
  have both := one.step (@Watch.Goes.begins Bool _ {} _ _ false (.create "k" [50]) rfl)
  have announced := both.goesOn true rfl (.announce _ _ _)
  have leads := announced.goesOn true rfl (.act _ _ _)
  have announced' := leads.goesOn false rfl (.announce _ _ _)
  have follows := announced'.goesOn false rfl (.act _ _ _)
  have asks := follows.goesOn true rfl (.work _ _ rfl (.send _ _ rfl))
  have cancelled := asks.step (.cancels "leader")
  have lost := cancelled.goesOn true rfl (.work _ _ rfl (.lose _ _ ⟨fun _ => rfl, fun _ => rfl⟩))
  have finished := lost.goesOn true rfl (.finish _ _ rfl)
  have published := finished.goesOn true rfl (.act _ _ _)
  have left := published.goesOn true rfl (.act _ _ _)
  have closed := left.goesOn true rfl (.act _ _ _)
  have landed := closed.goesOn false rfl (.act _ _ _)
  exact ⟨_, _, landed, heeded landed, rfl, rfl, rfl⟩

end Vigil

end SecretStore.CredHub
