import SecretStore.Proofs.CredHub.Obeying
import SecretStore.Proofs.Flight.Polling
import SecretStore.Proofs.Http.Program

namespace SecretStore.CredHub

open Http
open Program (Host)

section Polls

variable {σ : Type} {host : Host σ} {fit : σ → Prop} {settings : Settings} {mine : Token} {state : σ}
  {dead : Prop}

theorem advance_cancelled (looks : host.Heeds fit) (cancelled : host.isCancelled mine state = true)
    {work : CreateWork} (heeds : IsHeedful work) (asks : work.IsAsking) :
    advance host mine work state = (.finished (.error .cancelled), state) := by
  rw [advance, Program.run_cancelled looks cancelled heeds asks]

theorem Task.poll_cancelled (looks : host.Heeds fit) (cancelled : host.isCancelled mine state = true)
    {task : Task} (obeys : task.Obeys dead) (asks : task.IsAsking) (creates : Creates) :
    (task.poll host settings mine creates state).1.outcome? = some (.error .cancelled) ∧
      (task.poll host settings mine creates state).2.2 = state := by
  cases task with
  | plain program =>
      rcases obeys with heeds | ⟨-, rfl⟩
      · simp only [Task.poll, Program.run_cancelled looks cancelled heeds asks]
        exact ⟨rfl, trivial⟩
      · exact asks.elim
  | create key announced caller =>
      obtain ⟨rfl, flight, work, point, asks⟩ := asks
      obtain ⟨-, obeys⟩ := obeys
      rw [point] at obeys
      rcases obeys with heeds | ⟨-, rfl⟩
      · have finished := advance_cancelled looks cancelled heeds asks
        simp only [Task.poll, ↓reduceIte, Flight.Caller.poll_finished point finished]
        exact ⟨rfl, trivial⟩
      · exact asks.elim

theorem Task.poll_takes_over (looks : host.Heeds fit) (cancelled : host.isCancelled mine state = true)
    {key : String} {caller : Creator} {creates : Creates} (obeys : (Task.create key true caller).Obeys dead)
    (joins : caller.HasToJoin creates) (absent : creates.flight? caller.key = none) :
    ((Task.create key true caller).poll host settings mine creates state).1.outcome? = some (.error .cancelled) ∧
      ((Task.create key true caller).poll host settings mine creates state).2.2 = state := by
  obtain ⟨⟨heeds, asks⟩, -⟩ := obeys
  have finished := advance_cancelled looks cancelled heeds asks
  simp only [Task.poll, ↓reduceIte, Flight.Caller.poll_completes joins absent finished]
  exact ⟨rfl, trivial⟩

theorem Task.poll_pending (host : Host σ) (mine : Token) (state : σ) (key : String) {caller : Creator}
    {flight : Nat} {creates : Creates} (point : caller.point = .following flight)
    (pending : creates.look flight = .pending) :
    (Task.create key true caller).poll host settings mine creates state =
      (.create key true caller, creates, state) := by
  simp only [Task.poll, ↓reduceIte, Flight.Caller.poll_pending point pending]

theorem Task.poll_lands (host : Host σ) (mine : Token) (state : σ) (key : String) {caller : Creator}
    {flight : Nat} {creates : Creates} {result : Except Failure Unit} (point : caller.point = .following flight)
    (sight : creates.look flight = .value result) :
    (Task.create key true caller).poll host settings mine creates state =
      (.create key true (caller.at (.returned result true)), creates, state) := by
  simp only [Task.poll, ↓reduceIte, Flight.Caller.poll_lands point sight]

end Polls

theorem Script.run_cancelled_eq {α : Type} (mine : Token) (program : Program α) (script : Script) :
    (Program.run Script.host mine program script).2.cancelled = script.cancelled := by
  refine Program.run_keeps (fun after : Script => after.cancelled = script.cancelled) ?logs ?sends ?receives program rfl
  case logs => exact fun line later same => same
  case sends =>
      intro request later same
      simp only [Script.host, Script.send]
      split <;> exact same
  case receives =>
      intro request later result after received same
      simp only [Script.host, Script.receive] at received
      split at received
      · cases received
        exact same
      · obtain ⟨reply, taken, answered⟩ := Option.map_eq_some_iff.1 received
        cases answered
        exact same

theorem Task.poll_cancelled_eq (settings : Settings) (mine : Token) (task : Task) (creates : Creates)
    (script : Script) :
    (task.poll Script.host settings mine creates script).2.2.cancelled = script.cancelled := by
  cases task with
  | plain program => exact Script.run_cancelled_eq mine program script
  | create key announced caller =>
      have begun : (if announced then script else Script.host.log (createLine settings key) script).cancelled =
          script.cancelled := by split <;> rfl
      refine Flight.Caller.run_keeps (advance Script.host mine)
        (fun _ _ after => after.cancelled = script.cancelled) ?acts ?works Flight.mostSteps begun
      case acts => exact fun caller creates after same => same
      case works =>
          intro caller creates after flight work point same
          have ran := Script.run_cancelled_eq mine work after
          rw [advance]
          split <;> simp_all

namespace Session

variable {session : Session} {running : Running} {id : String}

structure Waits (session : Session) (running : Running) : Prop where
  distinct : (session.running.map (·.id)).Nodup
  member : running ∈ session.running
  cancelled : session.script.isCancelled running.token = true

theorem Waits.running? (waits : session.Waits running) : session.running? running.id = some running := by
  cases found : session.running? running.id with
  | none => simpa using List.find?_eq_none.1 found running waits.member
  | some other =>
      have named : other.id = running.id := by simpa using List.find?_some found
      rw [List.inj_on_of_nodup_map waits.distinct (List.mem_of_find?_eq_some found) waits.member named]

theorem keep_eq (session : Session) (id : String) (mine : Token) (outcome : Outcome) :
    ∃ listings, session.keep id mine outcome = { session with listings } := by
  unfold keep
  split
  · exact ⟨_, rfl⟩
  · exact ⟨session.listings, rfl⟩

def nextTold (session : Session) (running : Running) : Option Outcome :=
  (running.task.poll Script.host session.settings running.token session.creates session.script).1.outcome?

theorem poll_cases (session : Session) (id : String) :
    (session.running? id = none ∧ session.poll id = session) ∨
      ∃ running, session.running? id = some running ∧
        (session.poll id).script.cancelled = session.script.cancelled ∧
        ((∃ task, session.nextTold running = none ∧
            (session.poll id).running =
              session.running.map (fun r => if r.id = id then { r with task } else r) ∧
            (session.poll id).finished = session.finished) ∨
          ∃ outcome, session.nextTold running = some outcome ∧
            (session.poll id).running = session.running.eraseP (·.id = id) ∧
            (session.poll id).finished = session.finished ++ [⟨id, running.token, outcome⟩]) := by
  cases found : session.running? id with
  | none => exact Or.inl ⟨rfl, by simp only [poll, found]⟩
  | some running =>
      have same := Task.poll_cancelled_eq session.settings running.token running.task session.creates session.script
      refine Or.inr ⟨running, rfl, ?_⟩
      simp only [poll, found, runTask, nextTold]
      generalize running.task.poll Script.host session.settings running.token session.creates session.script = polled
        at same ⊢
      obtain ⟨task, creates, script⟩ := polled
      cases ended : task.outcome? with
      | none => exact ⟨same, Or.inl ⟨task, rfl, rfl, rfl⟩⟩
      | some outcome =>
          obtain ⟨listings, kept⟩ := keep_eq
            (({ session with creates, script } : Session).without id) id running.token outcome
          simp only [kept]
          exact ⟨same, Or.inr ⟨outcome, rfl, rfl, rfl⟩⟩

theorem finished_poll (session : Session) (id : String) : session.finished ⊆ (session.poll id).finished := by
  rcases session.poll_cases id with ⟨-, same⟩ | ⟨running, -, -, ⟨task, -, -, same⟩ | ⟨outcome, -, -, more⟩⟩
  · rw [same]
    exact List.Subset.refl _
  · rw [same]
    exact List.Subset.refl _
  · rw [more]
    exact List.subset_append_left ..

theorem Waits.poll_other (waits : session.Waits running) (different : running.id ≠ id) :
    (session.poll id).Waits running := by
  rcases session.poll_cases id with ⟨-, same⟩ |
    ⟨other, -, cancelled, ⟨task, -, running', -⟩ | ⟨outcome, -, running', -⟩⟩
  · rwa [same]
  · refine ⟨?_, ?_, ?_⟩
    · have names : (session.poll id).running.map (·.id) = session.running.map (·.id) := by
        rw [running', List.map_map]
        refine List.map_congr_left fun r _ => ?_
        simp only [Function.comp]
        split <;> rfl
      rw [names]
      exact waits.distinct
    · rw [running']
      exact List.mem_map.2 ⟨running, waits.member, if_neg different⟩
    · rw [Script.isCancelled, cancelled]
      exact waits.cancelled
  · refine ⟨?_, ?_, ?_⟩
    · rw [running']
      exact waits.distinct.sublist ((List.eraseP_sublist ..).map _)
    · rw [running']
      exact (List.mem_eraseP_of_neg (by simpa using different)).2 waits.member
    · rw [Script.isCancelled, cancelled]
      exact waits.cancelled

theorem Waits.poll_own (waits : session.Waits running) {dead : Prop} (obeys : running.task.Obeys dead)
    (asks : running.task.IsAsking) :
    ⟨running.id, running.token, .error .cancelled⟩ ∈ (session.poll running.id).finished := by
  obtain ⟨ends, -⟩ := Task.poll_cancelled Script.heeds waits.cancelled obeys asks session.creates
  have ends : session.nextTold running = some (.error .cancelled) := ends
  rcases session.poll_cases running.id with ⟨absent, -⟩ |
    ⟨other, found, -, ⟨task, goesOn, -, -⟩ | ⟨outcome, ended, -, finished⟩⟩
  · rw [waits.running?] at absent
    cases absent
  · cases waits.running?.symm.trans found
    cases ends.symm.trans goesOn
  · cases waits.running?.symm.trans found
    cases ends.symm.trans ended
    rw [finished]
    exact List.mem_append_right _ (List.mem_singleton_self _)

theorem finished_polls (names : List String) (session : Session) :
    session.finished ⊆ (Rounds.each poll names session).finished := by
  induction names generalizing session with
  | nil => exact List.Subset.refl _
  | cons name names ih => exact List.Subset.trans (session.finished_poll name) (ih (session.poll name))

theorem Waits.polls {names : List String} (waits : session.Waits running) (named : running.id ∈ names)
    {dead : Prop} (obeys : running.task.Obeys dead) (asks : running.task.IsAsking) :
    ⟨running.id, running.token, .error .cancelled⟩ ∈ (Rounds.each poll names session).finished := by
  induction names generalizing session with
  | nil => cases named
  | cons name names ih =>
      rcases eq_or_ne running.id name with rfl | different
      · exact finished_polls names _ (waits.poll_own obeys asks)
      · exact ih (waits.poll_other different) (List.mem_of_ne_of_mem different named)

theorem finished_settle (fuel : Nat) (session : Session) :
    session.finished ⊆ (Rounds.settle round tally fuel session).finished := by
  induction fuel generalizing session with
  | zero => exact List.Subset.refl _
  | succ fuel ih =>
      have first := session.finished_polls (session.running.map (·.id))
      rw [Rounds.settle]
      split
      · exact first
      · exact List.Subset.trans first (ih session.round)

/-- A call that is about to ask or to read when its token is cancelled is finished when the session has settled. -/
theorem settle_cancelled (waits : session.Waits running) {dead : Prop} (obeys : running.task.Obeys dead)
    (asks : running.task.IsAsking) :
    ⟨running.id, running.token, .error .cancelled⟩ ∈ session.settle.finished := by
  have cleared : Waits { session with finished := [], script := session.script.cleared } running :=
    ⟨waits.distinct, waits.member, waits.cancelled⟩
  have first := cleared.polls (List.mem_map_of_mem waits.member) obeys asks
  rw [settle, Rounds.settle]
  split
  · exact first
  · exact finished_settle _ _ first

end Session

end SecretStore.CredHub
