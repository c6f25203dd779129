import SecretStore.CredHub.Session
import SecretStore.Proofs.CredHub.Blindness
import SecretStore.Proofs.Flight.Alike

namespace SecretStore.CredHub

open Http

section Rounds

variable {σ : Type} {related : σ → σ → Prop}

theorem settle_related {round : σ → σ} {tally : σ → Nat}
    (rounds : ∀ state state', related state state' → related (round state) (round state'))
    (tallies : ∀ state state', related state state' → tally state = tally state') (fuel : Nat) {state state' : σ}
    (pair : related state state') :
    related (Rounds.settle round tally fuel state) (Rounds.settle round tally fuel state') := by
  induction fuel generalizing state state' with
  | zero => exact pair
  | succ fuel ih =>
      have after := rounds state state' pair
      simp only [Rounds.settle, tallies _ _ after, tallies _ _ pair]
      split
      · exact after
      · exact ih after

theorem each_related {ι : Type} {poll : ι → σ → σ}
    (polls : ∀ id state state', related state state' → related (poll id state) (poll id state')) (ids : List ι)
    {state state' : σ} (pair : related state state') :
    related (Rounds.each poll ids state) (Rounds.each poll ids state') := by
  induction ids generalizing state state' with
  | nil => exact pair
  | cons id ids ih => exact ih (polls id _ _ pair)

end Rounds

variable {exact : Prop} {settings : Settings}

inductive Task.Alike (exact : Prop) : Task → Task → Prop where
  | plain {program program' : Program Outcome} : Asks exact program program' →
      Alike exact (.plain program) (.plain program')
  | create (key : String) (announced : Bool) {caller caller' : Creator} :
      caller.Alike (Asks exact) (Agrees exact) caller' →
      Alike exact (.create key announced caller) (.create key announced caller')

theorem Task.start_alike {call call' : Call} (veiled : Call.Veiled call call') :
    (Task.start settings call).Alike exact (Task.start settings call') := by
  have created (key : String) (value value' : Bytes) :
      (Task.start settings (.create key value)).Alike exact (Task.start settings (.create key value')) :=
    .create key false (.arrive _ (asks_createWork value value'))
  cases veiled with
  | create key value value' => exact created key value value'
  | set key value value' => exact .plain (asks_program (.set key value value'))
  | same call =>
      cases call with
      | create key value => exact created key value value
      | _ => exact .plain (asks_program (.same _))

theorem Agrees.created {value value' : Except Failure Unit} (agrees : Agrees exact value value') (key : String)
    (shared : Bool) : Agrees exact (createOutcome key shared value) (createOutcome key shared value') where
  same holds := congrArg (createOutcome key shared) (agrees.same holds)
  absent_iff other := by
    have lifted (value : Except Failure Unit) :
        createOutcome key shared value = .error (.notFound other) ↔ value = .error (.notFound other) := by
      cases value with
      | ok _ => cases shared <;> simp [createOutcome]
      | error failure => simp [createOutcome]
    rw [lifted, lifted, agrees.absent_iff]

theorem Task.Alike.outcome? {task task' : Task} (alike : task.Alike exact task') :
    Option.Rel (Agrees exact) task.outcome? task'.outcome? := by
  cases alike with
  | plain asks => exact asks.result?
  | create key announced callers =>
      refine map_related callers.result? ?_
      rintro ⟨value, shared⟩ ⟨value', _⟩ ⟨agrees, rfl⟩
      exact agrees.created key shared

variable {replies : Reply → Reply → Prop} {script script' : Script} {creates creates' : Creates}

section

variable (sound : ∀ reply reply', replies reply reply' → reply.Alike (Veiled exact) reply')

include sound

theorem advance_alike (token : Token) {work work' : CreateWork} (asks : Asks exact work work')
    (scripts : script.Alike replies script') :
    (advance Script.host token work script).1.Alike (Asks exact) (Agrees exact)
        (advance Script.host token work' script').1 ∧
      (advance Script.host token work script).2.Alike replies (advance Script.host token work' script').2 := by
  obtain ⟨programs, after⟩ := scripts.run sound asks token
  rw [advance, advance]
  generalize Program.run Script.host token work script = first at programs after ⊢
  generalize Program.run Script.host token work' script' = second at programs after ⊢
  obtain ⟨left, last⟩ := first
  obtain ⟨left', last'⟩ := second
  dsimp only at programs after
  cases programs with
  | done agrees => exact ⟨.finished agrees, after⟩
  | log line next => exact ⟨.waiting (.log line next), after⟩
  | send same next => exact ⟨.waiting (.send same next), after⟩
  | await same next => exact ⟨.waiting (.await same next), after⟩
  | read reading next => exact ⟨.waiting (.read reading next), after⟩

theorem Task.Alike.poll {task task' : Task} (alike : task.Alike exact task') (settings : Settings) (token : Token)
    (tables : creates.Alike (Agrees exact) creates') (scripts : script.Alike replies script') :
    (task.poll Script.host settings token creates script).1.Alike exact
        (task'.poll Script.host settings token creates' script').1 ∧
      (task.poll Script.host settings token creates script).2.1.Alike (Agrees exact)
        (task'.poll Script.host settings token creates' script').2.1 ∧
      (task.poll Script.host settings token creates script).2.2.Alike replies
        (task'.poll Script.host settings token creates' script').2.2 := by
  cases alike with
  | plain asks =>
      obtain ⟨programs, after⟩ := scripts.run sound asks token
      exact ⟨.plain programs, tables, after⟩
  | create key announced callers =>
      have announcedAlike : (if announced then script else Script.host.log (createLine settings key) script).Alike
          replies (if announced then script' else Script.host.log (createLine settings key) script') := by
        cases announced with
        | true => exact scripts
        | false => exact scripts.log _
      obtain ⟨callers, tables, after⟩ :=
        callers.poll (fun _ _ _ _ asks same => advance_alike sound token asks same) tables announcedAlike
      exact ⟨.create key true callers, tables, after⟩

end

structure Running.Alike (exact : Prop) (running running' : Running) : Prop where
  id : running.id = running'.id
  token : running.token = running'.token
  task : running.task.Alike exact running'.task

structure Finished.Alike (exact : Prop) (finished finished' : Finished) : Prop where
  id : finished.id = finished'.id
  token : finished.token = finished'.token
  outcome : Agrees exact finished.outcome finished'.outcome

/-- Listings hold keys from replies, so they are compared only if `exact` holds. -/
structure Session.Alike (exact : Prop) (replies : Reply → Reply → Prop) (session session' : Session) : Prop where
  settings : session.settings = session'.settings
  script : session.script.Alike replies session'.script
  creates : session.creates.Alike (Agrees exact) session'.creates
  running : List.Forall₂ (Running.Alike exact) session.running session'.running
  finished : List.Forall₂ (Finished.Alike exact) session.finished session'.finished
  listings : exact → session.listings = session'.listings

inductive Command.Alike (replies : Reply → Reply → Prop) : Command → Command → Prop where
  | call (id : String) (token : Token) {call call' : Call} {own own' : List Reply} : Call.Veiled call call' →
      List.Forall₂ replies own own' → Alike replies (.call id call token own) (.call id call' token own')
  | reply {reply reply' : Reply} : replies reply reply' → Alike replies (.reply reply) (.reply reply')
  | cancel (token : Token) : Alike replies (.cancel token) (.cancel token)
  | drop (id : String) : Alike replies (.drop id) (.drop id)
  | cursor (id : String) (calls : List KeyCursor.Call) : Alike replies (.cursor id calls) (.cursor id calls)
  | look : Alike replies .look .look

namespace Session.Alike

variable {session session' : Session}

theorem ofSettings (settings : Settings) {queued queued' : List Reply} (pairs : List.Forall₂ replies queued queued') :
    (Session.ofSettings settings queued).Alike exact replies (Session.ofSettings settings queued') where
  settings := rfl
  script := ⟨rfl, pairs, rfl, rfl, rfl⟩
  creates := .empty
  running := .nil
  finished := .nil
  listings _ := rfl

theorem running? (alike : session.Alike exact replies session') (id : String) :
    Option.Rel (Running.Alike exact) (session.running? id) (session'.running? id) :=
  find?_related (fun _ _ pair => by rw [pair.id]) alike.running

theorem without (alike : session.Alike exact replies session') (id : String) :
    (session.without id).Alike exact replies (session'.without id) where
  settings := alike.settings
  script := alike.script
  creates := alike.creates
  running := eraseP_related (fun _ _ pair => by rw [pair.id]) alike.running
  finished := alike.finished
  listings := alike.listings

theorem withTask (alike : session.Alike exact replies session') (id : String) {task task' : Task}
    (tasks : task.Alike exact task') :
    (session.withTask id task).Alike exact replies (session'.withTask id task') where
  settings := alike.settings
  script := alike.script
  creates := alike.creates
  running := by
    refine List.rel_map (fun r r' pair => ?_) alike.running
    rw [pair.id]
    split
    · exact ⟨rfl, pair.token, tasks⟩
    · exact pair
  finished := alike.finished
  listings := alike.listings

theorem keep_eq (session : Session) (id : String) (token : Token) (outcome : Outcome) :
    ∃ listings, session.keep id token outcome = { session with listings } := by
  rw [Session.keep.eq_def]
  split
  · exact ⟨_, rfl⟩
  · exact ⟨session.listings, rfl⟩

theorem keep (alike : session.Alike exact replies session') (id : String) (token : Token)
    {outcome outcome' : Outcome} (agrees : Agrees exact outcome outcome') :
    (session.keep id token outcome).Alike exact replies (session'.keep id token outcome') := by
  have same (holds : exact) :
      (session.keep id token outcome).listings = (session'.keep id token outcome').listings := by
    obtain rfl := agrees.same holds
    rw [Session.keep.eq_def, Session.keep.eq_def, alike.listings holds]
    split
    · rfl
    · exact alike.listings holds
  obtain ⟨listings, kept⟩ := keep_eq session id token outcome
  obtain ⟨listings', kept'⟩ := keep_eq session' id token outcome'
  rw [kept, kept'] at same ⊢
  exact ⟨alike.settings, alike.script, alike.creates, alike.running, alike.finished, same⟩

theorem tally (alike : session.Alike exact replies session') : session.tally = session'.tally := by
  have requests := congrArg List.length alike.script.requests
  rw [List.length_map, List.length_map] at requests
  rw [Session.tally, Session.tally, alike.finished.length_eq, requests, alike.script.taken]

theorem drop (alike : session.Alike exact replies session') (id : String) :
    (session.drop id).Alike exact replies (session'.drop id) := by
  have found := alike.running? id
  have left := alike.without id
  rw [Session.drop.eq_def, Session.drop.eq_def]
  generalize session.running? id = running at found ⊢
  generalize session'.running? id = running' at found ⊢
  cases found with
  | none => exact left
  | @some running running' pair =>
      obtain ⟨_, _, task⟩ := running
      obtain ⟨_, _, task'⟩ := running'
      obtain ⟨-, -, tasks⟩ := pair
      dsimp only at tasks
      cases tasks with
      | plain _ => exact left
      | create key announced callers =>
          exact ⟨left.settings, left.script, callers.drop alike.creates, left.running, left.finished, left.listings⟩

theorem ask_eq (session : Session) (id : String) (calls : List KeyCursor.Call) :
    ∃ listings, (session.ask id calls).2 = { session with listings } := by
  rw [Session.ask.eq_def]
  split
  · exact ⟨session.listings, rfl⟩
  · exact ⟨_, rfl⟩

theorem ask_same (alike : session.Alike exact replies session') (holds : exact) (id : String)
    (calls : List KeyCursor.Call) :
    (session.ask id calls).1 = (session'.ask id calls).1 ∧
      (session.ask id calls).2.listings = (session'.ask id calls).2.listings := by
  have listed : session.listing? id = session'.listing? id := by
    rw [Session.listing?, Session.listing?, alike.listings holds]
  rw [Session.ask.eq_def, Session.ask.eq_def, listed]
  split
  · exact ⟨rfl, alike.listings holds⟩
  · rename_i token cursor _
    simp only [alike.script.isCancelled token, alike.listings holds, and_self]

theorem ask (alike : session.Alike exact replies session') (id : String) (calls : List KeyCursor.Call) :
    (session.ask id calls).2.Alike exact replies (session'.ask id calls).2 := by
  have same (holds : exact) := (alike.ask_same holds id calls).2
  obtain ⟨listings, asked⟩ := ask_eq session id calls
  obtain ⟨listings', asked'⟩ := ask_eq session' id calls
  rw [asked, asked'] at same ⊢
  exact ⟨alike.settings, alike.script, alike.creates, alike.running, alike.finished, same⟩

theorem apply (alike : session.Alike exact replies session') {command command' : Command}
    (commands : command.Alike replies command') :
    (session.apply command).Alike exact replies (session'.apply command') := by
  cases commands with
  | call id token veiled own =>
      refine ⟨alike.settings, alike.script.queued own, alike.creates, ?_, alike.finished, alike.listings⟩
      refine List.rel_append alike.running (.cons ⟨rfl, rfl, ?_⟩ .nil)
      rw [alike.settings]
      exact Task.start_alike veiled
  | reply pair =>
      exact ⟨alike.settings, alike.script.queued (.cons pair .nil), alike.creates, alike.running, alike.finished,
        alike.listings⟩
  | cancel token =>
      exact ⟨alike.settings, alike.script.cancel token, alike.creates, alike.running, alike.finished, alike.listings⟩
  | drop id => exact alike.drop id
  | cursor id calls => exact alike.ask id calls
  | look => exact alike

variable (sound : ∀ reply reply', replies reply reply' → reply.Alike (Veiled exact) reply')

include sound

theorem runTask (alike : session.Alike exact replies session') (token : Token) {task task' : Task}
    (tasks : task.Alike exact task') :
    (session.runTask token task).1.Alike exact (session'.runTask token task').1 ∧
      (session.runTask token task).2.Alike exact replies (session'.runTask token task').2 := by
  obtain ⟨tasks, tables, scripts⟩ := tasks.poll sound session.settings token alike.creates alike.script
  rw [alike.settings] at tasks tables scripts
  simp only [Session.runTask, alike.settings]
  exact ⟨tasks, rfl, scripts, tables, alike.running, alike.finished, alike.listings⟩

theorem poll (alike : session.Alike exact replies session') (id : String) :
    (session.poll id).Alike exact replies (session'.poll id) := by
  have found := alike.running? id
  rw [Session.poll.eq_def, Session.poll.eq_def]
  generalize session.running? id = running at found ⊢
  generalize session'.running? id = running' at found ⊢
  cases found with
  | none => exact alike
  | @some running running' pair =>
      obtain ⟨tasks, after⟩ := alike.runTask sound running.token pair.task
      dsimp only
      rw [← pair.token]
      generalize session.runTask running.token running.task = first at tasks after ⊢
      generalize session'.runTask running.token running'.task = second at tasks after ⊢
      obtain ⟨task, left⟩ := first
      obtain ⟨task', left'⟩ := second
      dsimp only at tasks after ⊢
      have outcomes := tasks.outcome?
      generalize task.outcome? = outcome at outcomes ⊢
      generalize task'.outcome? = outcome' at outcomes ⊢
      cases outcomes with
      | none => exact after.withTask id tasks
      | @some outcome outcome' agrees =>
          have kept := (after.without id).keep id running.token agrees
          refine ⟨kept.settings, kept.script, kept.creates, kept.running, ?_, kept.listings⟩
          exact List.rel_append kept.finished (.cons ⟨rfl, rfl, agrees⟩ .nil)

theorem round (alike : session.Alike exact replies session') : session.round.Alike exact replies session'.round := by
  have ids : session.running.map (·.id) = session'.running.map (·.id) :=
    map_eq_of_related alike.running fun _ _ pair => pair.id
  rw [Session.round, Session.round, ids]
  exact each_related (fun id _ _ pair => pair.poll sound id) _ alike

theorem settle (alike : session.Alike exact replies session') :
    session.settle.Alike exact replies session'.settle := by
  rw [Session.settle, Session.settle, alike.running.length_eq]
  refine settle_related (fun _ _ pair => pair.round sound) (fun _ _ pair => pair.tally) _ ?_
  exact ⟨alike.settings, alike.script.cleared, alike.creates, alike.running, .nil, alike.listings⟩

theorem run (alike : session.Alike exact replies session') {command command' : Command}
    (commands : command.Alike replies command') :
    (session.run command).Alike exact replies (session'.run command') :=
  (alike.apply commands).settle sound

end Session.Alike

end SecretStore.CredHub
