import SecretStore.Proofs.CredHub.Accounts
import SecretStore.Proofs.CredHub.Discipline

namespace SecretStore.Http

def Deed.IsIdle (deed : Deed) : Prop := ∀ account : Account, account.record deed = account

theorem isIdle_silent : Deed.silent.IsIdle := fun _ => rfl

def Account.IsFair (account : Account) : Prop := ∀ response ∈ account.heard, response.IsFair

theorem Account.IsFair.record {account : Account} {deed : Deed} (fair : account.IsFair) (heard : deed.IsFair) :
    (account.record deed).IsFair := by
  cases deed with
  | logs line =>
      simp only [Account.record]
      split <;> exact fair
  | receives request response =>
      intro other member
      rcases List.mem_append.1 member with old | new
      · exact fair other old
      · rw [List.mem_singleton.1 new]
        exact heard
  | _ => exact fair

end SecretStore.Http

namespace SecretStore.CredHub

open Http

/-! ## Results -/

def ownResult? : Flight.Point CreateWork (Except Failure Unit) → Option (Except Failure Unit)
  | .working _ work => work.result?
  | .publishing _ result | .leaving _ result | .closing _ result | .returned result false => some result
  | .joining | .following _ | .returned _ true | .quitting _ | .hangingUp _ | .gone => none

def IsTorn : Flight.Point CreateWork (Except Failure Unit) → Prop
  | .quitting _ | .hangingUp _ | .gone => True
  | _ => False

theorem isIdle_createLine (settings : Settings) (key : String) : (Deed.logs (createLine settings key)).IsIdle :=
  fun _ => rfl

namespace Task

def result? : Task → Option (Except Failure Unit)
  | .plain program => program.result?.map (·.map fun _ => ())
  | .create _ _ caller => ownResult? caller.point

def Torn : Task → Prop
  | .plain _ => False
  | .create _ _ caller => IsTorn caller.point

variable {settings : Settings} {task after : Task} {creates left : Creates} {deed : Deed}
  {result : Except Failure Unit}

theorem Step.keeps (step : Step settings task creates deed after left) (found : task.result? = some result) :
    after.result? = some result ∧ deed.IsIdle := by
  cases step with
  | @plain program next deed creates step =>
      rw [Task.result?, step.goesOn] at found
      cases found
  | announce key caller creates => exact ⟨found, isIdle_createLine settings key⟩
  | work key creates point step =>
      rw [Task.result?, point] at found
      cases step.goesOn.symm.trans found
  | finish key creates point =>
      rw [Task.result?, point] at found
      exact ⟨found, isIdle_silent⟩
  | act key caller creates =>
      refine ⟨?_, isIdle_silent⟩
      obtain ⟨name, start, point⟩ := caller
      cases point with
      | joining => cases found
      | following flight => cases found
      | quitting flight => cases found
      | hangingUp flight => cases found
      | gone => cases found
      | _ => exact found

theorem Step.torn (step : Step settings task creates deed after left) (torn : task.Torn) :
    after.Torn ∧ deed.IsIdle := by
  cases step with
  | plain creates step => exact torn.elim
  | announce key caller creates => exact ⟨torn, isIdle_createLine settings key⟩
  | work key creates point step =>
      rw [Torn, point] at torn
      exact torn.elim
  | finish key creates point =>
      rw [Torn, point] at torn
      exact torn.elim
  | act key caller creates =>
      refine ⟨?_, isIdle_silent⟩
      obtain ⟨name, start, point⟩ := caller
      cases point with
      | quitting flight => trivial
      | hangingUp flight => trivial
      | gone => trivial
      | _ => exact torn.elim

theorem Step.not_torn (step : Step settings task creates deed after left) (whole : ¬ task.Torn) : ¬ after.Torn := by
  cases step with
  | plain creates step => exact id
  | announce key caller creates => exact whole
  | work key creates point step => exact id
  | finish key creates point => exact id
  | act key caller creates =>
      obtain ⟨name, start, point⟩ := caller
      cases point with
      | joining =>
          simp only [Torn, Flight.Caller.act]
          split <;> exact id
      | following flight =>
          simp only [Torn, Flight.Caller.act]
          split <;> exact id
      | quitting flight => exact absurd trivial whole
      | hangingUp flight => exact absurd trivial whole
      | gone => exact absurd trivial whole
      | _ => exact id

theorem Abandons.cases_torn (abandons : Abandons task after) : after = task ∨ after.Torn := by
  cases abandons with
  | plain program => exact .inl rfl
  | @create caller key announced rest =>
      obtain ⟨name, start, point⟩ := caller
      cases point with
      | joining => exact .inr trivial
      | working flight work => exact .inr trivial
      | following flight => exact .inr trivial
      | _ => exact .inl rfl

theorem Torn.result? (torn : task.Torn) : task.result? = none := by
  cases task with
  | plain program => exact torn.elim
  | create key announced caller =>
      obtain ⟨name, start, point⟩ := caller
      cases point with
      | quitting flight => rfl
      | hangingUp flight => rfl
      | gone => rfl
      | _ => exact torn.elim

end Task

/-! ## Tasks that give account -/

def Tells (account : Account) : Flight.Point CreateWork (Except Failure Unit) → Prop
  | .joining | .following _ | .returned _ true => account.IsQuiet
  | .working _ work => work.Reports Fits account
  | .publishing _ result | .leaving _ result | .closing _ result | .returned result false => Fits account result
  | .quitting _ | .hangingUp _ | .gone => True

def Task.Reports (account : Account) : Task → Prop
  | .plain program => Program.Reports Fits program account
  | .create _ _ caller =>
    (∀ account : Account, account.IsQuiet → caller.work.Reports Fits account) ∧ Tells account caller.point

namespace Task.Reports

variable {account : Account} {task after : Task} {creates left : Creates} {deed : Deed}

theorem start (settings : Settings) (call : Call) : (Task.start settings call).Reports .empty := by
  cases call with
  | create key value => exact ⟨fun account => reports_createWork settings key value, Account.isQuiet_empty⟩
  | _ => exact reports_program settings _

theorem step (reports : task.Reports account) (step : Task.Step settings task creates deed after left) :
    after.Reports (account.record deed) := by
  cases step with
  | plain creates step => exact Program.Reports.step reports step
  | announce key caller creates => exact reports
  | work key creates point step =>
      obtain ⟨fresh, tells⟩ := reports
      rw [point] at tells
      exact ⟨fresh, Program.Reports.step tells step⟩
  | finish key creates point =>
      obtain ⟨fresh, tells⟩ := reports
      rw [point] at tells
      exact ⟨fresh, tells⟩
  | act key caller creates =>
      obtain ⟨fresh, tells⟩ := reports
      obtain ⟨name, start, point⟩ := caller
      cases point with
      | joining =>
          simp only [Flight.Caller.act]
          split
          · exact ⟨fresh, fresh _ tells⟩
          · exact ⟨fresh, tells⟩
      | following flight =>
          simp only [Flight.Caller.act]
          split <;> exact ⟨fresh, tells⟩
      | _ => exact ⟨fresh, tells⟩

theorem abandon (reports : task.Reports account) (abandons : task.Abandons after) : after.Reports account := by
  cases abandons with
  | plain program => exact reports
  | @create caller key announced rest =>
      obtain ⟨fresh, tells⟩ := reports
      obtain ⟨name, start, point⟩ := caller
      cases point with
      | joining => exact ⟨fresh, trivial⟩
      | working flight work => exact ⟨fresh, trivial⟩
      | following flight => exact ⟨fresh, trivial⟩
      | _ => exact ⟨fresh, tells⟩

theorem fits_of_program {α : Type} {program : Program (Except Failure α)} {result : Except Failure α}
    (reports : program.Reports Fits account) (found : program.result? = some result) : Fits account result := by
  cases program with
  | done value =>
      cases found
      exact reports
  | _ => cases found

theorem fits (reports : task.Reports account) {result : Except Failure Unit} (found : task.result? = some result) :
    Fits account result := by
  cases task with
  | plain program =>
      obtain ⟨outcome, ended, rfl⟩ := Option.map_eq_some_iff.1 found
      exact (fits_of_program reports ended).map _
  | create key announced caller =>
      obtain ⟨fresh, tells⟩ := reports
      obtain ⟨name, start, point⟩ := caller
      cases point with
      | working flight work => exact fits_of_program tells found
      | publishing flight value =>
          cases found
          exact tells
      | leaving flight value =>
          cases found
          exact tells
      | closing flight value =>
          cases found
          exact tells
      | returned value shared =>
          cases shared with
          | true => cases found
          | false =>
              cases found
              exact tells
      | _ => cases found

theorem quiet (reports : task.Reports account) (unfound : task.result? = none) (whole : ¬ task.Torn) :
    account.IsQuiet := by
  cases task with
  | plain program => exact Program.Reports.quiet reports (Option.map_eq_none_iff.1 unfound)
  | create key announced caller =>
      obtain ⟨fresh, tells⟩ := reports
      obtain ⟨name, start, point⟩ := caller
      cases point with
      | joining => exact tells
      | following flight => exact tells
      | working flight work => exact Program.Reports.quiet tells unfound
      | returned value shared =>
          cases shared with
          | true => exact tells
          | false => cases unfound
      | quitting flight => exact absurd trivial whole
      | hangingUp flight => exact absurd trivial whole
      | gone => exact absurd trivial whole
      | _ => cases unfound

end Task.Reports

/-! ## Squared accounts -/

structure Task.Squares (account : Account) (result : Option (Except Failure Unit)) (task : Task) : Prop where
  fair : account.IsFair
  reports : task.Reports account
  pending : result = none → account.IsQuiet ∧ task.result? = none
  settled : ∀ {found}, result = some found → Fits account found ∧ (task.result? = some found ∨ task.Torn)

namespace Task.Squares

variable {account : Account} {result : Option (Except Failure Unit)} {task after : Task} {settings : Settings}
  {creates left : Creates} {deed : Deed}

theorem start (settings : Settings) (call : Call) :
    (Task.start settings call).Squares .empty (Task.start settings call).result? where
  fair _ member := by cases member
  reports := .start settings call
  pending unfound := ⟨rfl, unfound⟩
  settled found := ⟨(Reports.start settings call).fits found, .inl found⟩

theorem stay (squares : task.Squares account result) : result.or task.result? = result := by
  cases result with
  | none => exact (squares.pending rfl).2
  | some found => rfl

theorem step (squares : task.Squares account result) (step : Task.Step settings task creates deed after left)
    (fair : deed.IsFair) : after.Squares (account.record deed) (result.or after.result?) := by
  have reports := squares.reports.step step
  refine ⟨squares.fair.record fair, reports, fun unfound => ?_, fun found => ?_⟩
  -- Before a result, a task that has not been torn down has warned of nothing, and a torn one does nothing more.
  · obtain ⟨rfl, open'⟩ := Option.or_eq_none_iff.1 unfound
    refine ⟨?_, open'⟩
    by_cases torn : task.Torn
    · rw [(step.torn torn).2]
      exact (squares.pending rfl).1
    · exact reports.quiet open' (step.not_torn torn)
  -- A result comes with this step, or it stands already and the step is not on record.
  · cases result with
    | none => exact ⟨reports.fits found, .inl found⟩
    | some same =>
        cases found
        obtain ⟨fits, here | torn⟩ := squares.settled rfl
        · obtain ⟨here, idle⟩ := step.keeps here
          exact ⟨(idle account).symm ▸ fits, .inl here⟩
        · obtain ⟨torn, idle⟩ := step.torn torn
          exact ⟨(idle account).symm ▸ fits, .inr torn⟩

theorem abandon (squares : task.Squares account result) (abandons : task.Abandons after) :
    after.Squares account (result.or after.result?) := by
  rcases abandons.cases_torn with rfl | torn
  · rw [squares.stay]
    exact squares
  · rw [torn.result?, Option.or_none]
    exact ⟨squares.fair, squares.reports.abandon abandons, fun unfound => ⟨(squares.pending unfound).1, torn.result?⟩,
      fun found => ⟨(squares.settled found).1, .inr torn⟩⟩

theorem known (squares : task.Squares account result) {found : Except Failure Unit}
    (here : task.result? = some found) : result = some found := by
  cases result with
  | none => cases (squares.pending rfl).2.symm.trans here
  | some other =>
      rcases (squares.settled rfl).2 with same | torn
      · exact same.symm.trans here
      · cases torn.result?.symm.trans here

end Task.Squares

/-! ## What a course keeps -/

variable {ι : Type} {settings : Settings}

def Service.result? (service : Service ι) (id : ι) : Option (Except Failure Unit) :=
  (service.visits id).bind (·.task.result?)

def resultOf? (past : List (Moment ι)) (service : Service ι) (id : ι) : Option (Except Failure Unit) :=
  (servicesOf past service).findSome? (·.result? id)

theorem resultOf?_append (past : List (Moment ι)) (service after : Service ι) (deed : Option (ι × Deed)) (id : ι) :
    resultOf? (past ++ [⟨service, deed⟩]) after id = (resultOf? past service id).or (after.result? id) := by
  rw [resultOf?, servicesOf, List.map_append, List.findSome?_append]
  simp [resultOf?, servicesOf]

variable [DecidableEq ι]

def Moment.deeds (moment : Moment ι) (id : ι) : List Deed :=
  match moment.deed with
  | some (other, deed) => if other = id then [deed] else []
  | none => []

theorem Moment.deeds_own (service : Service ι) (id : ι) (deed : Deed) :
    (Moment.mk service (some (id, deed))).deeds id = [deed] :=
  if_pos rfl

theorem Moment.deeds_other (service : Service ι) {id other : ι} (different : other ≠ id) (deed : Deed) :
    (Moment.mk service (some (id, deed))).deeds other = [] :=
  if_neg different.symm

def accountOf (past : List (Moment ι)) (id : ι) : Account := .ofDeeds (past.flatMap (·.deeds id))

theorem accountOf_append (past : List (Moment ι)) (moment : Moment ι) (id : ι) :
    accountOf (past ++ [moment]) id = .ofDeeds (past.flatMap (·.deeds id) ++ moment.deeds id) := by
  simp [accountOf]

variable {past : List (Moment ι)} {service after : Service ι} {deed : Option (ι × Deed)}

theorem received_of_heard {id : ι} {response : Response} (heard : response ∈ (accountOf past id).heard) :
    ∃ moment ∈ past, ∃ request, moment.deed = some (id, .receives request response) := by
  obtain ⟨request, received⟩ := Account.received_of_heard heard
  obtain ⟨moment, member, did⟩ := List.mem_flatMap.1 received
  refine ⟨moment, member, request, ?_⟩
  rw [Moment.deeds] at did
  split at did
  · split at did
    · rename_i other deed moved same
      rw [moved, same, List.mem_singleton.1 did]
    · cases did
  · cases did

structure Squared (past : List (Moment ι)) (service : Service ι) : Prop where
  vacant : ∀ id, service.visits id = none → accountOf past id = .empty ∧ resultOf? past service id = none
  squares : ∀ id visit, service.visits id = some visit →
    visit.task.Squares (accountOf past id) (resultOf? past service id)

theorem Squared.place (squared : Squared past service) {id : ι} {visit : Visit} {creates : Creates}
    (idle : ∀ other ≠ id, (Moment.mk service deed).deeds other = [])
    (squares : visit.task.Squares (accountOf (past ++ [⟨service, deed⟩]) id)
      ((resultOf? past service id).or visit.task.result?)) :
    Squared (past ++ [⟨service, deed⟩]) (service.place id visit creates) where
  vacant other free := by
    rw [accountOf_append, resultOf?_append, Service.result?, free]
    rw [Service.place_visits] at free
    split at free
    · cases free
    · rename_i different
      obtain ⟨silent, unfound⟩ := squared.vacant other free
      rw [idle other different, List.append_nil, unfound]
      exact ⟨silent, rfl⟩
  squares other visit' here := by
    rw [resultOf?_append, Service.result?, here, Option.bind_some]
    rw [Service.place_visits] at here
    split at here
    · rename_i same
      cases here
      subst same
      exact squares
    · rename_i different
      have kept := squared.squares other visit' here
      rw [accountOf_append, idle other different, List.append_nil, kept.stay]
      exact kept

theorem Squared.goes (squared : Squared past service) (goes : service.Goes settings deed after) :
    Squared (past ++ [⟨service, deed⟩]) after := by
  have nobody (id : ι) : accountOf (past ++ [⟨service, none⟩]) id = accountOf past id := by
    rw [accountOf_append]
    exact congrArg Account.ofDeeds (List.append_nil _)
  cases goes with
  | @begins id call free =>
      refine squared.place (fun other _ => rfl) ?_
      obtain ⟨silent, unfound⟩ := squared.vacant id free
      rw [nobody, silent, unfound]
      exact .start settings call
  | @does id deed after fair does =>
      obtain ⟨visit, task, creates, here, -, step, rfl⟩ := does
      refine squared.place (fun other different => Moment.deeds_other service different deed) ?_
      rw [accountOf_append, Moment.deeds_own, Account.ofDeeds_snoc]
      exact (squared.squares id visit here).step step fair
  | @drops id after drops =>
      obtain ⟨visit, task, here, abandons, rfl⟩ := drops
      refine squared.place (fun other _ => rfl) ?_
      rw [nobody]
      exact (squared.squares id visit here).abandon abandons

namespace Course

theorem squared (course : Course settings past service) : Squared past service := by
  induction course with
  | start => exact ⟨fun id free => ⟨rfl, rfl⟩, fun id visit here => by cases here⟩
  | step course goes ih => exact ih.goes goes

theorem result_lasts (course : Course settings past service) {then' : Service ι} {id : ι}
    {result : Except Failure Unit} (member : then' ∈ servicesOf past service) (found : then'.result? id = some result) :
    resultOf? past service id = some result := by
  induction course with
  | start =>
      obtain rfl := List.mem_singleton.1 member
      cases found
  | @step past service after deed course goes ih =>
      have whole : servicesOf (past ++ [⟨service, deed⟩]) after = servicesOf past service ++ [after] := by
        simp [servicesOf]
      rw [whole, List.mem_append, List.mem_singleton] at member
      rcases member with old | rfl
      · rw [resultOf?_append, ih old]
        rfl
      · obtain ⟨visit, here, found⟩ := Option.bind_eq_some_iff.1 found
        exact ((course.step goes).squared.squares id visit here).known found

end Course

/-! ## What calls are told -/

/-- A call has its own result, or that of the creation it has joined. -/
inductive ComesTo (past : List (Moment ι)) (service : Service ι) (id : ι) : Call → Outcome → Prop where
  | alone {call : Call} {outcome : Outcome} : resultOf? past service id = some (outcome.map fun _ => ()) →
      ComesTo past service id call outcome
  | joined {key : String} {value : Bytes} {leader : ι} {result : Except Failure Unit} :
      resultOf? past service id = none → leader ≠ id → resultOf? past service leader = some result →
      ComesTo past service id (.create key value) (createOutcome key true result)

namespace Course

theorem fits (course : Course settings past service) {id : ι} {result : Except Failure Unit}
    (found : resultOf? past service id = some result) :
    (accountOf past id).IsFair ∧ Fits (accountOf past id) result := by
  cases here : service.visits id with
  | none => cases (course.squared.vacant id here).2.symm.trans found
  | some visit =>
      have squares := course.squared.squares id visit here
      exact ⟨squares.fair, (squares.settled found).1⟩

theorem quiet (course : Course settings past service) {id : ι} (unfound : resultOf? past service id = none) :
    (accountOf past id).IsQuiet := by
  cases here : service.visits id with
  | none =>
      rw [(course.squared.vacant id here).1]
      exact Account.isQuiet_empty
  | some visit => exact ((course.squared.squares id visit here).pending unfound).1

theorem result_of_joined (course : Course settings past service) {id : ι} {visit : Visit} {key : String}
    {announced : Bool} {caller : Creator} {result : Except Failure Unit} (here : service.visits id = some visit)
    (task : visit.task = .create key announced caller) (point : caller.point = .returned result true) :
    resultOf? past service id = none ∧ ∃ leader ≠ id, resultOf? past service leader = some result := by
  constructor
  · cases found : resultOf? past service id with
    | none => rfl
    | some other =>
        rcases ((course.squared.squares id visit here).settled found).2 with own | torn
        · rw [task, Task.result?, point] at own
          cases own
        · rw [task, Task.Torn, point] at torn
          exact torn.elim
  · obtain ⟨leader, foreign, flight, -, then', member, publisher, there, publishes⟩ :=
      course.joined (Service.crowd_creator here task) point
    obtain ⟨visit', key', announced', found, leads⟩ := exists_visit there
    refine ⟨leader, foreign, course.result_lasts member ?_⟩
    rw [Service.result?, found, Option.bind_some, leads, Task.result?, publishes]
    rfl

theorem comesTo (course : Course settings past service) {id : ι} {visit : Visit} {outcome : Outcome}
    (here : service.visits id = some visit) (told : visit.task.outcome? = some outcome) :
    ComesTo past service id visit.call outcome := by
  have squares := course.squared.squares id visit here
  cases task : visit.task with
  | plain program =>
      refine .alone (squares.known ?_)
      rw [task] at told ⊢
      rw [Task.result?, show program.result? = some outcome from told]
      rfl
  | create key announced caller =>
      obtain ⟨result, shared, point, rfl⟩ := returned_of_outcome task told
      cases shared with
      | false =>
          refine .alone (squares.known ?_)
          rw [task, Task.result?, point]
          cases result <;> rfl
      | true =>
          obtain ⟨unfound, leader, foreign, found⟩ := course.result_of_joined here task point
          have speaks := course.spoken.speaks id visit here
          rw [task] at speaks
          obtain ⟨⟨value, called, -, -⟩, -⟩ := speaks
          rw [called]
          exact .joined unfound foreign found

end Course

end SecretStore.CredHub
