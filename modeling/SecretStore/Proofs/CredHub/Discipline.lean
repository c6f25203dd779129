import SecretStore.Proofs.CredHub.Conduct
import SecretStore.Proofs.CredHub.Course
import SecretStore.Proofs.CredHub.Value

namespace SecretStore.CredHub

open Http

/-! ## Orderly requests -/

/-- The key has no version: the server does not know it, or lists none. -/
def Clears (response : Response) : Prop :=
  response.isNotFound = true ∨
    response.isSuccess = true ∧ ∃ octets, takeChunks [] response.body = .read (.ok octets) ∧
      Action.decode versionsReader octets = .ok []

inductive Exchange (request : Request) : List Deed → Prop where
  | unsaid : Exchange request []
  | refused (failure : Failure) : Exchange request [.fails request failure]
  | asked : Exchange request [.sends request]
  | lost (failure : Failure) : Exchange request [.sends request, .fails request failure]
  | answered (response : Response) : Exchange request [.sends request, .receives request response]

inductive Orderly (look write : Request) : List Deed → Prop where
  | looking {deeds : List Deed} : Exchange look deeds → Orderly look write deeds
  | writing {found : Response} {deeds : List Deed} : Clears found → Exchange write deeds →
      Orderly look write (.sends look :: .receives look found :: deeds)

inductive Stage where
  | fresh
  | heard (found : Response)
  | wrote (found written : Response)
  | ended

def discipline (look write : Request) : Contract Stage where
  permits
    | .fresh, request => request = look
    | .heard found, request => Clears found ∧ request = write
    | _, _ => False
  answers _ response := response.IsFair
  learn
    | .fresh, _, response => .heard response
    | .heard found, _, response => .wrote found response
    | stage, _, _ => stage

def Ends : Stage → Except Failure Unit → Prop
  | .wrote _ written, .ok () => written.isSuccess = true
  | _, .ok () => False
  | _, .error failure => ∀ name, failure ≠ .notFound name

namespace Stage

def Tells (look write : Request) : Stage → List Deed → Prop
  | .fresh, deeds => deeds = []
  | .heard found, deeds => deeds = [.sends look, .receives look found]
  | .wrote found written, deeds => Clears found ∧
      deeds = [.sends look, .receives look found, .sends write, .receives write written]
  | .ended, deeds => Orderly look write deeds ∧ ∃ before request failure, deeds = before ++ [.fails request failure]

variable {look write request : Request} {stage : Stage} {deeds : List Deed}

theorem Tells.orderly (tells : stage.Tells look write deeds) : Orderly look write deeds := by
  cases stage with
  | fresh =>
      cases tells
      exact .looking .unsaid
  | heard found =>
      cases tells
      exact .looking (.answered found)
  | wrote found written =>
      obtain ⟨clears, rfl⟩ := tells
      exact .writing clears (.answered written)
  | ended => exact tells.1

theorem Tells.answered (tells : stage.Tells look write deeds) : deeds.getLast? ≠ some (.sends request) := by
  cases stage with
  | fresh =>
      cases tells
      simp
  | heard found =>
      cases tells
      simp
  | wrote found written =>
      obtain ⟨clears, rfl⟩ := tells
      simp
  | ended =>
      obtain ⟨-, before, asked, failure, rfl⟩ := tells
      simp

theorem Tells.sends (tells : stage.Tells look write deeds)
    (permitted : (discipline look write).permits stage request) :
    Orderly look write (deeds ++ [.sends request]) := by
  cases stage with
  | fresh =>
      cases tells
      cases permitted
      exact .looking .asked
  | heard found =>
      cases tells
      obtain ⟨clears, rfl⟩ := permitted
      exact .writing clears .asked
  | _ => exact permitted.elim

theorem Tells.receives (response : Response) (tells : stage.Tells look write deeds)
    (permitted : (discipline look write).permits stage request) :
    ((discipline look write).learn stage request response).Tells look write
      (deeds ++ [.sends request] ++ [.receives request response]) := by
  cases stage with
  | fresh =>
      cases tells
      cases permitted
      rfl
  | heard found =>
      cases tells
      obtain ⟨clears, rfl⟩ := permitted
      exact ⟨clears, rfl⟩
  | _ => exact permitted.elim

theorem Tells.refused (failure : Failure) (tells : stage.Tells look write deeds)
    (permitted : (discipline look write).permits stage request) :
    Stage.ended.Tells look write (deeds ++ [.fails request failure]) := by
  refine ⟨?_, _, _, _, rfl⟩
  cases stage with
  | fresh =>
      cases tells
      cases permitted
      exact .looking (.refused failure)
  | heard found =>
      cases tells
      obtain ⟨clears, rfl⟩ := permitted
      exact .writing clears (.refused failure)
  | _ => exact permitted.elim

theorem Tells.lost (failure : Failure) (tells : stage.Tells look write deeds)
    (permitted : (discipline look write).permits stage request) :
    Stage.ended.Tells look write (deeds ++ [.sends request] ++ [.fails request failure]) := by
  refine ⟨?_, _, _, _, rfl⟩
  cases stage with
  | fresh =>
      cases tells
      cases permitted
      exact .looking (.lost failure)
  | heard found =>
      cases tells
      obtain ⟨clears, rfl⟩ := permitted
      exact .writing clears (.lost failure)
  | _ => exact permitted.elim

end Stage

/-! ## What a creation's work asks for -/

variable {settings : Settings} {key : String} {value : Bytes}

def lookRequest (settings : Settings) (key : String) : Request := getRequest (settings.nameOf key)

def writeRequest (settings : Settings) (key : String) (value : Bytes) : Request :=
  putRequest (settings.nameOf key) (encodeValue value settings.forceBase64)

def errand (settings : Settings) (key : String) (value : Bytes) : Contract Stage :=
  discipline (lookRequest settings key) (writeRequest settings key value)

theorem readOn_fair {cancelled : Bool} {taken : Bytes} {body : List Chunk} {failure : Failure}
    (fair : ∀ failure, .failure failure ∈ body → failure.isTransport = true)
    (reading : readOn cancelled taken body = .read (.error failure)) : failure.isTransport = true := by
  cases cancelled with
  | true =>
      cases reading
      rfl
  | false =>
      change takeChunks taken body = _ at reading
      fun_induction takeChunks taken body with
      | case1 => cases reading
      | case2 taken octets rest ih => exact ih (fun other member => fair other (by simp [member])) reading
      | case3 taken other rest =>
          cases reading
          exact fair failure (by simp)
      | case4 => cases reading

theorem decode_error {α : Type} {reader : Json.Reader α} {octets : Bytes} {failure : Failure}
    (failed : Action.decode reader octets = .error failure) :
    ∃ cause, failure = .protocol (.malformedJson cause) := by
  rw [Action.decode] at failed
  cases read : reader.whole octets with
  | error cause =>
      rw [read] at failed
      cases failed
      exact ⟨cause, rfl⟩
  | ok value =>
      rw [read] at failed
      cases failed

theorem foundIn_error {octets : Bytes} {failure : Failure} (failed : foundIn key octets = .error failure) :
    (∃ name, failure = .notFound name ∧ Action.decode versionsReader octets = .ok []) ∨
      ∀ name, failure ≠ .notFound name := by
  rw [foundIn] at failed
  cases decoded : Action.decode versionsReader octets with
  | error fault =>
      obtain ⟨cause, rfl⟩ := decode_error decoded
      rw [decoded] at failed
      cases failed
      exact Or.inr fun name same => by cases same
  | ok texts =>
      rw [decoded] at failed
      change soleVersion key texts = _ at failed
      match texts, failed with
      | [], failed =>
          cases failed
          exact Or.inl ⟨key, rfl, rfl⟩
      | [text], failed =>
          obtain ⟨cause, rfl⟩ := decodeValue_error failed
          exact Or.inr fun name same => by cases same
      | first :: second :: more, failed =>
          cases failed
          exact Or.inr fun name same => by cases same

theorem ends_failing {stage : Stage} {failure : Failure} (outside : failure.isTransport = true) :
    Ends stage (.error failure) := by
  have other : ∀ name, failure ≠ .notFound name := by
    rintro name rfl
    cases outside
  cases stage <;> exact other

theorem meets_write {found : Response} (clears : Clears found) :
    (put settings key value).run.Meets (errand settings key value) Ends (.heard found) := by
  refine meets_put ⟨clears, rfl⟩ ?_ ?_ ?_
  · exact fun failure later outside => ends_failing outside
  · intro later status reason body
    cases later <;> exact fun name same => by cases same
  · exact fun response fair success => success

theorem createWork_orderly (settings : Settings) (key : String) (value : Bytes) :
    (createWork settings key value).Meets (errand settings key value) Ends .fresh := by
  refine Program.Meets.bind (meets_get rfl ?failing ?remote ?missing ?found)
  case failing =>
      intro failure later outside
      cases failure with
      | cancelled => exact ends_failing rfl
      | transport cause => exact ends_failing rfl
      | _ => cases outside
  case remote =>
      intro later status reason body
      cases later <;> exact fun name same => by cases same
  case missing =>
      intro response fair absent
      exact meets_write (Or.inl absent)
  case found =>
      intro response cancelled result fair success reading
      cases result with
      | error failure =>
          have outside := readOn_fair fair reading
          cases failure with
          | cancelled => exact ends_failing rfl
          | transport cause => exact ends_failing rfl
          | _ => cases outside
      | ok octets =>
          have taken : takeChunks [] response.body = .read (.ok octets) := by
            cases cancelled with
            | true => cases reading
            | false => exact reading
          generalize outcome : (Except.ok octets >>= foundIn key) = found
          have outcome : foundIn key octets = found := outcome
          cases found with
          | ok old => exact fun name same => by cases same
          | error failure =>
              rcases foundIn_error outcome with ⟨name, rfl, none⟩ | known
              · exact meets_write (Or.inr ⟨success, octets, taken, none⟩)
              · cases failure with
                | notFound name => exact absurd rfl (known name)
                | _ => exact known

/-! ## Work under way -/

inductive Working (settings : Settings) (key : String) (value : Bytes) : List Deed → CreateWork → Prop where
  | unasked {stage : Stage} {deeds : List Deed} {work : CreateWork} : work.IsUnasked →
      work.Meets (errand settings key value) Ends stage →
      stage.Tells (lookRequest settings key) (writeRequest settings key value) deeds →
      Working settings key value deeds work
  | awaits {stage : Stage} {deeds : List Deed} {request : Request}
      {next : Except Failure Response → CreateWork} : (∀ result, (next result).IsUnasked) →
      (Program.await request next).Meets (errand settings key value) Ends stage →
      stage.Tells (lookRequest settings key) (writeRequest settings key value) deeds →
      Working settings key value (deeds ++ [.sends request]) (.await request next)

namespace Working

variable {deeds : List Deed} {work next : CreateWork} {deed : Deed}

theorem step (working : Working settings key value deeds work) (step : work.Step deed next)
    (fair : deed.IsFair) : Working settings key value (deeds ++ deed.spoken) next := by
  cases working with
  | unasked unasked meets tells =>
      cases step with
      | log line next =>
          rw [show (Deed.logs line).spoken = [] from rfl, List.append_nil]
          exact .unasked unasked meets tells
      | send request next => exact .awaits unasked meets tells
      | refuse request next outside =>
          exact .unasked (unasked _) (meets.2.1 _ .ended outside) (tells.refused _ meets.1)
      | receive request next response => exact unasked.elim
      | lose request next outside => exact unasked.elim
      | read next reading =>
          rw [show (Deed.reads _).spoken = [] from rfl, List.append_nil]
          exact .unasked (unasked _) (meets _ _ reading) tells
      | wait next waiting =>
          rw [show Deed.silent.spoken = [] from rfl, List.append_nil]
          exact .unasked unasked (meets.quiet (.wait next waiting) trivial) tells
  | awaits unasked meets tells =>
      cases step with
      | receive request next response =>
          exact .unasked (unasked _) (meets.2.2 response fair) (tells.receives response meets.1)
      | lose request next outside =>
          exact .unasked (unasked _) (meets.2.1 _ .ended outside) (tells.lost _ meets.1)

theorem orderly (working : Working settings key value deeds work) :
    Orderly (lookRequest settings key) (writeRequest settings key value) deeds := by
  cases working with
  | unasked unasked meets tells => exact tells.orderly
  | awaits unasked meets tells => exact tells.sends meets.1

theorem done {result : Except Failure Unit} (working : Working settings key value deeds (.done result)) :
    ∃ stage, Ends stage result ∧
      stage.Tells (lookRequest settings key) (writeRequest settings key value) deeds := by
  cases working with
  | unasked unasked meets tells => exact ⟨_, meets, tells⟩

end Working

/-! ## Creations among the calls -/

def Speaks (settings : Settings) (key : String) (value : Bytes) (dropped : Bool) (deeds : List Deed) :
    Flight.Point CreateWork (Except Failure Unit) → Prop
  | .joining | .following _ | .returned _ true => deeds = []
  | .working _ work => Working settings key value deeds work
  | .publishing _ result | .leaving _ result | .closing _ result | .returned result false =>
    ∃ stage, Ends stage result ∧
      stage.Tells (lookRequest settings key) (writeRequest settings key value) deeds
  | .quitting _ | .hangingUp _ | .gone => dropped = true ∧
      Orderly (lookRequest settings key) (writeRequest settings key value) deeds

structure Speaker (settings : Settings) (call : Call) (dropped : Bool) (deeds : List Deed) (key : String)
    (caller : Creator) : Prop where
  called : ∃ value, call = .create key value ∧ caller.work = createWork settings key value ∧
    Speaks settings key value dropped deeds caller.point
  name : caller.key = settings.nameOf key

def Task.Speaks (settings : Settings) (call : Call) (dropped : Bool) (deeds : List Deed) : Task → Prop
  | .plain _ => ∀ key value, call ≠ .create key value
  | .create key _ caller => Speaker settings call dropped deeds key caller

theorem Speaks.act {caller : Creator} {creates : Creates} {dropped : Bool} {deeds : List Deed}
    (speaks : Speaks settings key value dropped deeds caller.point)
    (work : caller.work = createWork settings key value) :
    Speaks settings key value dropped deeds (caller.act creates).1.point := by
  obtain ⟨name, start, point⟩ := caller
  subst work
  cases point with
  | joining =>
      simp only [Flight.Caller.act]
      cases entry : creates.flight? name with
      | none =>
          simp only [Flight.Table.join, entry]
          exact .unasked (isUnasked_createWork settings key value) (createWork_orderly settings key value)
            speaks
      | some flight =>
          simp only [Flight.Table.join, entry]
          exact speaks
  | following flight =>
      simp only [Flight.Caller.act]
      cases creates.look flight <;> exact speaks
  | _ => exact speaks

theorem Speaks.abandon {caller : Creator} {dropped : Bool} {deeds : List Deed}
    (speaks : Speaks settings key value dropped deeds caller.point) (rest : caller.point.AtRest) :
    Speaks settings key value true deeds caller.abandon.point := by
  obtain ⟨name, start, point⟩ := caller
  cases point with
  | joining =>
      cases speaks
      exact ⟨rfl, .looking .unsaid⟩
  | following flight =>
      cases speaks
      exact ⟨rfl, .looking .unsaid⟩
  | working flight work => exact ⟨rfl, speaks.orderly⟩
  | returned result shared => cases shared <;> exact speaks
  | gone => exact ⟨rfl, speaks.2⟩
  | _ => exact rest.elim

namespace Task.Speaks

variable {call : Call} {dropped : Bool} {deeds : List Deed} {task after : Task} {creates left : Creates}

theorem start (settings : Settings) (call : Call) :
    (Task.start settings call).Speaks settings call false [] := by
  cases call with
  | create key value => exact ⟨⟨value, rfl, rfl, rfl⟩, rfl⟩
  | _ => exact fun key value same => by cases same

theorem step {deed : Deed} (speaks : task.Speaks settings call dropped deeds)
    (step : Task.Step settings task creates deed after left) (fair : deed.IsFair) :
    after.Speaks settings call dropped (deeds ++ deed.spoken) := by
  cases step with
  | plain creates step => exact speaks
  | announce key caller creates =>
      rw [show (Deed.logs (createLine settings key)).spoken = [] from rfl, List.append_nil]
      exact speaks
  | work key creates point step =>
      obtain ⟨⟨value, called, work, spoken⟩, name⟩ := speaks
      rw [point] at spoken
      exact ⟨⟨value, called, work, spoken.step step fair⟩, name⟩
  | finish key creates point =>
      obtain ⟨⟨value, called, work, spoken⟩, name⟩ := speaks
      rw [point] at spoken
      rw [show Deed.silent.spoken = [] from rfl, List.append_nil]
      exact ⟨⟨value, called, work, spoken.done⟩, name⟩
  | act key caller creates =>
      obtain ⟨⟨value, called, work, spoken⟩, name⟩ := speaks
      obtain ⟨sameKey, sameWork⟩ := caller.act_same creates
      rw [show Deed.silent.spoken = [] from rfl, List.append_nil]
      exact ⟨⟨value, called, sameWork.trans work, spoken.act work⟩, sameKey.trans name⟩

theorem drop (speaks : task.Speaks settings call dropped deeds) (abandons : task.Abandons after) :
    after.Speaks settings call true deeds := by
  cases abandons with
  | plain program => exact speaks
  | @create caller key announced rest =>
      obtain ⟨⟨value, called, work, spoken⟩, name⟩ := speaks
      obtain ⟨sameKey, sameWork⟩ := caller.abandon_same
      exact ⟨⟨value, called, sameWork.trans work, spoken.abandon rest⟩, sameKey.trans name⟩

end Task.Speaks

/-! ## What a course keeps -/

variable {ι : Type} [DecidableEq ι] {past : List (Moment ι)} {service after : Service ι}

structure Spoken (settings : Settings) (past : List (Moment ι)) (service : Service ι) : Prop where
  vacant : ∀ id, service.visits id = none → said past id = []
  speaks : ∀ id visit, service.visits id = some visit →
    visit.task.Speaks settings visit.call visit.dropped (said past id)

theorem Spoken.place {deed : Option (ι × Deed)} (spoken : Spoken settings past service) {id : ι}
    {visit : Visit} {creates : Creates} (quiet : ∀ other ≠ id, (Moment.mk service deed).said other = [])
    (speaks : visit.task.Speaks settings visit.call visit.dropped
      (said past id ++ (Moment.mk service deed).said id)) :
    Spoken settings (past ++ [⟨service, deed⟩]) (service.place id visit creates) where
  vacant other free := by
    rw [Service.place_visits] at free
    split at free
    · cases free
    · rename_i different
      rw [said_append, quiet other different, List.append_nil]
      exact spoken.vacant other free
  speaks other visit' here := by
    rw [Service.place_visits] at here
    rw [said_append]
    split at here
    · rename_i same
      cases here
      subst same
      exact speaks
    · rename_i different
      rw [quiet other different, List.append_nil]
      exact spoken.speaks other visit' here

theorem Spoken.goes {deed : Option (ι × Deed)} (spoken : Spoken settings past service)
    (goes : service.Goes settings deed after) : Spoken settings (past ++ [⟨service, deed⟩]) after := by
  cases goes with
  | @begins id call free =>
      refine spoken.place (fun other _ => rfl) ?_
      rw [spoken.vacant id free]
      exact Task.Speaks.start settings call
  | @does id deed after fair does =>
      obtain ⟨visit, task, creates, here, -, step, rfl⟩ := does
      have own : (Moment.mk service (some (id, deed))).said id = deed.spoken := if_pos rfl
      refine spoken.place (fun other different => if_neg different.symm) ?_
      rw [own]
      exact (spoken.speaks id visit here).step step fair
  | @drops id after drops =>
      obtain ⟨visit, task, here, abandons, rfl⟩ := drops
      refine spoken.place (fun other _ => rfl) ?_
      have nothing : (Moment.mk service (none : Option (ι × Deed))).said id = [] := rfl
      rw [nothing, List.append_nil]
      exact (spoken.speaks id visit here).drop abandons

theorem Course.spoken (course : Course settings past service) : Spoken settings past service := by
  induction course with
  | start => exact ⟨fun id free => rfl, fun id visit here => by cases here⟩
  | step course goes ih => exact ih.goes goes

/-! ## The statement -/

def Waits (past : List (Moment ι)) (id : ι) : Prop :=
  ∃ request, (said past id).getLast? = some (.sends request)

def JoinedResult (past : List (Moment ι)) (service : Service ι) (id : ι) (name : String)
    (result : Except Failure Unit) : Prop :=
  ∃ leader ≠ id, ∃ flight,
    (∃ then' ∈ servicesOf past service,
      then'.crowd.Follows id name flight ∧ then'.crowd.Leads leader name flight) ∧
    ∃ then' ∈ servicesOf past service, ∃ caller,
      then'.crowd.callers leader = some caller ∧ caller.point = .publishing flight result

def toldOf (key : String) : Except Failure Unit → Outcome
  | .ok () => .error (.alreadyExists key)
  | .error failure => .error failure

structure Disciplined (settings : Settings) (past : List (Moment ι)) (service : Service ι) : Prop where
  orderly : ∀ {id visit key value}, service.visits id = some visit → visit.call = .create key value →
    Orderly (lookRequest settings key) (writeRequest settings key value) (said past id)
  one_waits : ∀ {i j one two key key' value value'}, service.visits i = some one →
    service.visits j = some two → one.call = .create key value → two.call = .create key' value' →
    settings.nameOf key = settings.nameOf key' → one.dropped = false → two.dropped = false →
    Waits past i → Waits past j → i = j
  ok_written : ∀ {id visit key value answer}, service.visits id = some visit →
    visit.call = .create key value → visit.task.outcome? = some (.ok answer) →
    ∃ found written, Clears found ∧ written.isSuccess = true ∧
      said past id = [.sends (lookRequest settings key), .receives (lookRequest settings key) found,
        .sends (writeRequest settings key value), .receives (writeRequest settings key value) written]
  joined_told : ∀ {id visit key value announced caller result}, service.visits id = some visit →
    visit.call = .create key value → visit.task = .create key announced caller →
    caller.point = .returned result true →
    said past id = [] ∧ JoinedResult past service id (settings.nameOf key) result ∧
      visit.task.outcome? = some (toldOf key result)
  never_missing : ∀ {id visit key value name}, service.visits id = some visit →
    visit.call = .create key value → visit.task.outcome? ≠ some (.error (.notFound name))

theorem Spoken.speaker (spoken : Spoken settings past service) {id : ι} {visit : Visit} {key : String}
    {value : Bytes} (here : service.visits id = some visit) (called : visit.call = .create key value) :
    ∃ announced caller, visit.task = .create key announced caller ∧ caller.key = settings.nameOf key ∧
      Speaks settings key value visit.dropped (said past id) caller.point := by
  have speaks := spoken.speaks id visit here
  cases task : visit.task with
  | plain program =>
      rw [task] at speaks
      exact absurd called (speaks key value)
  | create own announced caller =>
      rw [task] at speaks
      obtain ⟨⟨value', asked, -, speaks⟩, name⟩ := speaks
      cases called.symm.trans asked
      exact ⟨announced, caller, rfl, name, speaks⟩

theorem Speaks.cases {dropped : Bool} {deeds : List Deed}
    {point : Flight.Point CreateWork (Except Failure Unit)}
    (speaks : Speaks settings key value dropped deeds point) :
    (∃ flight work, point = .working flight work ∧ Working settings key value deeds work) ∨
      (∃ stage : Stage, stage.Tells (lookRequest settings key) (writeRequest settings key value) deeds) ∨
      dropped = true ∧ Orderly (lookRequest settings key) (writeRequest settings key value) deeds := by
  have silent (nothing : deeds = []) :
      ∃ stage : Stage, stage.Tells (lookRequest settings key) (writeRequest settings key value) deeds :=
    ⟨.fresh, nothing⟩
  cases point with
  | working flight work => exact Or.inl ⟨flight, work, rfl, speaks⟩
  | joining => exact Or.inr (Or.inl (silent speaks))
  | following flight => exact Or.inr (Or.inl (silent speaks))
  | returned result shared =>
      cases shared with
      | true => exact Or.inr (Or.inl (silent speaks))
      | false => exact Or.inr (Or.inl (speaks.imp fun stage told => told.2))
  | publishing flight result => exact Or.inr (Or.inl (speaks.imp fun stage told => told.2))
  | leaving flight result => exact Or.inr (Or.inl (speaks.imp fun stage told => told.2))
  | closing flight result => exact Or.inr (Or.inl (speaks.imp fun stage told => told.2))
  | quitting flight => exact Or.inr (Or.inr speaks)
  | hangingUp flight => exact Or.inr (Or.inr speaks)
  | gone => exact Or.inr (Or.inr speaks)

theorem Speaks.orderly {dropped : Bool} {deeds : List Deed}
    {point : Flight.Point CreateWork (Except Failure Unit)}
    (speaks : Speaks settings key value dropped deeds point) :
    Orderly (lookRequest settings key) (writeRequest settings key value) deeds := by
  rcases speaks.cases with ⟨flight, work, -, working⟩ | ⟨stage, tells⟩ | ⟨-, orderly⟩
  · exact working.orderly
  · exact tells.orderly
  · exact orderly

theorem Speaks.working {deeds : List Deed} {request : Request}
    {point : Flight.Point CreateWork (Except Failure Unit)}
    (speaks : Speaks settings key value false deeds point)
    (waits : deeds.getLast? = some (.sends request)) : ∃ flight work, point = .working flight work := by
  rcases speaks.cases with ⟨flight, work, point, -⟩ | ⟨stage, tells⟩ | ⟨dropped, -⟩
  · exact ⟨flight, work, point⟩
  · exact absurd waits tells.answered
  · cases dropped

theorem ends_ok {stage : Stage} {deeds : List Deed} {look write : Request} (ends : Ends stage (.ok ()))
    (tells : stage.Tells look write deeds) :
    ∃ found written, Clears found ∧ written.isSuccess = true ∧
      deeds = [.sends look, .receives look found, .sends write, .receives write written] := by
  cases stage with
  | wrote found written => exact ⟨found, written, tells.1, ends, tells.2⟩
  | _ => exact ends.elim

theorem ends_error {stage : Stage} {failure : Failure} (ends : Ends stage (.error failure)) (name : String) :
    failure ≠ .notFound name := by
  cases stage <;> exact ends name

namespace Course

omit [DecidableEq ι] in
theorem exists_visit {id : ι} {caller : Creator} (here : service.crowd.callers id = some caller) :
    ∃ visit key announced, service.visits id = some visit ∧ visit.task = .create key announced caller := by
  obtain ⟨visit, found, creator⟩ := Option.bind_eq_some_iff.1 here
  cases task : visit.task with
  | plain program =>
      rw [task] at creator
      cases creator
  | create key announced caller' =>
      rw [task] at creator
      cases creator
      exact ⟨visit, key, announced, found, task⟩

theorem returned_of_outcome {task : Task} {key : String} {announced : Bool} {caller : Creator}
    {outcome : Outcome} (same : task = .create key announced caller) (told : task.outcome? = some outcome) :
    ∃ result shared, caller.point = .returned result shared ∧ createOutcome key shared result = outcome := by
  subst same
  cases point : caller.point with
  | returned result shared =>
      simp only [Task.outcome?, Flight.Caller.result?, point, Option.map_some, Option.some.injEq] at told
      exact ⟨result, shared, rfl, told⟩
  | _ => simp [Task.outcome?, Flight.Caller.result?, point] at told

theorem works_of_waits (course : Course settings past service) {id : ι} {visit : Visit} {key : String}
    {value : Bytes} (here : service.visits id = some visit) (called : visit.call = .create key value)
    (alive : visit.dropped = false) (waits : Waits past id) :
    service.crowd.Works id (settings.nameOf key) := by
  obtain ⟨announced, caller, task, name, speaks⟩ := course.spoken.speaker here called
  rw [alive] at speaks
  obtain ⟨request, last⟩ := waits
  obtain ⟨flight, work, point⟩ := speaks.working last
  exact ⟨caller, flight, work, Service.crowd_creator here task, name, point⟩

theorem result_present (course : Course settings past service) {id : ι} {caller : Creator} {flight : Nat}
    {result : Except Failure Unit} (here : service.crowd.callers id = some caller)
    (point : caller.point = .publishing flight result) (name : String) : result ≠ .error (.notFound name) := by
  obtain ⟨visit, key, announced, found, task⟩ := exists_visit here
  have speaks := course.spoken.speaks id visit found
  rw [task] at speaks
  obtain ⟨⟨value, -, -, speaks⟩, -⟩ := speaks
  rw [point] at speaks
  obtain ⟨stage, ends, -⟩ := speaks
  rintro rfl
  exact ends_error ends name rfl

theorem joined (course : Course settings past service) {id : ι} {caller : Creator}
    {result : Except Failure Unit} (here : service.crowd.callers id = some caller)
    (point : caller.point = .returned result true) : JoinedResult past service id caller.key result := by
  obtain ⟨leader, foreign, flight, ⟨joining, member, follows, leads⟩, publishing, member', publisher, there,
    publishes⟩ := course.evolves.joined here point
  have once {crowd : Flight.Crowd ι CreateWork (Except Failure Unit)}
      (member : crowd ∈ past.map (·.service.crowd) ++ [service.crowd]) :
      ∃ then' ∈ servicesOf past service, then'.crowd = crowd := by
    simpa [servicesOf, or_and_right, exists_or, eq_comm] using member
  obtain ⟨then', old, rfl⟩ := once member
  obtain ⟨then'', old', rfl⟩ := once member'
  exact ⟨leader, foreign, flight, ⟨then', old, follows, leads⟩, then'', old', publisher, there, publishes⟩

/-- In every course each creation sends only the requests that the answers to it allow, and its outcome follows from
them. -/
theorem disciplined (course : Course settings past service) : Disciplined settings past service where
  orderly here called := by
    obtain ⟨announced, caller, task, name, speaks⟩ := course.spoken.speaker here called
    exact speaks.orderly
  one_waits here there called called' same alive alive' waits waits' := by
    obtain ⟨flight, leads⟩ := (course.works_of_waits here called alive waits).leads
    obtain ⟨flight', leads'⟩ := (course.works_of_waits there called' alive' waits').leads
    rw [← same] at leads'
    exact course.sound.leader_unique leads leads'
  ok_written {id visit key value answer} here called told := by
    obtain ⟨announced, caller, task, name, speaks⟩ := course.spoken.speaker here called
    obtain ⟨result, shared, point, told⟩ := returned_of_outcome task told
    rw [point] at speaks
    cases result with
    | error failure => cases told
    | ok _ =>
        cases shared with
        | true => cases told
        | false =>
            obtain ⟨stage, ends, tells⟩ := speaks
            exact ends_ok ends tells
  joined_told {id visit key value announced caller result} here called task point := by
    obtain ⟨announced', caller', task', name, speaks⟩ := course.spoken.speaker here called
    cases task.symm.trans task'
    rw [point] at speaks
    refine ⟨speaks, name ▸ course.joined (Service.crowd_creator here task) point, ?_⟩
    rw [task, Task.outcome?, Flight.Caller.result?, point]
    cases result <;> rfl
  never_missing {id visit key value missing} here called told := by
    obtain ⟨announced, caller, task, name, speaks⟩ := course.spoken.speaker here called
    obtain ⟨result, shared, point, told⟩ := returned_of_outcome task told
    cases result with
    | ok _ => cases shared <;> cases told
    | error failure =>
        cases told
        cases shared with
        | false =>
            rw [point] at speaks
            obtain ⟨stage, ends, -⟩ := speaks
            exact ends_error ends missing rfl
        | true =>
            -- What it has been told is what the leader has published, at some time before.
            obtain ⟨leader, -, flight, -, then', member, publisher, found, publishes⟩ :=
              course.joined (Service.crowd_creator here task) point
            obtain ⟨before, -, course'⟩ := course.earlier member
            exact course'.result_present found publishes missing rfl

theorem disciplined_shared :
    ∃ (past : List (Moment Bool)) (service : Service Bool), Course {} past service ∧
      Disciplined {} past service ∧
      said past true = [.sends (lookRequest {} "k"), .receives (lookRequest {} "k") ⟨404, "", []⟩,
        .sends (writeRequest {} "k" [49]), .receives (writeRequest {} "k" [49]) ⟨204, "", []⟩] ∧
      said past false = [] ∧
      (service.visits true).map (·.task.outcome?) = some (some (.ok .done)) ∧
      (service.visits false).map (·.task.outcome?) = some (some (.error (.alreadyExists "k"))) := by
  have unspoiled (status : Nat) : Response.IsFair ⟨status, "", []⟩ := fun failure member => by cases member
  have nobody : Course {} [] (Service.empty : Service Bool) := .start
  have one := nobody.step (@Service.Goes.begins Bool _ {} _ true (.create "k" [49]) rfl)
  have both := one.step (@Service.Goes.begins Bool _ {} _ false (.create "k" [50]) rfl)
  have announced := both.goesOn true rfl (.announce _ _ _) trivial
  have leads := announced.goesOn true rfl (.act _ _ _) trivial
  have announced' := leads.goesOn false rfl (.announce _ _ _) trivial
  have follows := announced'.goesOn false rfl (.act _ _ _) trivial
  have asks := follows.goesOn true rfl (.work _ _ rfl (.send _ _)) trivial
  have lacks := asks.goesOn true rfl (.work _ _ rfl (.receive _ _ ⟨404, "", []⟩)) (unspoiled 404)
  have writes := lacks.goesOn true rfl (.work _ _ rfl (.send _ _)) trivial
  have written := writes.goesOn true rfl (.work _ _ rfl (.receive _ _ ⟨204, "", []⟩)) (unspoiled 204)
  have finished := written.goesOn true rfl (.finish _ _ rfl) trivial
  have published := finished.goesOn true rfl (.act _ _ _) trivial
  have left := published.goesOn true rfl (.act _ _ _) trivial
  have closed := left.goesOn true rfl (.act _ _ _) trivial
  have landed := closed.goesOn false rfl (.act _ _ _) trivial
  exact ⟨_, _, landed, disciplined landed, rfl, rfl, rfl, rfl⟩

end Course

end SecretStore.CredHub
