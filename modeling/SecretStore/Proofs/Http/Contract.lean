import SecretStore.Proofs.Http.Steps

namespace SecretStore.Http

structure Contract (K : Type) where
  permits : K → Request → Prop
  answers : Request → Response → Prop
  learn : K → Request → Response → K

variable {K α β : Type}

namespace Program

/-- Nothing is assumed after a failure: the request may have been carried out or not. -/
def Meets (contract : Contract K) (post : K → α → Prop) : Program α → K → Prop
  | .done value, known => post known value
  | .log _ next, known => next.Meets contract post known
  | .send request next, known | .await request next, known =>
    contract.permits known request ∧
      (∀ failure after, failure.isTransport = true →
        (next (.error failure)).Meets contract post after) ∧
      ∀ response, contract.answers request response →
        (next (.ok response)).Meets contract post (contract.learn known request response)
  | .read taken body next, known =>
    ∀ cancelled result, readOn cancelled taken body = .read result →
      (next result).Meets contract post known

variable {contract : Contract K} {post : K → α → Prop}

theorem Meets.bind {program : Program α} {next : α → Program β} {post : K → β → Prop} {known : K}
    (meets : program.Meets contract (fun known value => (next value).Meets contract post known) known) :
    (program >>= next).Meets contract post known := by
  change (program.bind next).Meets contract post known
  induction program generalizing known with
  | done value => exact meets
  | log line program ih => exact ih meets
  | send request rest ih =>
      obtain ⟨permitted, failing, answered⟩ := meets
      exact ⟨permitted, fun failure after outside => ih _ (failing failure after outside),
        fun response answers => ih _ (answered response answers)⟩
  | await request rest ih =>
      obtain ⟨permitted, failing, answered⟩ := meets
      exact ⟨permitted, fun failure after outside => ih _ (failing failure after outside),
        fun response answers => ih _ (answered response answers)⟩
  | read taken body rest ih => exact fun cancelled result read => ih _ (meets cancelled result read)

theorem Meets.imp {program : Program α} {weaker : K → α → Prop} {known : K}
    (meets : program.Meets contract post known)
    (implies : ∀ known value, post known value → weaker known value) :
    program.Meets contract weaker known := by
  induction program generalizing known with
  | done value => exact implies known value meets
  | log line program ih => exact ih meets
  | send request rest ih =>
      obtain ⟨permitted, failing, answered⟩ := meets
      exact ⟨permitted, fun failure after outside => ih _ (failing failure after outside),
        fun response answers => ih _ (answered response answers)⟩
  | await request rest ih =>
      obtain ⟨permitted, failing, answered⟩ := meets
      exact ⟨permitted, fun failure after outside => ih _ (failing failure after outside),
        fun response answers => ih _ (answered response answers)⟩
  | read taken body rest ih => exact fun cancelled result read => ih _ (meets cancelled result read)

theorem takeChunks_waiting {taken left : Bytes} {body rest : List Chunk}
    (waiting : takeChunks taken body = .waiting left rest) :
    takeChunks left rest = .waiting left rest := by
  fun_induction takeChunks taken body with
  | case1 => cases waiting
  | case2 taken octets body ih => exact ih waiting
  | case3 => cases waiting
  | case4 taken body =>
      cases waiting
      rfl

variable {program after : Program α} {known : K} {request : Request}

theorem Meets.quiet {deed : Deed} (meets : program.Meets contract post known)
    (step : Step program deed after) (quiet : deed.IsQuiet) : after.Meets contract post known := by
  cases step with
  | log line next => exact meets
  | read next reading => exact meets _ _ reading
  | @wait next taken left body rest waiting =>
      intro cancelled result reading
      cases cancelled with
      | true => exact meets true result reading
      | false => simp [readOn, takeChunks_waiting waiting] at reading
  | _ => cases quiet

theorem Meets.sends (meets : program.Meets contract post known)
    (step : Step program (.sends request) after) :
    contract.permits known request ∧ after.Meets contract post known ∧
      ∃ next, after = .await request next := by
  cases step with
  | send request next => exact ⟨meets.1, meets, next, rfl⟩

theorem Meets.fails {failure : Failure} (meets : program.Meets contract post known)
    (step : Step program (.fails request failure) after) (later : K) :
    after.Meets contract post later := by
  cases step with
  | refuse request next outside => exact meets.2.1 failure later outside
  | lose request next outside => exact meets.2.1 failure later outside

theorem Meets.receives {response : Response} (meets : program.Meets contract post known)
    (step : Step program (.receives request response) after)
    (answers : contract.answers request response) :
    after.Meets contract post (contract.learn known request response) := by
  cases step with
  | receive request next response => exact meets.2.2 response answers

def MeetsOnce (contract : Contract K) (post : K → α → Prop) (request : Request) (response : Response)
    (program : Program α) (known : K) : Prop :=
  ∃ next, program = .await request next ∧ (next (.ok response)).Meets contract post known ∧
    ∀ failure after, failure.isTransport = true → (next (.error failure)).Meets contract post after

theorem Meets.once {next : Except Failure Response → Program α} {response : Response}
    (meets : (Program.await request next).Meets contract post known)
    (answers : contract.answers request response) :
    (Program.await request next).MeetsOnce contract post request response
      (contract.learn known request response) :=
  ⟨next, rfl, meets.2.2 response answers, meets.2.1⟩

variable {response : Response}

theorem MeetsOnce.receives (meets : program.MeetsOnce contract post request response known)
    (step : Step program (.receives request response) after) : after.Meets contract post known := by
  obtain ⟨next, rfl, received, -⟩ := meets
  cases step with
  | receive request next response => exact received

theorem MeetsOnce.fails {asked : Request} {failure : Failure}
    (meets : program.MeetsOnce contract post request response known)
    (step : Step program (.fails asked failure) after) (later : K) :
    after.Meets contract post later := by
  obtain ⟨next, rfl, -, failing⟩ := meets
  cases step with
  | lose request next outside => exact failing failure later outside

theorem MeetsOnce.not_quiet {deed : Deed} (meets : program.MeetsOnce contract post request response known)
    (step : Step program deed after) : ¬ deed.IsQuiet := by
  obtain ⟨next, rfl, -⟩ := meets
  cases step <;> exact fun quiet => quiet

theorem MeetsOnce.not_sends {asked : Request}
    (meets : program.MeetsOnce contract post request response known) :
    ¬ Step program (.sends asked) after := by
  obtain ⟨next, rfl, -⟩ := meets
  rintro ⟨⟩

def IsUnasked : Program α → Prop
  | .done _ => True
  | .log _ next => next.IsUnasked
  | .send _ next => ∀ result, (next result).IsUnasked
  | .await .. => False
  | .read _ _ next => ∀ result, (next result).IsUnasked

theorem IsUnasked.bind {program : Program α} {next : α → Program β} (first : program.IsUnasked)
    (rest : ∀ value, (next value).IsUnasked) : (program >>= next).IsUnasked := by
  change (program.bind next).IsUnasked
  induction program with
  | done value => exact rest value
  | log line program ih => exact ih first
  | send request program ih => exact fun result => ih result (first result)
  | await request program ih => exact first.elim
  | read taken body program ih => exact fun result => ih result (first result)

end Program

namespace Action

theorem isUnasked_bind {action : Action α} {next : α → Action β} (first : action.run.IsUnasked)
    (rest : ∀ value, (next value).run.IsUnasked) : (action >>= next).run.IsUnasked := by
  refine Program.IsUnasked.bind first ?_
  intro result
  cases result with
  | ok value => exact rest value
  | error failure => trivial

variable {contract : Contract K} {known : K}

theorem meets_bind {action : Action α} {next : α → Action β} {post : K → Except Failure β → Prop}
    (meets : action.run.Meets contract
      (fun known result => match result with
        | .ok value => (next value).run.Meets contract post known
        | .error failure => post known (.error failure)) known) :
    (action >>= next).run.Meets contract post known := by
  apply Program.Meets.bind
  apply meets.imp
  intro later result holds
  cases result with
  | ok value => exact holds
  | error failure => exact holds

variable {post : K → Except Failure α → Prop}

theorem meets_request {request : Request} {post : K → Except Failure Response → Prop}
    (permitted : contract.permits known request)
    (failing : ∀ failure later, failure.isTransport = true → post later (.error failure))
    (answered : ∀ response, contract.answers request response →
      post (contract.learn known request response) (.ok response)) :
    (Action.request request).run.Meets contract post known :=
  ⟨permitted, failing, answered⟩

end Action

end SecretStore.Http
