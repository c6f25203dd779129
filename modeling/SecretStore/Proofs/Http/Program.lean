import SecretStore.Http.Program

namespace SecretStore.Http

variable {σ α β : Type}

namespace Program

theorem run_bind (host : Host σ) (token : Token) (program : Program α) (next : α → Program β)
    (state : σ) :
    run host token (program.bind next) state =
      match run host token program state with
      | (.done value, state) => run host token (next value) state
      | (program, state) => (program.bind next, state) := by
  induction program generalizing state with
  | done value => rfl
  | log line program ih => exact ih (host.log line state)
  | send request rest ih =>
      simp only [bind, run]
      cases sent : host.send token request state with
      | mk result after =>
          cases result with
          | error failure => exact ih (.error failure) after
          | ok _ =>
              simp only
              cases received : host.receive token request after with
              | none => rfl
              | some answer => exact ih answer.1 answer.2
  | await request rest ih =>
      simp only [bind, run]
      cases received : host.receive token request state with
      | none => rfl
      | some answer => exact ih answer.1 answer.2
  | read taken body rest ih =>
      simp only [bind, run]
      cases reading : readOn (host.isCancelled token state) taken body with
      | read result => exact ih result state
      | waiting taken body => rfl

theorem run_keeps {host : Host σ} {token : Token} (good : σ → Prop)
    (logs : ∀ line state, good state → good (host.log line state))
    (sends : ∀ request state, good state → good (host.send token request state).2)
    (receives : ∀ request state result after, host.receive token request state = some (result, after) →
      good state → good after)
    (program : Program α) {state : σ} (here : good state) : good (run host token program state).2 := by
  induction program generalizing state with
  | done value => exact here
  | log line next ih => exact ih (logs line state here)
  | send request next ih =>
      have sent := sends request state here
      cases answered : host.send token request state with
      | mk result middle =>
          rw [answered] at sent
          cases result with
          | error failure => simpa only [run, answered] using ih (.error failure) sent
          | ok _ =>
              cases received : host.receive token request middle with
              | none => simpa only [run, answered, received] using sent
              | some answer =>
                  have left := receives request middle answer.1 answer.2 received sent
                  simpa only [run, answered, received] using ih answer.1 left
  | await request next ih =>
      cases received : host.receive token request state with
      | none => simpa only [run, received] using here
      | some answer =>
          have left := receives request state answer.1 answer.2 received here
          simpa only [run, received] using ih answer.1 left
  | read taken body next ih =>
      cases reading : readOn (host.isCancelled token state) taken body with
      | read result => simpa only [run, reading] using ih result here
      | waiting left rest => simpa only [run, reading] using here

def Runs (host : Host σ) (token : Token) (program : Program α) (state : σ) (value : α) (after : σ) :
    Prop :=
  run host token program state = (.done value, after)

variable {host : Host σ} {token : Token} {state middle after : σ}

theorem Runs.bind {program : Program α} {next : α → Program β} {value : α} {result : β}
    (first : Runs host token program state value middle)
    (second : Runs host token (next value) middle result after) :
    Runs host token (program >>= next) state result after := by
  change run host token (program.bind next) state = _
  rw [run_bind, first]
  exact second

def Answered (host : Host σ) (token : Token) (request : Request) (state : σ) (response : Response)
    (after : σ) : Prop :=
  ∃ sent, host.send token request state = (.ok (), sent) ∧
    host.receive token request sent = some (.ok response, after)

end Program

namespace Action

open Program (Host Answered)

def Runs (host : Host σ) (token : Token) (action : Action α) (state : σ) (result : Except Failure α)
    (after : σ) : Prop :=
  Program.Runs host token action.run state result after

variable {host : Host σ} {token : Token} {state middle after : σ}

theorem Runs.bind {action : Action α} {next : α → Action β} {value : α} {result : Except Failure β}
    (first : Runs host token action state (.ok value) middle)
    (second : Runs host token (next value) middle result after) :
    Runs host token (action >>= next) state result after :=
  Program.Runs.bind first second

theorem Runs.fail {action : Action α} {next : α → Action β} {failure : Failure}
    (first : Runs host token action state (.error failure) after) :
    Runs host token (action >>= next) state (.error failure) after :=
  Program.Runs.bind first rfl

theorem runs_pure (host : Host σ) (token : Token) (value : α) (state : σ) :
    Runs host token (pure value) state (.ok value) state := rfl

theorem runs_throw (host : Host σ) (token : Token) (failure : Failure) (state : σ) :
    Runs host token (throw failure : Action α) state (.error failure) state := rfl

theorem runs_ofResult (host : Host σ) (token : Token) (result : Except Failure α) (state : σ) :
    Runs host token (ofResult result) state result state := rfl

theorem runs_log (host : Host σ) (token : Token) (line : Log.Line) (state : σ) :
    Runs host token (log line) state (.ok ()) (host.log line state) := rfl

theorem runs_request {request : Request} {response : Response}
    (answered : Answered host token request state response after) :
    Runs host token (Action.request request) state (.ok response) after := by
  obtain ⟨sent, sends, receives⟩ := answered
  change Program.run host token (.send request .done) state = _
  simp only [Program.run, sends, receives]

theorem runs_readBody {response : Response} {result : Except Failure Bytes}
    (read : readOn (host.isCancelled token state) [] response.body = .read result) :
    Runs host token (readBody response) state result state := by
  change Program.run host token (.read [] response.body .done) state = _
  simp only [Program.run, read]

theorem runs_readJson {reader : Json.Reader α} {response : Response} {octets : Bytes} {value : α}
    (read : readOn (host.isCancelled token state) [] response.body = .read (.ok octets))
    (decoded : reader.whole octets = .ok value) :
    Runs host token (readJson reader response) state (.ok value) state := by
  refine .bind (runs_readBody read) ?_
  have found : decode reader octets = .ok value := by
    rw [decode, decoded]
    rfl
  rw [found]
  exact runs_ofResult host token (.ok value) state

end Action

end SecretStore.Http
