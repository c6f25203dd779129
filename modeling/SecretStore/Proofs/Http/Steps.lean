import SecretStore.Http.Program

namespace SecretStore.Http

variable {σ α : Type}

inductive Deed where
  | logs (line : Log.Line)
  | sends (request : Request)
  | receives (request : Request) (response : Response)
  | fails (request : Request) (failure : Failure)
  | reads (result : Except Failure Bytes)
  | silent

def Deed.IsQuiet : Deed → Prop
  | .logs _ | .reads _ | .silent => True
  | _ => False

namespace Program

/-- Waiting fails by the network or by cancellation only. -/
inductive Step : Program α → Deed → Program α → Prop where
  | log (line : Log.Line) (next : Program α) : Step (.log line next) (.logs line) next
  | send (request : Request) (next : Except Failure Response → Program α) :
      Step (.send request next) (.sends request) (.await request next)
  | refuse (request : Request) (next : Except Failure Response → Program α) {failure : Failure} :
      failure.isTransport = true →
      Step (.send request next) (.fails request failure) (next (.error failure))
  | receive (request : Request) (next : Except Failure Response → Program α) (response : Response) :
      Step (.await request next) (.receives request response) (next (.ok response))
  | lose (request : Request) (next : Except Failure Response → Program α) {failure : Failure} :
      failure.isTransport = true →
      Step (.await request next) (.fails request failure) (next (.error failure))
  | read (next : Except Failure Bytes → Program α) {cancelled : Bool} {taken : Bytes}
      {body : List Chunk} {result : Except Failure Bytes} :
      readOn cancelled taken body = .read result → Step (.read taken body next) (.reads result) (next result)
  | wait (next : Except Failure Bytes → Program α) {taken left : Bytes} {body rest : List Chunk} :
      takeChunks taken body = .waiting left rest →
      Step (.read taken body next) .silent (.read left rest next)

inductive Steps : Program α → List Deed → Program α → Prop where
  | refl (program : Program α) : Steps program [] program
  | head {first second third : Program α} {deed : Deed} {deeds : List Deed} :
      Step first deed second → Steps second deeds third → Steps first (deed :: deeds) third

structure Host.Honest (host : Host σ) : Prop where
  send : ∀ {token request state failure after},
    host.send token request state = (.error failure, after) → failure.isTransport = true
  receive : ∀ {token request state failure after},
    host.receive token request state = some (.error failure, after) → failure.isTransport = true

def Host.Answers (host : Host σ) (response : Response) : Prop :=
  ∃ token request state after, host.receive token request state = some (.ok response, after)

def Host.Allows (host : Host σ) : Deed → Prop
  | .receives _ response => host.Answers response
  | _ => True

variable {host : Host σ}

theorem step_answer (honest : host.Honest) {token : Token} {request : Request} {state after : σ}
    {result : Except Failure Response} (next : Except Failure Response → Program α)
    (answered : host.receive token request state = some (result, after)) :
    ∃ deed, Step (.await request next) deed (next result) ∧ host.Allows deed := by
  cases result with
  | ok response => exact ⟨_, .receive request next response, token, request, state, after, answered⟩
  | error failure => exact ⟨_, .lose request next (honest.receive answered), trivial⟩

theorem run_steps (honest : host.Honest) (token : Token) (program : Program α) (state : σ) :
    ∃ deeds, Steps program deeds (run host token program state).1 ∧ ∀ deed ∈ deeds, host.Allows deed := by
  induction program generalizing state with
  | done value => exact ⟨[], .refl _, by simp⟩
  | log line next ih =>
      obtain ⟨deeds, steps, allowed⟩ := ih (host.log line state)
      exact ⟨_, .head (.log line next) steps, List.forall_mem_cons.2 ⟨trivial, allowed⟩⟩
  | send request next ih =>
      cases sent : host.send token request state with
      | mk result after =>
          cases result with
          | error failure =>
              obtain ⟨deeds, steps, allowed⟩ := ih (.error failure) after
              simp only [run, sent]
              exact ⟨_, .head (.refuse request next (honest.send sent)) steps,
                List.forall_mem_cons.2 ⟨trivial, allowed⟩⟩
          | ok _ =>
              cases received : host.receive token request after with
              | none =>
                  simp only [run, sent, received]
                  exact ⟨_, .head (.send request next) (.refl _), by simp [Host.Allows]⟩
              | some answer =>
                  obtain ⟨deed, step, allows⟩ := step_answer honest next received
                  obtain ⟨deeds, steps, allowed⟩ := ih answer.1 answer.2
                  simp only [run, sent, received]
                  exact ⟨_, .head (.send request next) (.head step steps),
                    List.forall_mem_cons.2 ⟨trivial, List.forall_mem_cons.2 ⟨allows, allowed⟩⟩⟩
  | await request next ih =>
      cases received : host.receive token request state with
      | none =>
          simp only [run, received]
          exact ⟨[], .refl _, by simp⟩
      | some answer =>
          obtain ⟨deed, step, allows⟩ := step_answer honest next received
          obtain ⟨deeds, steps, allowed⟩ := ih answer.1 answer.2
          simp only [run, received]
          exact ⟨_, .head step steps, List.forall_mem_cons.2 ⟨allows, allowed⟩⟩
  | read taken body next ih =>
      cases reading : readOn (host.isCancelled token state) taken body with
      | read result =>
          obtain ⟨deeds, steps, allowed⟩ := ih result state
          simp only [run, reading]
          exact ⟨_, .head (.read next reading) steps, List.forall_mem_cons.2 ⟨trivial, allowed⟩⟩
      | waiting left rest =>
          simp only [run, reading]
          refine ⟨_, .head (.wait next ?_) (.refl _), by simp [Host.Allows]⟩
          cases cancelled : host.isCancelled token state with
          | true => simp [readOn, cancelled] at reading
          | false => simpa [readOn, cancelled] using reading

end Program

end SecretStore.Http
