import Mathlib.Logic.Relation
import SecretStore.Http.Script
import SecretStore.Proofs.Http.Steps

namespace SecretStore.Http

variable {σ α β : Type}

def Response.IsSincere (response : Response) : Prop := Chunk.failure .cancelled ∉ response.body

def Reply.IsSincere (reply : Reply) : Prop :=
  match reply.result with
  | .ok response => response.IsSincere
  | .error failure => failure ≠ .cancelled

namespace Program

/-- One step under a token that is cancelled or not. A body is read chunk by chunk. -/
inductive StepUnder (cancelled : Bool) : Program α → Deed → Program α → Prop where
  | log (line : Log.Line) (next : Program α) : StepUnder cancelled (.log line next) (.logs line) next
  | send (request : Request) (next : Except Failure Response → Program α) : cancelled = false →
      StepUnder cancelled (.send request next) (.sends request) (.await request next)
  | refuse (request : Request) (next : Except Failure Response → Program α) {failure : Failure} :
      (failure = .cancelled ↔ cancelled = true) →
      StepUnder cancelled (.send request next) (.fails request failure) (next (.error failure))
  | receive (request : Request) (next : Except Failure Response → Program α) {response : Response} :
      cancelled = false → response.IsSincere →
      StepUnder cancelled (.await request next) (.receives request response) (next (.ok response))
  | lose (request : Request) (next : Except Failure Response → Program α) {failure : Failure} :
      (failure = .cancelled ↔ cancelled = true) →
      StepUnder cancelled (.await request next) (.fails request failure) (next (.error failure))
  | stop (taken : Bytes) (body : List Chunk) (next : Except Failure Bytes → Program α) : cancelled = true →
      StepUnder cancelled (.read taken body next) (.reads (.error .cancelled)) (next (.error .cancelled))
  | take (taken octets : Bytes) (rest : List Chunk) (next : Except Failure Bytes → Program α) :
      cancelled = false →
      StepUnder cancelled (.read taken (.octets octets :: rest) next) .silent (.read (taken ++ octets) rest next)
  | breakOff (taken : Bytes) (failure : Failure) (rest : List Chunk)
      (next : Except Failure Bytes → Program α) : cancelled = false →
      StepUnder cancelled (.read taken (.failure failure :: rest) next) (.reads (.error failure))
        (next (.error failure))
  | finish (taken : Bytes) (next : Except Failure Bytes → Program α) : cancelled = false →
      StepUnder cancelled (.read taken [] next) (.reads (.ok taken)) (next (.ok taken))

abbrev StepsUnder (cancelled : Bool) : Program α → Program α → Prop :=
  Relation.ReflTransGen fun program next => ∃ deed, StepUnder cancelled program deed next

theorem StepUnder.steps {cancelled : Bool} {program next : Program α} {deed : Deed}
    (step : StepUnder cancelled program deed next) : StepsUnder cancelled program next :=
  .single ⟨deed, step⟩

/-- A cancelled program ends at once with `halt`. Every other end satisfies `post`. -/
def Heeds (halt : α) (post : α → Prop) : Program α → Prop
  | .done value => post value
  | .log _ next => next.Heeds halt post
  | .send _ next | .await _ next =>
    next (.error .cancelled) = .done halt ∧
      (∀ failure, failure ≠ .cancelled → (next (.error failure)).Heeds halt post) ∧
      ∀ response : Response, response.IsSincere → (next (.ok response)).Heeds halt post
  | .read _ body next =>
    next (.error .cancelled) = .done halt ∧ Chunk.failure .cancelled ∉ body ∧
      (∀ failure, failure ≠ .cancelled → (next (.error failure)).Heeds halt post) ∧
      ∀ octets, (next (.ok octets)).Heeds halt post

def IsAsking : Program α → Prop
  | .send .. | .await .. | .read .. => True
  | _ => False

def Doomed (halt : α) (post : α → Prop) (program : Program α) : Prop :=
  program.Heeds halt post ∧ program.IsAsking ∨ program = .done halt

variable {halt : α} {post : α → Prop} {program next : Program α} {cancelled : Bool} {deed : Deed}

theorem Heeds.bind {end' : β} {post : β → Prop} {rest : α → Program β} (stops : rest halt = .done end')
    (heeds : program.Heeds halt fun value => (rest value).Heeds end' post) :
    (program >>= rest).Heeds end' post := by
  change (program.bind rest).Heeds end' post
  have ended {program : Program α} (halts : program = .done halt) : program.bind rest = .done end' := by
    rw [halts]
    exact stops
  induction program with
  | done value => exact heeds
  | log line program ih => exact ih heeds
  | send request next ih | await request next ih =>
      obtain ⟨halts, failing, answered⟩ := heeds
      exact ⟨ended halts, fun failure other => ih _ (failing failure other),
        fun response sincere => ih _ (answered response sincere)⟩
  | read taken body next ih =>
      obtain ⟨halts, sincere, failing, filled⟩ := heeds
      exact ⟨ended halts, sincere, fun failure other => ih _ (failing failure other),
        fun octets => ih _ (filled octets)⟩

theorem Heeds.imp {weaker : α → Prop} (heeds : program.Heeds halt post)
    (implies : ∀ value, post value → weaker value) : program.Heeds halt weaker := by
  induction program with
  | done value => exact implies value heeds
  | log line next ih => exact ih heeds
  | send request next ih | await request next ih =>
      obtain ⟨halts, failing, answered⟩ := heeds
      exact ⟨halts, fun failure other => ih _ (failing failure other),
        fun response sincere => ih _ (answered response sincere)⟩
  | read taken body next ih =>
      obtain ⟨halts, sincere, failing, filled⟩ := heeds
      exact ⟨halts, sincere, fun failure other => ih _ (failing failure other), fun octets => ih _ (filled octets)⟩

theorem Heeds.step (heeds : program.Heeds halt post) (step : StepUnder cancelled program deed next) :
    next.Heeds halt post ∨ cancelled = true ∧ next = .done halt := by
  -- A failure ends the program if it is that of a cancelled token, and is passed on else.
  have fails {next : Except Failure Response → Program α} {failure : Failure}
      (same : failure = .cancelled ↔ cancelled = true) (halts : next (.error .cancelled) = .done halt)
      (failing : ∀ failure, failure ≠ .cancelled → (next (.error failure)).Heeds halt post) :
      (next (.error failure)).Heeds halt post ∨ cancelled = true ∧ next (.error failure) = .done halt := by
    by_cases ended : failure = .cancelled
    · exact Or.inr ⟨same.1 ended, by rw [ended, halts]⟩
    · exact Or.inl (failing failure ended)
  cases step with
  | log line next => exact Or.inl heeds
  | send request next alive => exact Or.inl heeds
  | refuse request next same => exact fails same heeds.1 heeds.2.1
  | receive request next alive sincere => exact Or.inl (heeds.2.2 _ sincere)
  | lose request next same => exact fails same heeds.1 heeds.2.1
  | stop taken body next dead => exact Or.inr ⟨dead, heeds.1⟩
  | take taken octets rest next alive =>
      obtain ⟨halts, sincere, others⟩ := heeds
      exact Or.inl ⟨halts, fun member => sincere (List.mem_cons_of_mem _ member), others⟩
  | breakOff taken failure rest next alive =>
      obtain ⟨-, sincere, failing, -⟩ := heeds
      refine Or.inl (failing failure ?_)
      rintro rfl
      exact sincere (List.mem_cons_self ..)
  | finish taken next alive => exact Or.inl (heeds.2.2.2 taken)

theorem Doomed.step (doomed : program.Doomed halt post) (step : StepUnder true program deed next) :
    next.Doomed halt post := by
  rcases doomed with ⟨heeds, asks⟩ | rfl
  · cases step with
    | log line next => exact asks.elim
    | send request next alive => cases alive
    | refuse request next same =>
        cases same.2 rfl
        exact Or.inr heeds.1
    | receive request next alive sincere => cases alive
    | lose request next same =>
        cases same.2 rfl
        exact Or.inr heeds.1
    | stop taken body next dead => exact Or.inr heeds.1
    | take taken octets rest next alive => cases alive
    | breakOff taken failure rest next alive => cases alive
    | finish taken next alive => cases alive
  · cases step

def Host.Keeps (host : Host σ) (fit : σ → Prop) (state after : σ) : Prop :=
  fit after ∧ ∀ token, host.isCancelled token after = host.isCancelled token state

/-- The host checks the token before it sends and while it waits, and reports cancellation in no other case. -/
structure Host.Heeds (host : Host σ) (fit : σ → Prop) : Prop where
  refuses : ∀ {token request state}, host.isCancelled token state = true →
    host.send token request state = (.error .cancelled, state)
  stops : ∀ {token request state}, host.isCancelled token state = true →
    host.receive token request state = some (.error .cancelled, state)
  logs : ∀ line {state}, fit state → host.Keeps fit state (host.log line state)
  sends : ∀ {token request state result after}, fit state → host.isCancelled token state = false →
    host.send token request state = (result, after) →
    host.Keeps fit state after ∧ result ≠ .error .cancelled
  receives : ∀ {token request state result after}, fit state → host.isCancelled token state = false →
    host.receive token request state = some (result, after) →
    host.Keeps fit state after ∧ result ≠ .error .cancelled ∧
      ∀ response : Response, result = .ok response → response.IsSincere

variable {host : Host σ} {fit : σ → Prop} {token : Token} {state middle after : σ}

theorem Host.keeps_self (host : Host σ) (fits : fit state) : host.Keeps fit state state :=
  ⟨fits, fun _ => rfl⟩

theorem Host.Keeps.trans (first : host.Keeps fit state middle) (second : host.Keeps fit middle after) :
    host.Keeps fit state after :=
  ⟨second.1, fun token => (second.2 token).trans (first.2 token)⟩

theorem run_cancelled (looks : host.Heeds fit) (dead : host.isCancelled token state = true)
    (heeds : program.Heeds halt post) (asks : program.IsAsking) :
    run host token program state = (.done halt, state) := by
  cases program with
  | done value => exact asks.elim
  | log line next => exact asks.elim
  | send request next => simp only [run, looks.refuses dead, heeds.1]
  | await request next => simp only [run, looks.stops dead, heeds.1]
  | read taken body next => simp only [run, readOn, dead, ↓reduceIte, heeds.1]

theorem steps_takeChunks (taken : Bytes) (body : List Chunk) (next : Except Failure Bytes → Program α) :
    StepsUnder false (.read taken body next)
      (match takeChunks taken body with
        | .read result => next result
        | .waiting taken body => .read taken body next) := by
  fun_induction takeChunks taken body with
  | case1 taken => exact (StepUnder.finish taken next rfl).steps
  | case2 taken octets rest ih => exact (StepUnder.take taken octets rest next rfl).steps.trans ih
  | case3 taken failure rest => exact (StepUnder.breakOff taken failure rest next rfl).steps
  | case4 taken rest => exact .refl

theorem steps_readOn (cancelled : Bool) (taken : Bytes) (body : List Chunk)
    (next : Except Failure Bytes → Program α) :
    StepsUnder cancelled (.read taken body next)
      (match readOn cancelled taken body with
        | .read result => next result
        | .waiting taken body => .read taken body next) := by
  cases cancelled with
  | true => exact (StepUnder.stop taken body next rfl).steps
  | false => exact steps_takeChunks taken body next

theorem steps_receive (looks : host.Heeds fit) (fits : fit state) {request : Request}
    {result : Except Failure Response} (next : Except Failure Response → Program α)
    (received : host.receive token request state = some (result, after)) :
    StepsUnder (host.isCancelled token state) (.await request next) (next result) ∧
      host.Keeps fit state after := by
  cases dead : host.isCancelled token state with
  | true =>
      rw [looks.stops dead] at received
      cases received
      exact ⟨(StepUnder.lose request next ⟨fun _ => rfl, fun _ => rfl⟩).steps, host.keeps_self fits⟩
  | false =>
      obtain ⟨keeps, other, sincere⟩ := looks.receives fits dead received
      refine ⟨?_, keeps⟩
      cases result with
      | ok response => exact (StepUnder.receive request next rfl (sincere response rfl)).steps
      | error failure =>
          refine (StepUnder.lose request next ⟨?_, fun same => by cases same⟩).steps
          rintro rfl
          exact absurd rfl other

theorem steps_send (looks : host.Heeds fit) (fits : fit state) {request : Request}
    {result : Except Failure Unit} (next : Except Failure Response → Program α)
    (sent : host.send token request state = (result, after)) :
    StepsUnder (host.isCancelled token state) (.send request next)
        (match result with
          | .ok _ => .await request next
          | .error failure => next (.error failure)) ∧
      host.Keeps fit state after := by
  cases dead : host.isCancelled token state with
  | true =>
      rw [looks.refuses dead] at sent
      cases sent
      exact ⟨(StepUnder.refuse request next ⟨fun _ => rfl, fun _ => rfl⟩).steps, host.keeps_self fits⟩
  | false =>
      obtain ⟨keeps, other⟩ := looks.sends fits dead sent
      refine ⟨?_, keeps⟩
      cases result with
      | ok _ => exact (StepUnder.send request next rfl).steps
      | error failure =>
          refine (StepUnder.refuse request next ⟨?_, fun same => by cases same⟩).steps
          rintro rfl
          exact absurd rfl other

theorem run_stepsUnder (looks : host.Heeds fit) (token : Token) (program : Program α) (fits : fit state) :
    StepsUnder (host.isCancelled token state) program (run host token program state).1 ∧
      host.Keeps fit state (run host token program state).2 := by
  induction program generalizing state with
  | done value => exact ⟨.refl, host.keeps_self fits⟩
  | log line next ih =>
      have logged := looks.logs line fits
      obtain ⟨steps, keeps⟩ := ih logged.1
      rw [logged.2 token] at steps
      exact ⟨(StepUnder.log line next).steps.trans steps, logged.trans keeps⟩
  | send request next ih =>
      cases sent : host.send token request state with
      | mk result after =>
          obtain ⟨first, keeps⟩ := steps_send looks fits next sent
          cases result with
          | error failure =>
              obtain ⟨steps, keeps'⟩ := ih (.error failure) keeps.1
              rw [keeps.2 token] at steps
              simp only [run, sent]
              exact ⟨first.trans steps, keeps.trans keeps'⟩
          | ok _ =>
              cases received : host.receive token request after with
              | none =>
                  simp only [run, sent, received]
                  exact ⟨first, keeps⟩
              | some answer =>
                  obtain ⟨second, keeps'⟩ := steps_receive looks keeps.1 next received
                  obtain ⟨steps, keeps''⟩ := ih answer.1 keeps'.1
                  rw [keeps'.2 token, keeps.2 token] at steps
                  rw [keeps.2 token] at second
                  simp only [run, sent, received]
                  exact ⟨(first.trans second).trans steps, (keeps.trans keeps').trans keeps''⟩
  | await request next ih =>
      cases received : host.receive token request state with
      | none =>
          simp only [run, received]
          exact ⟨.refl, host.keeps_self fits⟩
      | some answer =>
          obtain ⟨first, keeps⟩ := steps_receive looks fits next received
          obtain ⟨steps, keeps'⟩ := ih answer.1 keeps.1
          rw [keeps.2 token] at steps
          simp only [run, received]
          exact ⟨first.trans steps, keeps.trans keeps'⟩
  | read taken body next ih =>
      have first := steps_readOn (host.isCancelled token state) taken body next
      cases reading : readOn (host.isCancelled token state) taken body with
      | read result =>
          rw [reading] at first
          obtain ⟨steps, keeps⟩ := ih result fits
          simp only [run, reading]
          exact ⟨first.trans steps, keeps⟩
      | waiting left rest =>
          rw [reading] at first
          simp only [run, reading]
          exact ⟨first, host.keeps_self fits⟩

end Program

theorem Script.takeFirst_subset {γ : Type} {passes : γ → Bool} {all rest : List γ} {found : γ}
    (takes : takeFirst passes all = some (found, rest)) : found ∈ all ∧ rest ⊆ all := by
  induction all generalizing rest with
  | nil => cases takes
  | cons first all ih =>
      rw [takeFirst] at takes
      split at takes
      · cases takes
        exact ⟨List.mem_cons_self .., List.subset_cons_self ..⟩
      · obtain ⟨⟨other, others⟩, taken, same⟩ := Option.map_eq_some_iff.1 takes
        cases same
        obtain ⟨member, subset⟩ := ih taken
        exact ⟨List.mem_cons_of_mem _ member, List.cons_subset_cons _ subset⟩

theorem Script.heeds : Script.host.Heeds fun script => ∀ reply ∈ script.replies, reply.IsSincere where
  refuses dead := if_pos dead
  stops dead := if_pos dead
  logs line state fits := ⟨fits, fun _ => rfl⟩
  sends {token request state result after} fits alive sent := by
    simp only [host, send, (show state.isCancelled token = false from alive), Bool.false_eq_true,
      ↓reduceIte, Prod.mk.injEq] at sent
    obtain ⟨rfl, rfl⟩ := sent
    exact ⟨⟨fits, fun _ => rfl⟩, fun same => by cases same⟩
  receives {token request state result after} fits alive received := by
    simp only [host, receive, (show state.isCancelled token = false from alive), Bool.false_eq_true,
      ↓reduceIte, Option.map_eq_some_iff, Prod.exists, Prod.mk.injEq] at received
    obtain ⟨reply, replies, takes, rfl, rfl⟩ := received
    obtain ⟨member, subset⟩ := takeFirst_subset takes
    have sincere := fits reply member
    refine ⟨⟨fun other left => fits other (subset left), fun _ => rfl⟩, ?_, ?_⟩
    · intro same
      rw [Reply.IsSincere, same] at sincere
      exact sincere rfl
    · intro response same
      rw [Reply.IsSincere, same] at sincere
      exact sincere

end SecretStore.Http
