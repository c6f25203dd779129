import SecretStore.Http.Script
import SecretStore.Proofs.Http.Contract
import SecretStore.Proofs.Related

namespace SecretStore.Http

variable {α β : Type}

inductive Alike (related : α → α → Prop) : Except Failure α → Except Failure α → Prop where
  | ok {a b : α} : related a b → Alike related (.ok a) (.ok b)
  | error (failure : Failure) : Alike related (.error failure) (.error failure)

inductive Reading.Alike (octets : Bytes → Bytes → Prop) : Reading → Reading → Prop where
  | read {result result' : Except Failure Bytes} : Http.Alike octets result result' →
      Alike octets (.read result) (.read result')
  | waiting (taken taken' : Bytes) (rest rest' : List Chunk) :
      Alike octets (.waiting taken rest) (.waiting taken' rest')

structure Response.Alike (octets : Bytes → Bytes → Prop) (response response' : Response) : Prop where
  status : response.status = response'.status
  reason : response.reason = response'.reason
  body : Reading.Alike octets (takeChunks [] response.body) (takeChunks [] response'.body)

structure Outline where
  method : Method
  path : String
  hasBody : Bool
  deriving DecidableEq, Repr

def Request.outline (request : Request) : Outline := ⟨request.method, request.path, request.body.isSome⟩

theorem title_of_outline {request request' : Request} (same : request.outline = request'.outline) :
    request.title = request'.title := by
  simp only [Request.outline, Outline.mk.injEq] at same
  rw [Request.title, Request.title, same.1, same.2.1]

variable {octets : Bytes → Bytes → Prop}

section

variable {response response' : Response}

theorem Response.Alike.isSuccess (alike : response.Alike octets response') :
    response.isSuccess = response'.isSuccess := by
  rw [Response.isSuccess, Response.isSuccess, alike.status]

theorem Response.Alike.isNotFound (alike : response.Alike octets response') :
    response.isNotFound = response'.isNotFound := by
  rw [Response.isNotFound, Response.isNotFound, alike.status]

end

theorem takeChunks_alike_refl (refl : ∀ s, octets s s) (taken : Bytes) (body : List Chunk) :
    Reading.Alike octets (takeChunks taken body) (takeChunks taken body) := by
  cases takeChunks taken body with
  | read result =>
      cases result with
      | ok s => exact .read (.ok (refl s))
      | error failure => exact .read (.error failure)
  | waiting left rest => exact .waiting left left rest rest

namespace Program

inductive Alike (octets : Bytes → Bytes → Prop) (results : α → α → Prop) : Program α → Program α → Prop where
  | done {a b : α} : results a b → Alike octets results (.done a) (.done b)
  | log (line : Log.Line) {next next' : Program α} : Alike octets results next next' →
      Alike octets results (.log line next) (.log line next')
  | send {request request' : Request} {next next' : Except Failure Response → Program α} :
      request.outline = request'.outline →
      (∀ result result', Http.Alike (Response.Alike octets) result result' →
        Alike octets results (next result) (next' result')) →
      Alike octets results (.send request next) (.send request' next')
  | await {request request' : Request} {next next' : Except Failure Response → Program α} :
      request.outline = request'.outline →
      (∀ result result', Http.Alike (Response.Alike octets) result result' →
        Alike octets results (next result) (next' result')) →
      Alike octets results (.await request next) (.await request' next')
  | read {taken taken' : Bytes} {body body' : List Chunk} {next next' : Except Failure Bytes → Program α} :
      Reading.Alike octets (takeChunks taken body) (takeChunks taken' body') →
      (∀ result result', Http.Alike octets result result' → Alike octets results (next result) (next' result')) →
      Alike octets results (.read taken body next) (.read taken' body' next')

variable {results : α → α → Prop} {program program' : Program α}

theorem Alike.bind {results' : β → β → Prop} {next next' : α → Program β}
    (alike : program.Alike octets results program')
    (onward : ∀ a b, results a b → (next a).Alike octets results' (next' b)) :
    (program >>= next).Alike octets results' (program' >>= next') := by
  change (program.bind next).Alike octets results' (program'.bind next')
  induction alike with
  | done related => exact onward _ _ related
  | log line _ ih => exact .log line ih
  | send same _ ih => exact .send same ih
  | await same _ ih => exact .await same ih
  | read body _ ih => exact .read body ih

theorem Alike.result? (alike : program.Alike octets results program') :
    Option.Rel results program.result? program'.result? := by
  cases alike with
  | done related => exact .some related
  | _ => exact .none

end Program

namespace Action

theorem alike_bind {action action' : Action α} {next next' : α → Action β} {related : α → α → Prop}
    {results : Except Failure β → Except Failure β → Prop}
    (failures : ∀ failure, results (.error failure) (.error failure))
    (alike : action.run.Alike octets (Alike related) action'.run)
    (onward : ∀ a b, related a b → (next a).run.Alike octets results (next' b).run) :
    (action >>= next).run.Alike octets results (action' >>= next').run := by
  refine Program.Alike.bind alike fun result result' same => ?_
  cases same with
  | ok related => exact onward _ _ related
  | error failure => exact .done (failures failure)

theorem alike_request {request request' : Request} (same : request.outline = request'.outline) :
    (Action.request request).run.Alike octets (Alike (Response.Alike octets)) (Action.request request').run :=
  .send same fun _ _ alike => .done alike

theorem alike_log (line : Log.Line) :
    (Action.log line).run.Alike octets (Alike fun _ _ => True) (Action.log line).run :=
  .log line (.done (.ok trivial))

theorem alike_readBody {response response' : Response} (alike : response.Alike octets response') :
    (readBody response).run.Alike octets (Alike octets) (readBody response').run :=
  .read alike.body fun _ _ same => .done same

end Action

structure Reply.Alike (octets : Bytes → Bytes → Prop) (reply reply' : Reply) : Prop where
  meantFor : reply.meantFor = reply'.meantFor
  result : Http.Alike (Response.Alike octets) reply.result reply'.result

structure Script.Alike (replies : Reply → Reply → Prop) (script script' : Script) : Prop where
  cancelled : script.cancelled = script'.cancelled
  replies : List.Forall₂ replies script.replies script'.replies
  requests : script.requests.map Request.outline = script'.requests.map Request.outline
  lines : script.lines = script'.lines
  taken : script.taken = script'.taken

namespace Script

variable {replies : Reply → Reply → Prop} {script script' : Script}

theorem takeFirst_related {related : α → α → Prop} {passes passes' : α → Bool}
    (same : ∀ a b, related a b → passes a = passes' b) {first second : List α}
    (pairs : List.Forall₂ related first second) :
    Option.Rel (fun found found' => related found.1 found'.1 ∧ List.Forall₂ related found.2 found'.2)
      (takeFirst passes first) (takeFirst passes' second) := by
  induction pairs with
  | nil => exact .none
  | @cons a b rest rest' pair pairs ih =>
      rw [takeFirst, takeFirst, same a b pair]
      cases passes' b with
      | true => exact .some ⟨pair, pairs⟩
      | false =>
          simp only [Bool.false_eq_true, ↓reduceIte]
          exact map_related ih fun found found' same => ⟨same.1, .cons pair same.2⟩

namespace Alike

theorem isCancelled (alike : script.Alike replies script') (token : Token) :
    script.isCancelled token = script'.isCancelled token := by
  rw [Script.isCancelled, Script.isCancelled, alike.cancelled]

theorem log (alike : script.Alike replies script') (line : Log.Line) :
    (host.log line script).Alike replies (host.log line script') where
  cancelled := alike.cancelled
  replies := alike.replies
  requests := alike.requests
  lines := congrArg (· ++ [line]) alike.lines
  taken := alike.taken

theorem cancel (alike : script.Alike replies script') (token : Token) :
    (script.cancel token).Alike replies (script'.cancel token) where
  cancelled := congrArg (token :: ·) alike.cancelled
  replies := alike.replies
  requests := alike.requests
  lines := alike.lines
  taken := alike.taken

theorem cleared (alike : script.Alike replies script') : script.cleared.Alike replies script'.cleared where
  cancelled := alike.cancelled
  replies := alike.replies
  requests := rfl
  lines := rfl
  taken := alike.taken

theorem queued (alike : script.Alike replies script') {more more' : List Reply}
    (pairs : List.Forall₂ replies more more') :
    Script.Alike replies { script with replies := script.replies ++ more }
      { script' with replies := script'.replies ++ more' } where
  cancelled := alike.cancelled
  replies := List.rel_append alike.replies pairs
  requests := alike.requests
  lines := alike.lines
  taken := alike.taken

theorem send (alike : script.Alike replies script') (token : Token) {request request' : Request}
    (same : request.outline = request'.outline) :
    (Script.send token request script).1 = (Script.send token request' script').1 ∧
      (Script.send token request script).2.Alike replies (Script.send token request' script').2 := by
  rw [Script.send, Script.send, alike.isCancelled]
  cases script'.isCancelled token with
  | true => exact ⟨rfl, alike⟩
  | false =>
      refine ⟨rfl, alike.cancelled, alike.replies, ?_, alike.lines, alike.taken⟩
      simp only [Bool.false_eq_true, ↓reduceIte, List.map_append, alike.requests, List.map_cons, same, List.map_nil]

variable (sound : ∀ reply reply', replies reply reply' → reply.Alike octets reply')

include sound

theorem receive (alike : script.Alike replies script') (token : Token) {request request' : Request}
    (same : request.outline = request'.outline) :
    Option.Rel
      (fun found found' => Http.Alike (Response.Alike octets) found.1 found'.1 ∧ found.2.Alike replies found'.2)
      (Script.receive token request script) (Script.receive token request' script') := by
  rw [Script.receive, Script.receive, alike.isCancelled]
  cases script'.isCancelled token with
  | true => exact .some ⟨.error .cancelled, alike⟩
  | false =>
      simp only [Bool.false_eq_true, ↓reduceIte]
      have suits (reply reply' : Reply) (pair : replies reply reply') :
          reply.suits request = reply'.suits request' := by
        rw [Reply.suits, Reply.suits, (sound _ _ pair).meantFor, title_of_outline same]
      refine map_related (takeFirst_related suits alike.replies) fun found found' taken => ?_
      exact ⟨(sound _ _ taken.1).result, alike.cancelled, taken.2, alike.requests, alike.lines,
        congrArg (· + 1) alike.taken⟩

theorem run {results : α → α → Prop} {program program' : Program α} (alike : script.Alike replies script')
    (programs : program.Alike octets results program') (token : Token) :
    (Program.run host token program script).1.Alike octets results (Program.run host token program' script').1 ∧
      (Program.run host token program script).2.Alike replies (Program.run host token program' script').2 := by
  induction programs generalizing script script' with
  | done related => exact ⟨.done related, alike⟩
  | log line _ ih => exact ih (alike.log line)
  | @send request request' next next' same onward ih =>
      obtain ⟨result, sent⟩ := alike.send token same
      simp only [Program.run, show host.send = Script.send from rfl, show host.receive = Script.receive from rfl]
      generalize Script.send token request script = sending at result sent ⊢
      generalize Script.send token request' script' = sending' at result sent ⊢
      obtain ⟨outcome, after⟩ := sending
      obtain ⟨outcome', after'⟩ := sending'
      dsimp only at result sent
      subst result
      cases outcome with
      | error failure => exact ih _ _ (.error failure) sent
      | ok _ =>
          have received := sent.receive sound token same
          dsimp only
          generalize Script.receive token request after = found at received ⊢
          generalize Script.receive token request' after' = found' at received ⊢
          cases received with
          | none => exact ⟨.await same onward, sent⟩
          | some pair => exact ih _ _ pair.1 pair.2
  | @await request request' next next' same onward ih =>
      have received := alike.receive sound token same
      simp only [Program.run, show host.receive = Script.receive from rfl]
      generalize Script.receive token request script = found at received ⊢
      generalize Script.receive token request' script' = found' at received ⊢
      cases received with
      | none => exact ⟨.await same onward, alike⟩
      | some pair => exact ih _ _ pair.1 pair.2
  | @read taken taken' body body' next next' readings onward ih =>
      simp only [Program.run, show host.isCancelled = Script.isCancelled from rfl, alike.isCancelled]
      cases script'.isCancelled token with
      | true => exact ih _ _ (.error .cancelled) alike
      | false =>
          simp only [readOn, Bool.false_eq_true, ↓reduceIte]
          generalize reading : takeChunks taken body = found at readings ⊢
          generalize reading' : takeChunks taken' body' = found' at readings ⊢
          cases readings with
          | read same => exact ih _ _ same alike
          | waiting left left' rest rest' =>
              refine ⟨.read ?_ onward, alike⟩
              rw [Program.takeChunks_waiting reading, Program.takeChunks_waiting reading']
              exact .waiting left left' rest rest'

end Alike

end Script

end SecretStore.Http
