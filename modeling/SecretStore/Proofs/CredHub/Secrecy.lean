import SecretStore.Proofs.CredHub.Twins

namespace SecretStore.CredHub

open Http

structure RevaluedResponse (response response' : Response) : Prop where
  status : response.status = response'.status
  reason : response.reason = response'.reason
  success : response.isSuccess = true →
    Reading.Alike Revalued (takeChunks [] response.body) (takeChunks [] response'.body)
  failure : response.isSuccess = false → response.body = response'.body

structure RevaluedReply (reply reply' : Reply) : Prop where
  meantFor : reply.meantFor = reply'.meantFor
  result : Alike RevaluedResponse reply.result reply'.result

theorem veiled_refl (exact : Prop) (s : Bytes) : Veiled exact s s := ⟨fun _ => rfl, Iff.rfl⟩

theorem RevaluedResponse.alike {response response' : Response} (revalued : RevaluedResponse response response') :
    response.Alike (Veiled False) response' where
  status := revalued.status
  reason := revalued.reason
  body := by
    cases success : response.isSuccess with
    | false =>
        rw [← revalued.failure success]
        exact takeChunks_alike_refl (veiled_refl False) [] response.body
    | true =>
        have reading := revalued.success success
        generalize takeChunks [] response.body = found at reading ⊢
        generalize takeChunks [] response'.body = found' at reading ⊢
        cases reading with
        | waiting => exact .waiting ..
        | read same =>
            cases same with
            | ok octets => exact .read (.ok ⟨False.elim, octets.empty_iff⟩)
            | error failure => exact .read (.error failure)

theorem RevaluedReply.alike {reply reply' : Reply} (revalued : RevaluedReply reply reply') :
    reply.Alike (Veiled False) reply' where
  meantFor := revalued.meantFor
  result := by
    obtain ⟨-, result⟩ := revalued
    generalize reply.result = found at result ⊢
    generalize reply'.result = found' at result ⊢
    cases result with
    | ok responses => exact .ok responses.alike
    | error failure => exact .error failure

theorem revalued_refl (reply : Reply) : RevaluedReply reply reply where
  meantFor := rfl
  result := by
    cases reply.result with
    | ok response =>
        have same (s : Bytes) : Revalued s s := .refl
        exact .ok ⟨rfl, rfl, fun _ => takeChunks_alike_refl same [] response.body, fun _ => rfl⟩
    | error failure => exact .error failure

theorem reply_alike_refl (reply : Reply) : reply.Alike (Veiled True) reply where
  meantFor := rfl
  result := by
    cases reply.result with
    | ok response => exact .ok ⟨rfl, rfl, takeChunks_alike_refl (veiled_refl True) [] response.body⟩
    | error failure => exact .error failure

namespace Session

def told (session : Session) : Command → Option (List KeyCursor.Reply)
  | .cursor id calls => (session.ask id calls).1
  | _ => none

def history (session : Session) : List Command → List Session
  | [] => []
  | command :: commands => session.run command :: (session.run command).history commands

def results (session : Session) : List Command → List (List Finished × Option (List KeyCursor.Reply))
  | [] => []
  | command :: commands =>
    ((session.run command).finished, session.told command) :: (session.run command).results commands

/-- The sessions agree in everything but results and bodies. -/
structure LooksAlike (replies : Reply → Reply → Prop) (session session' : Session) : Prop where
  lines : session.script.lines = session'.script.lines
  requests : session.script.requests.map Request.outline = session'.script.requests.map Request.outline
  finished : session.finished.map (·.id) = session'.finished.map (·.id)
  pending : session.running.map (·.id) = session'.running.map (·.id)
  inFlight : session.creates.inFlight = session'.creates.inFlight
  unused : List.Forall₂ replies session.script.replies session'.script.replies

variable {exact : Prop} {replies : Reply → Reply → Prop} {session session' : Session}

theorem Alike.looksAlike (alike : session.Alike exact replies session') : session.LooksAlike replies session' where
  lines := alike.script.lines
  requests := alike.script.requests
  finished := map_eq_of_related alike.finished fun _ _ pair => pair.id
  pending := map_eq_of_related alike.running fun _ _ pair => pair.id
  inFlight := alike.creates.inFlight
  unused := alike.script.replies

section

variable {commands commands' : List Command}
  (sound : ∀ reply reply', replies reply reply' → reply.Alike (Veiled exact) reply')

include sound

theorem Alike.history (alike : session.Alike exact replies session')
    (pairs : List.Forall₂ (Command.Alike replies) commands commands') :
    List.Forall₂ (LooksAlike replies) (session.history commands) (session'.history commands') := by
  induction pairs generalizing session session' with
  | nil => exact .nil
  | cons pair _ ih =>
      have after := alike.run sound pair
      exact .cons after.looksAlike (ih after)

theorem Alike.results (holds : exact) (alike : session.Alike exact replies session')
    (pairs : List.Forall₂ (Command.Alike replies) commands commands') :
    session.results commands = session'.results commands' := by
  induction pairs generalizing session session' with
  | nil => rfl
  | @cons command command' _ _ pair _ ih =>
      have after := alike.run sound pair
      have finished : (session.run command).finished = (session'.run command').finished := by
        refine List.forall₂_eq_eq_eq ▸ after.finished.imp fun f f' same => ?_
        obtain ⟨id, token, outcome⟩ := f
        obtain ⟨rfl, rfl, agrees⟩ := same
        exact congrArg _ (agrees.same holds)
      have told : session.told command = session'.told command' := by
        cases pair with
        | cursor id calls => exact (alike.ask_same holds id calls).1
        | _ => rfl
      rw [Session.results, Session.results, finished, told, ih after]

end

end Session

/-- Sessions that differ only in values have the same log lines, requests and times. If they differ only in written
values, the results are the same too. -/
theorem values_unseen {settings : Settings} {queued queued' : List Reply} {commands commands' : List Command}
    (replies : List.Forall₂ RevaluedReply queued queued')
    (pairs : List.Forall₂ (Command.Alike RevaluedReply) commands commands') :
    List.Forall₂ (Session.LooksAlike RevaluedReply) ((Session.ofSettings settings queued).history commands)
        ((Session.ofSettings settings queued').history commands') ∧
      (queued = queued' → List.Forall₂ (Command.Alike Eq) commands commands' →
        List.Forall₂ (Session.LooksAlike Eq) ((Session.ofSettings settings queued).history commands)
            ((Session.ofSettings settings queued').history commands') ∧
          (Session.ofSettings settings queued).results commands =
            (Session.ofSettings settings queued').results commands') := by
  refine ⟨(Session.Alike.ofSettings settings replies).history (fun _ _ pair => pair.alike) pairs, ?_⟩
  rintro rfl written
  have sound (reply reply' : Reply) (same : reply = reply') : reply.Alike (Veiled True) reply' :=
    same ▸ reply_alike_refl reply
  have start : (Session.ofSettings settings queued).Alike True Eq (Session.ofSettings settings queued) :=
    .ofSettings settings (List.forall₂_refl queued)
  exact ⟨start.history sound written, start.results sound trivial written⟩

section Stocked

open Json

def spelledName (name : String) : Bytes := Utf8.encode (name.toList.flatMap writeChar)

def oneVersion (value : Bytes) : Bytes :=
  braced [membered (spelledName "data") (bracketed [braced [membered (spelledName "value") (quoted value)]])]

def answersOf (value : Bytes) : List Reply :=
  [⟨none, .ok (.ofBytes 404 "Not Found" [])⟩, ⟨none, .ok (.ofBytes 200 "OK" [])⟩,
    ⟨none, .ok (.ofBytes 200 "OK" (oneVersion value))⟩]

def writeAndRead (value : Bytes) : List Command :=
  [.call "write" (.create "k" value) "" [], .call "read" (.get "k") "" []]

theorem heads_name (name : String) : Heads name (quoted (spelledName name) ++ [colon]) :=
  .head blank_nil (spells_write name.toList) blank_nil blank_nil

theorem replaced_oneVersion {old new : Bytes} (contents : Unquoted old) (contents' : Unquoted new) :
    Replaced (oneVersion old) (oneVersion new) := by
  have place := BeforeValue.before blank_nil .nil (heads_name "data") .nil blank_nil .nil (heads_name "value")
  have whole (value : Bytes) : oneVersion value = [] ++ octet '\x7b' :: ([] ++
      ((quoted (spelledName "data") ++ [colon]) ++ octet '[' :: ([] ++ ([] ++ octet '\x7b' :: ([] ++
        (quoted (spelledName "value") ++ [colon])))))) ++
      (quoted value ++ [octet '\x7d', octet ']', octet '\x7d']) := by
    simp [oneVersion, braced, bracketed, membered, separated]
  rw [whole, whole]
  exact .value place contents contents'

theorem revalued_answersOf {old new : Bytes} (contents : Unquoted old) (contents' : Unquoted new) :
    List.Forall₂ RevaluedReply (answersOf old) (answersOf new) := by
  refine .cons (revalued_refl _) (.cons (revalued_refl _) (.cons ⟨rfl, .ok ⟨rfl, rfl, fun _ => ?_, nofun⟩⟩ .nil))
  exact .read (.ok (.single (replaced_oneVersion contents contents')))

theorem alike_writeAndRead {replies : Reply → Reply → Prop} (value value' : Bytes) :
    List.Forall₂ (Command.Alike replies) (writeAndRead value) (writeAndRead value') :=
  .cons (.call _ _ (.create _ _ _) .nil) (.cons (.call _ _ (.same _) .nil) .nil)

theorem values_unseen_undecodable :
    List.Forall₂ RevaluedReply (answersOf (Utf8.bytes "x")) (answersOf (Utf8.bytes "Base64:!")) ∧
      List.Forall₂ (Command.Alike RevaluedReply) (writeAndRead [1]) (writeAndRead [2, 255]) ∧
      List.Forall₂ (Session.LooksAlike RevaluedReply)
        ((Session.ofSettings {} (answersOf (Utf8.bytes "x"))).history (writeAndRead [1]))
        ((Session.ofSettings {} (answersOf (Utf8.bytes "Base64:!"))).history (writeAndRead [2, 255])) ∧
      (Session.ofSettings {} (answersOf (Utf8.bytes "x"))).results (writeAndRead [1]) =
        (Session.ofSettings {} (answersOf (Utf8.bytes "x"))).results (writeAndRead [2, 255]) := by
  have plain : Unquoted (Utf8.bytes "x") := unquoted_of_plain (by decide +kernel)
  have undecodable : Unquoted (Utf8.bytes "Base64:!") := unquoted_of_plain (by decide +kernel)
  have replies := revalued_answersOf plain undecodable
  have commands : List.Forall₂ (Command.Alike RevaluedReply) (writeAndRead [1]) (writeAndRead [2, 255]) :=
    alike_writeAndRead [1] [2, 255]
  exact ⟨replies, commands, (values_unseen replies commands).1,
    ((values_unseen (revalued_answersOf plain plain) commands).2 rfl (alike_writeAndRead [1] [2, 255])).2⟩

end Stocked

end SecretStore.CredHub
