import SecretStore.CredHub.Operation
import SecretStore.Proofs.CredHub.Value
import SecretStore.Proofs.Http.Accounts

namespace SecretStore.CredHub

open Http Http.Action

variable {α β : Type} {account : Account} {settings : Settings} {key : String}

def warning (operation : String) (status : Nat) : Log.Line :=
  .warn s!"credhub: failed to {operation} (status: {status})"

inductive Transcribes (response : Response) : String → Prop where
  | whole {pieces : List Bytes} : response.body = pieces.map .octets →
      Transcribes response (Utf8.lossy pieces.flatten)
  | broken {pieces : List Bytes} {failure : Failure} {rest : List Chunk} : failure ≠ .cancelled →
      response.body = pieces.map .octets ++ .failure failure :: rest → Transcribes response ""

/-- The outcomes of an operation, given the responses and the warnings on its record. -/
inductive Fits (account : Account) : Except Failure α → Prop where
  | refused {operation : String} {response : Response} {text : String} : response ∈ account.heard →
      ¬ response.Is2xx → Transcribes response text → account.warned = [warning operation response.status] →
      Fits account (.error (.remote operation response.status response.reason text))
  | unhealthy {response : Response} {pieces : List Bytes} : response ∈ account.heard → response.Is2xx →
      response.body = pieces.map .octets → account.IsQuiet →
      Fits account (.error (.remote healthOperation response.status response.reason (Utf8.lossy pieces.flatten)))
  | passedOn {response : Response} {failure : Failure} : response ∈ account.heard →
      .failure failure ∈ response.body → account.IsQuiet → Fits account (.error failure)
  | plain {result : Except Failure α} :
      (∀ operation status reason text, result ≠ .error (.remote operation status reason text)) → account.IsQuiet →
      Fits account result

theorem fits_ok {value : α} (quiet : account.IsQuiet) : Fits account (.ok value) :=
  .plain (fun _ _ _ _ same => by cases same) quiet

theorem Fits.quiet {value : α} (fits : Fits account (.ok value)) : account.IsQuiet := by
  cases fits with
  | plain _ quiet => exact quiet

theorem Fits.cast {failure : Failure} (fits : Fits account (.error failure : Except Failure α)) :
    Fits account (.error failure : Except Failure β) := by
  cases fits with
  | refused heard other transcribes warned => exact .refused heard other transcribes warned
  | unhealthy heard success whole quiet => exact .unhealthy heard success whole quiet
  | passedOn heard member quiet => exact .passedOn heard member quiet
  | plain other quiet =>
      refine .plain (fun operation status reason text same => ?_) quiet
      cases same
      exact other operation status reason text rfl

theorem Fits.map {result : Except Failure α} (fits : Fits account result) (f : α → β) :
    Fits account (result.map f) := by
  cases result with
  | ok value => exact fits_ok fits.quiet
  | error failure => exact fits.cast

theorem Fits.quiet_absent {name : String} (fits : Fits account (.error (.notFound name) : Except Failure α)) :
    account.IsQuiet := by
  cases fits with
  | passedOn _ _ quiet => exact quiet
  | plain _ quiet => exact quiet

theorem fits_transport {failure : Failure} (quiet : account.IsQuiet) (outside : failure.isTransport = true) :
    Fits account (.error failure : Except Failure α) := by
  refine .plain (fun operation status reason text same => ?_) quiet
  cases same
  cases outside

theorem fits_cancelled (quiet : account.IsQuiet) : Fits account (.error .cancelled : Except Failure α) :=
  fits_transport quiet rfl

theorem fits_unread {cancelled : Bool} {response : Response} {failure : Failure} (quiet : account.IsQuiet)
    (heard : response ∈ account.heard) (reading : readOn cancelled [] response.body = .read (.error failure)) :
    Fits account (.error failure : Except Failure α) := by
  rcases readOn_eq_error_iff.1 reading with ⟨-, rfl⟩ | ⟨-, pieces, rest, body⟩
  · exact fits_cancelled quiet
  · exact .passedOn heard (by rw [body]; simp) quiet

theorem decode_ne_remote (reader : Json.Reader α) (octets : Bytes) (operation : String) (status : Nat)
    (reason text : String) : decode reader octets ≠ .error (.remote operation status reason text) := by
  rw [decode]
  cases reader.whole octets <;> simp [Except.mapError]

theorem soleVersion_ne_remote (key : String) (texts : List String) (operation : String) (status : Nat)
    (reason text : String) : soleVersion key texts ≠ .error (.remote operation status reason text) := by
  match texts with
  | [] => simp [soleVersion]
  | [first] =>
      intro same
      obtain ⟨cause, wrong⟩ := decodeValue_error same
      cases wrong
  | first :: second :: more => simp [soleVersion]

theorem reports_readJson {reader : Json.Reader α} {response : Response} (quiet : account.IsQuiet)
    (heard : response ∈ account.heard) (next : α → Except Failure β)
    (plain : ∀ value operation status reason text, next value ≠ .error (.remote operation status reason text)) :
    (readJson reader response >>= fun value => ofResult (next value) : Action β).run.Reports Fits account := by
  refine ⟨quiet, fun cancelled result reading => ?_⟩
  cases result with
  | error failure => exact fits_unread quiet heard reading
  | ok octets =>
      have decodes := decode_ne_remote reader octets
      change (ofResult (decode reader octets) >>= fun value => ofResult (next value) : Action β).run.Reports
        Fits account
      generalize decode reader octets = decoded at decodes ⊢
      cases decoded with
      | ok value => exact Fits.plain (plain value) quiet
      | error failure =>
          refine Fits.plain (fun operation status reason text same => ?_) quiet
          cases same
          exact decodes operation status reason text rfl

theorem reports_refuse (operation : String) {response : Response} (quiet : account.IsQuiet)
    (heard : response ∈ account.heard) (other : ¬ response.Is2xx) :
    (refuse operation response : Action α).run.Reports
      (fun account result => ∃ failure, result = .error failure ∧ Fits account result) account := by
  have warns {text : String} (transcribes : Transcribes response text) :
      Fits (account.record (.logs (warning operation response.status)))
        (.error (.remote operation response.status response.reason text) : Except Failure α) := by
    refine .refused heard other transcribes ?_
    change account.warned ++ [warning operation response.status] = _
    rw [quiet, List.nil_append]
  refine reports_bind (reports_bind ⟨quiet, fun cancelled result reading => ?_⟩)
  cases result with
  | ok octets =>
      obtain ⟨-, pieces, whole, rfl⟩ := readOn_eq_ok_iff.1 reading
      exact ⟨quiet, _, rfl, warns (.whole whole)⟩
  | error failure =>
      cases failure with
      | cancelled => exact ⟨_, rfl, fits_cancelled quiet⟩
      -- Any other failure leaves no text, but it is a refusal all the same.
      | _ =>
          rcases readOn_eq_error_iff.1 reading with ⟨-, same⟩ | ⟨-, pieces, rest, body⟩
          · cases same
          · exact ⟨quiet, _, rfl, warns (.broken (fun same => by cases same) body)⟩

theorem reports_refuse_bind (operation : String) {response : Response} (quiet : account.IsQuiet)
    (heard : response ∈ account.heard) (other : ¬ response.Is2xx) (rest : α → Action β) :
    (refuse operation response >>= rest).run.Reports Fits account := by
  refine reports_bind ((reports_refuse operation quiet heard other).imp ?_)
  rintro account result ⟨failure, rfl, fits⟩
  exact fits.cast

theorem not_is2xx {response : Response} (failed : response.isSuccess = false) : ¬ response.Is2xx := by
  intro success
  rw [Response.isSuccess_iff.2 success] at failed
  cases failed

theorem reports_put (settings : Settings) (key : String) (value : Bytes) (quiet : account.IsQuiet) :
    (put settings key value).run.Reports Fits account := by
  refine reports_bind (reports_request quiet (fun _ => fits_transport quiet) fun response => ?_)
  cases success : response.isSuccess with
  | true =>
      simp only [success, Bool.not_true, Bool.false_eq_true, ↓reduceIte]
      exact fits_ok quiet
  | false =>
      simp only [success, Bool.not_false, ↓reduceIte]
      refine (reports_refuse putOperation (quiet.hears _ _) (account.heard_record ..) (not_is2xx success)).imp ?_
      exact fun account result ⟨_, _, fits⟩ => fits

theorem reports_get (settings : Settings) (key : String) (quiet : account.IsQuiet) :
    (get settings key).run.Reports Fits account := by
  refine reports_bind (reports_request quiet (fun _ => fits_transport quiet) fun response => ?_)
  have heard := account.heard_record (getRequest (settings.nameOf key)) response
  have quiet := quiet.hears (getRequest (settings.nameOf key)) response
  cases absent : response.isNotFound with
  | true =>
      simp only [absent, ↓reduceIte]
      exact .plain (fun _ _ _ _ same => by cases same) quiet
  | false =>
      cases success : response.isSuccess with
      | false =>
          simp only [absent, success, Bool.not_false, Bool.false_eq_true, ↓reduceIte]
          exact reports_refuse_bind getOperation quiet heard (not_is2xx success) _
      | true =>
          simp only [absent, success, Bool.not_true, Bool.false_eq_true, ↓reduceIte]
          exact reports_readJson quiet heard _ (soleVersion_ne_remote key)

theorem reports_set (settings : Settings) (key : String) (value : Bytes) (quiet : account.IsQuiet) :
    (set settings key value).run.Reports Fits account :=
  reports_bind ⟨quiet, reports_put settings key value quiet⟩

theorem reports_delete (settings : Settings) (key : String) (quiet : account.IsQuiet) :
    (delete settings key).run.Reports Fits account := by
  refine reports_bind ⟨quiet, reports_bind (reports_request quiet (fun _ => fits_transport quiet) fun response => ?_)⟩
  have heard := account.heard_record (deleteRequest (settings.nameOf key)) response
  have quiet := quiet.hears (deleteRequest (settings.nameOf key)) response
  cases absent : response.isNotFound with
  | true =>
      simp only [absent, ↓reduceIte]
      exact .plain (fun _ _ _ _ same => by cases same) quiet
  | false =>
      cases success : response.isSuccess with
      | true =>
          simp only [absent, success, Bool.not_true, Bool.false_eq_true, ↓reduceIte]
          exact fits_ok quiet
      | false =>
          simp only [absent, success, Bool.not_false, Bool.false_eq_true, ↓reduceIte]
          refine (reports_refuse deleteOperation quiet heard (not_is2xx success)).imp ?_
          exact fun account result ⟨_, _, fits⟩ => fits

theorem reports_list (settings : Settings) (quiet : account.IsQuiet) :
    (list settings).run.Reports Fits account := by
  refine reports_bind (reports_request quiet (fun _ => fits_transport quiet) fun response => ?_)
  have heard := account.heard_record (listRequest (settings.keyspace ++ "/")) response
  have quiet := quiet.hears (listRequest (settings.keyspace ++ "/")) response
  cases success : response.isSuccess with
  | false =>
      simp only [success, Bool.not_false, ↓reduceIte]
      exact reports_refuse_bind listOperation quiet heard (not_is2xx success) _
  | true =>
      simp only [success, Bool.not_true, Bool.false_eq_true, ↓reduceIte]
      exact reports_readJson quiet heard (fun names => .ok (List.map (bareKey (settings.keyspace ++ "/")) names))
        (fun _ _ _ _ _ same => by cases same)

theorem reports_status (settings : Settings) (quiet : account.IsQuiet) :
    (status settings).run.Reports Fits account := by
  refine reports_bind (reports_request quiet (fun _ => fits_transport quiet) fun response => ?_)
  have heard := account.heard_record healthRequest response
  have quiet := quiet.hears healthRequest response
  cases success : response.isSuccess with
  | false =>
      simp only [success, Bool.not_false, ↓reduceIte]
      exact reports_refuse_bind healthOperation quiet heard (not_is2xx success) _
  | true =>
      simp only [success, Bool.not_true, Bool.false_eq_true, ↓reduceIte]
      refine reports_bind ⟨quiet, fun cancelled result reading => ?_⟩
      cases result with
      | error failure => exact fits_unread quiet heard reading
      | ok octets =>
          obtain ⟨-, pieces, whole, rfl⟩ := readOn_eq_ok_iff.1 reading
          have decodes := decode_ne_remote healthReader ([] ++ pieces.flatten)
          refine reports_bind ?_
          generalize decode healthReader ([] ++ pieces.flatten) = decoded at decodes ⊢
          cases decoded with
          | error failure =>
              refine .plain (fun operation status reason text same => ?_) quiet
              cases same
              exact decodes operation status reason text rfl
          | ok found =>
              change (if found ≠ healthy then _ else _ : Action Unit).run.Reports Fits _
              by_cases up : found = healthy
              · simp only [up, ne_eq, not_true_eq_false, ↓reduceIte]
                exact fits_ok quiet
              · simp only [up, ne_eq, not_false_eq_true, ↓reduceIte]
                exact .unhealthy heard (Response.isSuccess_iff.1 success) whole quiet

theorem reports_createWork (settings : Settings) (key : String) (value : Bytes) (quiet : account.IsQuiet) :
    (createWork settings key value).Reports Fits account := by
  refine Program.Reports.bind ((reports_get settings key quiet).imp ?_)
  intro account found fits
  cases found with
  | ok old => exact .plain (fun _ _ _ _ same => by cases same) fits.quiet
  | error failure =>
      cases failure with
      -- The only failure that does not end the creation, and nothing has been warned of then.
      | notFound name => exact reports_put settings key value fits.quiet_absent
      | _ => exact fits.cast

theorem reports_program (settings : Settings) (call : Call) :
    (program settings call).run.Reports Fits .empty := by
  have then' {α : Type} {action : Action α} {answer : α → Answer} (reports : action.run.Reports Fits .empty) :
      (action >>= fun value => (pure (answer value) : Action Answer)).run.Reports Fits .empty := by
    refine reports_bind (reports.imp ?_)
    intro account result fits
    cases result with
    | ok value => exact fits_ok fits.quiet
    | error failure => exact fits.cast
  have quiet := Account.isQuiet_empty
  cases call with
  | status => exact then' (reports_status settings quiet)
  | create key value =>
      have creates : (ExceptT.mk (createWork settings key value) : Action Unit).run.Reports Fits .empty :=
        reports_createWork settings key value quiet
      exact reports_bind ⟨quiet, then' creates⟩
  | set key value => exact then' (reports_set settings key value quiet)
  | get key => exact then' (reports_get settings key quiet)
  | delete key => exact then' (reports_delete settings key quiet)
  | list => exact then' (reports_list settings quiet)
  | close => exact fits_ok quiet
  | name => exact fits_ok quiet

end SecretStore.CredHub
