import SecretStore.CredHub.Operation
import SecretStore.Proofs.Http.Contract

namespace SecretStore.CredHub

open Http Http.Action

variable {K α : Type} {contract : Contract K} {settings : Settings} {key : String} {known : K}

theorem meets_refuse {post : K → Except Failure α → Prop} (operation : String) (response : Response)
    (cancelled : post known (.error .cancelled))
    (remote : ∀ body, post known (.error (.remote operation response.status response.reason body))) :
    (refuse operation response : Action α).run.Meets contract post known := by
  refine meets_bind ?_
  intro stopped result reading
  cases result with
  | ok octets => exact remote (Utf8.lossy octets)
  | error failure =>
      cases failure with
      | cancelled => exact cancelled
      | _ => exact remote ""

theorem meets_put {value : Bytes} {post : K → Except Failure Unit → Prop}
    (permitted : contract.permits known
      (putRequest (settings.nameOf key) (encodeValue value settings.forceBase64)))
    (failing : ∀ failure later, failure.isTransport = true → post later (.error failure))
    (remote : ∀ later status reason body, post later (.error (.remote putOperation status reason body)))
    (written : ∀ response,
      contract.answers (putRequest (settings.nameOf key) (encodeValue value settings.forceBase64))
        response → response.isSuccess = true →
      post (contract.learn known
        (putRequest (settings.nameOf key) (encodeValue value settings.forceBase64)) response) (.ok ())) :
    (put settings key value).run.Meets contract post known := by
  apply meets_bind
  apply meets_request permitted failing
  intro response answers
  cases success : response.isSuccess with
  | true =>
      simp only [success, Bool.not_true, Bool.false_eq_true, ↓reduceIte]
      exact written response answers success
  | false =>
      simp only [success, Bool.not_false, ↓reduceIte]
      exact meets_refuse putOperation response (failing .cancelled _ rfl) (remote _ _ _)

theorem ofResult_bind {β : Type} (result : Except Failure α) (next : α → Except Failure β) :
    (ofResult result >>= fun value => ofResult (next value)) = ofResult (result >>= next) := by
  cases result <;> rfl

def foundIn (key : String) (octets : Bytes) : Except Failure Bytes :=
  decode versionsReader octets >>= soleVersion key

theorem meets_get {post : K → Except Failure Bytes → Prop}
    (permitted : contract.permits known (getRequest (settings.nameOf key)))
    (failing : ∀ failure later, failure.isTransport = true → post later (.error failure))
    (remote : ∀ later status reason body, post later (.error (.remote getOperation status reason body)))
    (missing : ∀ response, contract.answers (getRequest (settings.nameOf key)) response →
      response.isNotFound = true →
      post (contract.learn known (getRequest (settings.nameOf key)) response) (.error (.notFound key)))
    (found : ∀ response cancelled result,
      contract.answers (getRequest (settings.nameOf key)) response → response.isSuccess = true →
      readOn cancelled [] response.body = .read result →
      post (contract.learn known (getRequest (settings.nameOf key)) response)
        (result >>= foundIn key)) :
    (get settings key).run.Meets contract post known := by
  apply meets_bind
  apply meets_request permitted failing
  intro response answers
  cases absent : response.isNotFound with
  | true =>
      simp only [absent, ↓reduceIte]
      exact missing response answers absent
  | false =>
      cases success : response.isSuccess with
      | false =>
          simp only [absent, success, Bool.not_false, Bool.false_eq_true, ↓reduceIte]
          exact meets_bind ((meets_refuse getOperation response (failing .cancelled _ rfl)
            (remote _ _ _)))
      | true =>
          simp only [absent, success, Bool.not_true, Bool.false_eq_true, ↓reduceIte]
          intro cancelled result reading
          have read := found response cancelled result answers success reading
          cases result with
          | error failure => exact read
          | ok octets =>
              change Program.Meets contract post
                ((ofResult (decode versionsReader octets) >>= fun texts =>
                  ofResult (soleVersion key texts) : Action Bytes).run) _
              rw [ofResult_bind]
              exact read

theorem isUnasked_refuse (operation : String) (response : Response) :
    (refuse operation response : Action α).run.IsUnasked := by
  intro result
  cases result with
  | ok octets => trivial
  | error failure => cases failure <;> trivial

theorem isUnasked_readJson (reader : Json.Reader α) (response : Response) :
    (readJson reader response).run.IsUnasked := by
  refine isUnasked_bind (fun _ => trivial) ?_
  intro octets
  trivial

theorem isUnasked_put (settings : Settings) (key : String) (value : Bytes) :
    (put settings key value).run.IsUnasked := by
  refine isUnasked_bind (fun _ => trivial) ?_
  intro response
  cases response.isSuccess with
  | true => trivial
  | false => exact isUnasked_refuse putOperation response

theorem isUnasked_get (settings : Settings) (key : String) : (get settings key).run.IsUnasked := by
  have decoded (response : Response) : (readJson versionsReader response >>= fun texts =>
      ofResult (soleVersion key texts) : Action Bytes).run.IsUnasked :=
    isUnasked_bind (isUnasked_readJson _ _) fun _ => trivial
  refine isUnasked_bind (fun _ => trivial) ?_
  intro response
  cases response.isNotFound with
  | true => trivial
  | false =>
      cases response.isSuccess with
      | true => exact decoded response
      | false => exact isUnasked_bind (isUnasked_refuse getOperation response) fun _ => decoded response

theorem isUnasked_createWork (settings : Settings) (key : String) (value : Bytes) :
    (createWork settings key value).IsUnasked := by
  refine Program.IsUnasked.bind (isUnasked_get settings key) ?_
  intro found
  cases found with
  | ok old => trivial
  | error failure =>
      cases failure with
      | notFound name => exact isUnasked_put settings key value
      | _ => trivial

end SecretStore.CredHub
