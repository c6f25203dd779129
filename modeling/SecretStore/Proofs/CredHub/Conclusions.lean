import SecretStore.Proofs.CredHub.Operation
import SecretStore.Proofs.CredHub.Shapes
import SecretStore.Proofs.CredHub.Value
import SecretStore.Proofs.Http.Delivery

namespace SecretStore.CredHub

open Http Http.Action

variable {α : Type} {settings : Settings} {key : String} {value : Bytes} {response : Response}

/-! ## Refusals -/

def bodyText : Except Transport Bytes → String
  | .ok octets => Utf8.lossy octets
  | .error _ => ""

def refusal (operation : String) (response : Response) (delivery : Except Transport Bytes) : Failure :=
  .remote operation response.status response.reason (bodyText delivery)

theorem finds_bodyText {delivery : Except Transport Bytes} (delivers : Delivers response.body delivery)
    {handler : Failure → Action String} (empties : ∀ fault, handler (.transport fault) = pure "") :
    Finds (tryCatch (readText response) handler) (.ok (bodyText delivery)) := by
  cases delivery with
  | ok octets =>
      have read : Finds (readText response) (.ok (Utf8.lossy octets)) :=
        Finds.bind (finds_readBody delivers) (finds_pure (Utf8.lossy octets))
      exact finds_tryCatch_ok read handler
  | error fault =>
      have read : Finds (readText response) (.error (.transport fault)) := Finds.fail (finds_readBody delivers)
      refine finds_tryCatch read ?_
      rw [empties]
      exact finds_pure ""

theorem results_refuse (operation : String) {delivery : Except Transport Bytes}
    (delivers : Delivers response.body delivery) :
    Results (refuse operation response : Action α) (.error (refusal operation response delivery)) := by
  intro σ host token state awake
  have failure : ∃ last, Runs host token (remoteFailure operation response) state
      (.ok (refusal operation response delivery)) last := by
    refine ⟨_, Runs.bind (finds_bodyText delivers ?_ σ host token state awake)
      (.bind (runs_log host token _ state) (runs_pure host token _ _))⟩
    exact fun fault => rfl
  obtain ⟨last, failed⟩ := failure
  exact ⟨last, .bind failed (runs_throw host token _ last)⟩

theorem not_isSuccess {response : Response} (other : ¬ response.Is2xx) : response.isSuccess = false :=
  Bool.eq_false_iff.2 fun success => other (Response.isSuccess_iff.1 success)

theorem not_isNotFound {response : Response} (other : response.status ≠ 404) : response.isNotFound = false :=
  Bool.eq_false_iff.2 fun missing => other (Response.isNotFound_iff.1 missing)

/-! ## Getting -/

inductive GetRead (key : String) (octets : Bytes) : Outcome → Prop where
  | malformed {cause : Violation} : Malformed versionsReader IsVersions octets cause →
      GetRead key octets (.error (.protocol cause))
  | nothing : IsVersions octets [] → GetRead key octets (.error (.notFound key))
  | value {text : String} {value : Bytes} : IsVersions octets [text] → decodeValue text = .ok value →
      GetRead key octets (.ok (.value value))
  | undecodable {text : String} {cause : Base64.Fault} : IsVersions octets [text] →
      decodeValue text = .error (.protocol (.badBase64 cause)) →
      GetRead key octets (.error (.protocol (.badBase64 cause)))
  | several {first second : String} {more : List String} : IsVersions octets (first :: second :: more) →
      GetRead key octets (.error (.protocol (.manyVersions (more.length + 2) key)))

inductive GetAnswer (key : String) (response : Response) : Outcome → Prop where
  | missing : response.status = 404 → GetAnswer key response (.error (.notFound key))
  | refused {delivery : Except Transport Bytes} : response.status ≠ 404 → ¬ response.Is2xx →
      Delivers response.body delivery → GetAnswer key response (.error (refusal "get entry" response delivery))
  | broken {fault : Transport} : response.Is2xx → Delivers response.body (.error fault) →
      GetAnswer key response (.error (.transport fault))
  | answered {octets : Bytes} {outcome : Outcome} : response.Is2xx → Delivers response.body (.ok octets) →
      GetRead key octets outcome → GetAnswer key response outcome

theorem get_missing_concludes (missing : response.status = 404) :
    Concludes (get settings key) (getRequest (settings.nameOf key)) response (.error (.notFound key)) := by
  refine concludes_request (Finds.results ?_)
  simp only [Response.isNotFound_iff.2 missing, ↓reduceIte]
  exact Finds.fail (finds_throw _)

theorem get_refused_concludes {delivery : Except Transport Bytes} (present : response.status ≠ 404)
    (other : ¬ response.Is2xx) (delivers : Delivers response.body delivery) :
    Concludes (get settings key) (getRequest (settings.nameOf key)) response
      (.error (refusal getOperation response delivery)) := by
  refine concludes_request ?_
  simp only [not_isNotFound present, not_isSuccess other, Bool.not_false, Bool.false_eq_true, ↓reduceIte]
  exact Results.fail (results_refuse getOperation delivers)

theorem get_answered_concludes {result : Except Failure Bytes} (success : response.Is2xx)
    (finds : Finds (readJson versionsReader response >>= fun texts => ofResult (soleVersion key texts)) result) :
    Concludes (get settings key) (getRequest (settings.nameOf key)) response result := by
  have success := Response.isSuccess_iff.2 success
  refine concludes_request (Finds.results ?_)
  simp only [isNotFound_of_isSuccess success, success, Bool.not_true, Bool.false_eq_true, ↓reduceIte]
  exact finds

theorem GetRead.of_texts {octets : Bytes} {texts : List String} (formed : IsVersions octets texts) :
    GetRead key octets ((soleVersion key texts).map .value) := by
  match texts with
  | [] => exact .nothing formed
  | [text] =>
      rw [soleVersion]
      cases decoded : decodeValue text with
      | ok value => exact .value formed decoded
      | error failure =>
          obtain ⟨cause, rfl⟩ := decodeValue_error decoded
          exact .undecodable formed decoded
  | first :: second :: more => exact .several formed

theorem GetRead.exists (key : String) (octets : Bytes) : ∃ outcome, GetRead key octets outcome := by
  rcases form_or_malformed (fun _ => versionsReader_eq_ok_iff) with ⟨texts, formed⟩ | ⟨cause, malformed⟩
  · exact ⟨_, .of_texts formed⟩
  · exact ⟨_, .malformed malformed⟩

theorem GetRead.concludes {octets : Bytes} {outcome : Outcome} (success : response.Is2xx)
    (delivers : Delivers response.body (.ok octets)) (found : GetRead key octets outcome) :
    Concludes (program settings (.get key)) (getRequest (settings.nameOf key)) response outcome := by
  have read : Finds (readJson versionsReader response) (decode versionsReader octets) := finds_readJson delivers
  have formed {texts : List String} (formed : IsVersions octets texts) :
      Concludes (program settings (.get key)) (getRequest (settings.nameOf key)) response
        ((soleVersion key texts).map .value) := by
    rw [decode_of_form (fun _ => versionsReader_eq_ok_iff) formed] at read
    exact (get_answered_concludes success (read.bind (finds_ofResult _))).map _
  cases found with
  | malformed malformed =>
      rw [malformed.decoded] at read
      exact (get_answered_concludes success read.fail).map _
  | nothing versions => exact formed versions
  | @value text value versions decoded =>
      have concludes := formed versions
      rwa [soleVersion, decoded] at concludes
  | @undecodable text cause versions decoded =>
      have concludes := formed versions
      rwa [soleVersion, decoded] at concludes
  | several versions => exact formed versions

theorem GetAnswer.concludes {outcome : Outcome} (got : GetAnswer key response outcome) :
    Concludes (program settings (.get key)) (getRequest (settings.nameOf key)) response outcome := by
  cases got with
  | missing missing => exact (get_missing_concludes missing).map _
  | refused present other delivers => exact (get_refused_concludes present other delivers).map _
  | broken success delivers =>
      exact (get_answered_concludes success (finds_readJson_broken delivers).fail).map _
  | answered success delivers found => exact found.concludes success delivers

theorem GetAnswer.exists (key : String)
    (ends : response.status = 404 ∨ ∃ delivery, Delivers response.body delivery) :
    ∃ outcome, GetAnswer key response outcome := by
  rcases Decidable.em (response.status = 404) with missing | present
  · exact ⟨_, .missing missing⟩
  · obtain ⟨delivery, delivers⟩ := ends.resolve_left present
    rcases Classical.em response.Is2xx with success | other
    · cases delivery with
      | error fault => exact ⟨_, .broken success delivers⟩
      | ok octets =>
          obtain ⟨outcome, found⟩ := GetRead.exists key octets
          exact ⟨outcome, .answered success delivers found⟩
    · exact ⟨_, .refused present other delivers⟩

/-- The outcomes of a lookup are exactly those that `GetAnswer` allows for the response. -/
theorem get_concludes_iff (settings : Settings) (key : String) (response : Response)
    (ends : response.status = 404 ∨ ∃ delivery, Delivers response.body delivery) :
    (∃ outcome, GetAnswer key response outcome) ∧ ∀ outcome,
      Concludes (program settings (.get key)) (getRequest (settings.nameOf key)) response outcome ↔
        GetAnswer key response outcome := by
  obtain ⟨outcome, got⟩ := GetAnswer.exists key ends
  refine ⟨⟨outcome, got⟩, fun other => ⟨fun concludes => ?_, GetAnswer.concludes⟩⟩
  rw [concludes.unique got.concludes]
  exact got

theorem get_concludes_iff_split :
    let settings : Settings := { keyspace := "/kes" }
    let octets := Utf8.bytes "\x7b\"x\":[1,\x7b\x7d],\"data\":[\x7b\"value\":\"Base64:AQI=\"\x7d]\x7d"
    let response : Response := ⟨206, "Partial Content", [.octets (octets.take 9), .octets (octets.drop 9)]⟩
    let missing : Response := ⟨404, "Not Found", [.silence]⟩
    (response.status = 404 ∨ ∃ delivery, Delivers response.body delivery) ∧
      Concludes (program settings (.get "k")) (getRequest "/kes/k") response (.ok (.value [1, 2])) ∧
      (missing.status = 404 ∨ ∃ delivery, Delivers missing.body delivery) ∧
      Concludes (program settings (.get "k")) (getRequest "/kes/k") missing (.error (.notFound "k")) := by
  intro settings octets response missing
  have delivers : Delivers response.body (.ok octets) := by
    have ended := Delivers.ended [octets.take 9, octets.drop 9]
    rwa [show [octets.take 9, octets.drop 9].flatten = octets by simp] at ended
  have versions : IsVersions octets ["Base64:AQI="] := versionsReader_eq_ok_iff.1 (by decide +kernel)
  have decoded : decodeValue "Base64:AQI=" = .ok [1, 2] := by
    rw [show "Base64:AQI=" = encodeValue [1, 2] true by decide +kernel, decodeValue_encodeValue]
  have got : GetAnswer "k" response (.ok (.value [1, 2])) :=
    .answered ⟨by decide, by decide⟩ delivers (.value versions decoded)
  have first := get_concludes_iff settings "k" response (.inr ⟨_, delivers⟩)
  have second := get_concludes_iff settings "k" missing (.inl rfl)
  exact ⟨.inr ⟨_, delivers⟩, (first.2 _).2 got, .inl rfl, (second.2 _).2 (.missing rfl)⟩

/-! ## Setting, deleting, listing and checking the health -/

inductive Demands (settings : Settings) : Call → String → Request → Prop where
  | set (key : String) (value : Bytes) : Demands settings (.set key value) "set entry"
      (putRequest (settings.nameOf key) (encodeValue value settings.forceBase64))
  | delete (key : String) : Demands settings (.delete key) "delete entry" (deleteRequest (settings.nameOf key))
  | list : Demands settings .list "list entries" (listRequest (settings.keyspace ++ "/"))
  | status : Demands settings .status "check health" healthRequest

inductive ListRead (settings : Settings) (octets : Bytes) : Outcome → Prop where
  | malformed {cause : Violation} : Malformed namesReader IsNames octets cause →
      ListRead settings octets (.error (.protocol cause))
  | keys {names : List String} : IsNames octets names →
      ListRead settings octets (.ok (.keys (names.map (bareKey (settings.keyspace ++ "/")))))

inductive StatusRead (response : Response) (octets : Bytes) : Outcome → Prop where
  | malformed {cause : Violation} : Malformed healthReader IsHealth octets cause →
      StatusRead response octets (.error (.protocol cause))
  | healthy : IsHealth octets "UP" → StatusRead response octets (.ok (.healthy none))
  | unhealthy {found : String} : IsHealth octets found → found ≠ "UP" →
      StatusRead response octets (.error (refusal "check health" response (.ok octets)))

inductive CallAnswer (settings : Settings) (response : Response) : Call → String → Outcome → Prop where
  | set {key operation : String} {value : Bytes} : response.Is2xx →
      CallAnswer settings response (.set key value) operation (.ok .done)
  | deleted {key operation : String} : response.Is2xx →
      CallAnswer settings response (.delete key) operation (.ok .done)
  | missing {key operation : String} : response.status = 404 →
      CallAnswer settings response (.delete key) operation (.error (.notFound key))
  | refused {call : Call} {operation : String} {delivery : Except Transport Bytes} : ¬ response.Is2xx →
      (∀ key, call = .delete key → response.status ≠ 404) → Delivers response.body delivery →
      CallAnswer settings response call operation (.error (refusal operation response delivery))
  | broken {call : Call} {operation : String} {fault : Transport} : call ∈ [.list, .status] → response.Is2xx →
      Delivers response.body (.error fault) →
      CallAnswer settings response call operation (.error (.transport fault))
  | listed {operation : String} {octets : Bytes} {outcome : Outcome} : response.Is2xx →
      Delivers response.body (.ok octets) → ListRead settings octets outcome →
      CallAnswer settings response .list operation outcome
  | checked {operation : String} {octets : Bytes} {outcome : Outcome} : response.Is2xx →
      Delivers response.body (.ok octets) → StatusRead response octets outcome →
      CallAnswer settings response .status operation outcome

/-- The body of the response is not read. -/
def LeavesBody (response : Response) : Call → Prop
  | .set _ _ => response.Is2xx
  | .delete _ => response.Is2xx ∨ response.status = 404
  | _ => False

theorem set_concludes (success : response.Is2xx) :
    Concludes (set settings key value) (putRequest (settings.nameOf key) (encodeValue value settings.forceBase64))
      response (.ok ()) := by
  refine concludes_log (concludes_request (Finds.results ?_))
  simp only [Response.isSuccess_iff.2 success, Bool.not_true, Bool.false_eq_true, ↓reduceIte]
  exact finds_pure ()

theorem delete_concludes (success : response.Is2xx) :
    Concludes (delete settings key) (deleteRequest (settings.nameOf key)) response (.ok ()) := by
  have success := Response.isSuccess_iff.2 success
  refine concludes_log (concludes_request (Finds.results ?_))
  simp only [isNotFound_of_isSuccess success, success, Bool.not_true, Bool.false_eq_true, ↓reduceIte]
  exact finds_pure ()

theorem delete_missing_concludes (missing : response.status = 404) :
    Concludes (delete settings key) (deleteRequest (settings.nameOf key)) response (.error (.notFound key)) := by
  refine concludes_log (concludes_request (Finds.results ?_))
  simp only [Response.isNotFound_iff.2 missing, ↓reduceIte]
  exact Finds.fail (finds_throw _)

theorem list_answered_concludes {result : Except Failure (List String)} (success : response.Is2xx)
    (finds : Finds (readJson namesReader response) result) :
    Concludes (list settings) (listRequest (settings.keyspace ++ "/")) response
      (result.map (List.map (bareKey (settings.keyspace ++ "/")))) := by
  refine concludes_request (Finds.results ?_)
  simp only [Response.isSuccess_iff.2 success, Bool.not_true, Bool.false_eq_true, ↓reduceIte]
  cases result with
  | ok names => exact finds.bind (finds_pure _)
  | error failure => exact finds.fail

theorem status_broken_concludes {fault : Transport} (success : response.Is2xx)
    (delivers : Delivers response.body (.error fault)) :
    Concludes (status settings) healthRequest response (.error (.transport fault)) := by
  refine concludes_request (Finds.results ?_)
  simp only [Response.isSuccess_iff.2 success, Bool.not_true, Bool.false_eq_true, ↓reduceIte]
  exact Finds.fail (finds_readBody delivers)

theorem status_read_concludes {octets : Bytes} {found : Except Failure String} {result : Except Failure Unit}
    (success : response.Is2xx) (delivers : Delivers response.body (.ok octets))
    (decoded : decode healthReader octets = found)
    (finds : Finds (ofResult found >>= fun found => do
      if found ≠ healthy then
        throw (.remote healthOperation response.status response.reason (Utf8.lossy octets))) result) :
    Concludes (status settings) healthRequest response result := by
  refine concludes_request (Finds.results ?_)
  simp only [Response.isSuccess_iff.2 success, Bool.not_true, Bool.false_eq_true, ↓reduceIte]
  refine Finds.bind (finds_readBody delivers) ?_
  rw [decoded]
  exact finds

theorem refused_concludes {call : Call} {operation : String} {request : Request} {delivery : Except Transport Bytes}
    (asks : Demands settings call operation request) (other : ¬ response.Is2xx)
    (present : ∀ key, call = .delete key → response.status ≠ 404) (delivers : Delivers response.body delivery) :
    Concludes (program settings call) request response (.error (refusal operation response delivery)) := by
  have failed := not_isSuccess other
  cases asks with
  | set key value =>
      have concludes : Concludes (set settings key value)
          (putRequest (settings.nameOf key) (encodeValue value settings.forceBase64)) response
          (.error (refusal putOperation response delivery)) := by
        refine concludes_log (concludes_request ?_)
        simp only [failed, Bool.not_false, ↓reduceIte]
        exact results_refuse putOperation delivers
      exact concludes.map _
  | delete key =>
      have concludes : Concludes (delete settings key) (deleteRequest (settings.nameOf key)) response
          (.error (refusal deleteOperation response delivery)) := by
        refine concludes_log (concludes_request ?_)
        simp only [not_isNotFound (present key rfl), failed, Bool.not_false, Bool.false_eq_true, ↓reduceIte]
        exact results_refuse deleteOperation delivers
      exact concludes.map _
  | list =>
      have concludes : Concludes (list settings) (listRequest (settings.keyspace ++ "/")) response
          (.error (refusal listOperation response delivery)) := by
        refine concludes_request ?_
        simp only [failed, Bool.not_false, ↓reduceIte]
        exact Results.fail (results_refuse listOperation delivers)
      exact concludes.map _
  | status =>
      have concludes : Concludes (status settings) healthRequest response
          (.error (refusal healthOperation response delivery)) := by
        refine concludes_request ?_
        simp only [failed, Bool.not_false, ↓reduceIte]
        exact Results.fail (results_refuse healthOperation delivers)
      exact concludes.map _

theorem ListRead.concludes {octets : Bytes} {outcome : Outcome} (success : response.Is2xx)
    (delivers : Delivers response.body (.ok octets)) (listed : ListRead settings octets outcome) :
    Concludes (program settings .list) (listRequest (settings.keyspace ++ "/")) response outcome := by
  have read : Finds (readJson namesReader response) (decode namesReader octets) := finds_readJson delivers
  cases listed with
  | malformed malformed =>
      rw [malformed.decoded] at read
      exact (list_answered_concludes success read).map _
  | keys names =>
      rw [decode_of_form (fun _ => namesReader_eq_ok_iff) names] at read
      exact (list_answered_concludes success read).map _

theorem StatusRead.concludes {octets : Bytes} {outcome : Outcome} (success : response.Is2xx)
    (delivers : Delivers response.body (.ok octets)) (checked : StatusRead response octets outcome) :
    Concludes (program settings .status) healthRequest response outcome := by
  cases checked with
  | malformed malformed =>
      exact (status_read_concludes success delivers malformed.decoded (Finds.fail (finds_ofResult _))).map _
  | healthy up =>
      have decoded := decode_of_form (fun _ => healthReader_eq_ok_iff) up
      exact (status_read_concludes success delivers decoded
        (Finds.bind (finds_ofResult _) (finds_pure ()))).map _
  | @unhealthy found health down =>
      have decoded := decode_of_form (fun _ => healthReader_eq_ok_iff) health
      have concludes : Concludes (status settings) healthRequest response
          (.error (refusal healthOperation response (.ok octets))) := by
        refine status_read_concludes success delivers decoded (Finds.bind (finds_ofResult _) ?_)
        rw [if_pos (show found ≠ CredHub.healthy from down)]
        exact finds_throw _
      exact concludes.map _

theorem CallAnswer.concludes {call : Call} {operation : String} {request : Request} {outcome : Outcome}
    (asks : Demands settings call operation request) (told : CallAnswer settings response call operation outcome) :
    Concludes (program settings call) request response outcome := by
  cases told with
  | set success =>
      cases asks
      exact (set_concludes success).map _
  | deleted success =>
      cases asks
      exact (delete_concludes success).map _
  | missing missing =>
      cases asks
      exact (delete_missing_concludes missing).map _
  | refused other present delivers => exact refused_concludes asks other present delivers
  | broken reads success delivers =>
      simp only [List.mem_cons, List.not_mem_nil, or_false] at reads
      rcases reads with rfl | rfl
      · cases asks
        exact (list_answered_concludes success (finds_readJson_broken delivers)).map _
      · cases asks
        exact (status_broken_concludes success delivers).map _
  | listed success delivers listed =>
      cases asks
      exact listed.concludes success delivers
  | checked success delivers checked =>
      cases asks
      exact checked.concludes success delivers

theorem ListRead.exists (settings : Settings) (octets : Bytes) : ∃ outcome, ListRead settings octets outcome := by
  rcases form_or_malformed (fun _ => namesReader_eq_ok_iff) with ⟨names, formed⟩ | ⟨cause, malformed⟩
  · exact ⟨_, .keys formed⟩
  · exact ⟨_, .malformed malformed⟩

theorem StatusRead.exists (response : Response) (octets : Bytes) : ∃ outcome, StatusRead response octets outcome := by
  rcases form_or_malformed (fun _ => healthReader_eq_ok_iff) with ⟨found, formed⟩ | ⟨cause, malformed⟩
  · rcases Decidable.em (found = "UP") with rfl | down
    · exact ⟨_, .healthy formed⟩
    · exact ⟨_, .unhealthy formed down⟩
  · exact ⟨_, .malformed malformed⟩

theorem CallAnswer.exists {call : Call} {operation : String} {request : Request}
    (asks : Demands settings call operation request)
    (ends : LeavesBody response call ∨ ∃ delivery, Delivers response.body delivery) :
    ∃ outcome, CallAnswer settings response call operation outcome := by
  rcases Classical.em response.Is2xx with success | other
  · cases asks with
    | set key value => exact ⟨_, .set success⟩
    | delete key => exact ⟨_, .deleted success⟩
    | list =>
        obtain ⟨delivery, delivers⟩ := ends.resolve_left id
        cases delivery with
        | error fault => exact ⟨_, .broken (by simp) success delivers⟩
        | ok octets =>
            obtain ⟨outcome, listed⟩ := ListRead.exists settings octets
            exact ⟨outcome, .listed success delivers listed⟩
    | status =>
        obtain ⟨delivery, delivers⟩ := ends.resolve_left id
        cases delivery with
        | error fault => exact ⟨_, .broken (by simp) success delivers⟩
        | ok octets =>
            obtain ⟨outcome, checked⟩ := StatusRead.exists response octets
            exact ⟨outcome, .checked success delivers checked⟩
  · have refused (delivers : ∃ delivery, Delivers response.body delivery)
        (present : ∀ key, call = .delete key → response.status ≠ 404) :
        ∃ outcome, CallAnswer settings response call operation outcome := by
      obtain ⟨delivery, delivers⟩ := delivers
      exact ⟨_, .refused other present delivers⟩
    cases asks with
    | set key value => exact refused (ends.resolve_left other) nofun
    | delete key =>
        rcases Decidable.em (response.status = 404) with missing | present
        · exact ⟨_, .missing missing⟩
        · have read : ¬ LeavesBody response (.delete key) := fun left => left.elim other present
          exact refused (ends.resolve_left read) fun _ _ => present
    | list => exact refused (ends.resolve_left id) nofun
    | status => exact refused (ends.resolve_left id) nofun

def IsForeign : Failure → Prop
  | .alreadyExists _ | .notAllowed _ _ | .config _ => True
  | _ => False

theorem CallAnswer.not_foreign {call : Call} {operation : String} {failure : Failure}
    (told : CallAnswer settings response call operation (.error failure)) : ¬ IsForeign failure := by
  cases told with
  | listed _ _ listed =>
      cases listed
      exact id
  | checked _ _ checked =>
      cases checked
      · exact id
      · exact id
  | missing _ => exact id
  | refused _ _ _ => exact id
  | broken _ _ _ => exact id

/-- The outcomes of these calls are exactly those that `CallAnswer` allows for the response, and none is a foreign
failure. -/
theorem call_concludes_iff (settings : Settings) {call : Call} {operation : String} {request : Request}
    (asks : Demands settings call operation request) (response : Response)
    (ends : LeavesBody response call ∨ ∃ delivery, Delivers response.body delivery) :
    (∃ outcome, CallAnswer settings response call operation outcome) ∧
      (∀ outcome, Concludes (program settings call) request response outcome ↔
        CallAnswer settings response call operation outcome) ∧
      ∀ failure, Concludes (program settings call) request response (.error failure) → ¬ IsForeign failure := by
  obtain ⟨outcome, told⟩ := CallAnswer.exists asks ends
  have exact_iff (other : Outcome) : Concludes (program settings call) request response other ↔
      CallAnswer settings response call operation other := by
    refine ⟨fun concludes => ?_, CallAnswer.concludes asks⟩
    rw [concludes.unique (told.concludes asks)]
    exact told
  exact ⟨⟨outcome, told⟩, exact_iff, fun failure concludes => ((exact_iff _).1 concludes).not_foreign⟩

theorem call_concludes_iff_down :
    let settings : Settings := { keyspace := "/kes" }
    let down : Response := .ofBytes 200 "OK" (Utf8.bytes "\x7b\"status\":\"DOWN\"\x7d")
    let deleted : Response := ⟨204, "No Content", [.silence]⟩
    let refused : Response := ⟨404, "Not Found", [.octets [60], .failure (.transport ⟨.body, none⟩)]⟩
    Demands settings .status "check health" healthRequest ∧ (∃ delivery, Delivers down.body delivery) ∧
      Concludes (program settings .status) healthRequest down
        (.error (.remote "check health" 200 "OK" "\x7b\"status\":\"DOWN\"\x7d")) ∧
      LeavesBody deleted (.delete "k") ∧
      Concludes (program settings (.delete "k")) (deleteRequest "/kes/k") deleted (.ok .done) ∧
      (∃ delivery, Delivers refused.body delivery) ∧
      Concludes (program settings .list) (listRequest "/kes/") refused
        (.error (.remote "list entries" 404 "Not Found" "")) := by
  intro settings down deleted refused
  have whole : Delivers down.body (.ok (Utf8.bytes "\x7b\"status\":\"DOWN\"\x7d")) := delivers_ofBytes _ _ _
  have broken : Delivers refused.body (.error ⟨.body, none⟩) := .broken [[60]] _ []
  have health : IsHealth (Utf8.bytes "\x7b\"status\":\"DOWN\"\x7d") "DOWN" :=
    healthReader_eq_ok_iff.1 (by decide +kernel)
  have shown : Failure.remote "check health" 200 "OK" "\x7b\"status\":\"DOWN\"\x7d" =
      refusal "check health" down (.ok (Utf8.bytes "\x7b\"status\":\"DOWN\"\x7d")) := by
    rw [refusal, bodyText]
    exact congrArg _ (by decide +kernel)
  have checking := call_concludes_iff settings .status down (.inr ⟨_, whole⟩)
  have deleting := call_concludes_iff settings (.delete "k") deleted (.inl (.inl ⟨by decide, by decide⟩))
  have listing := call_concludes_iff settings .list refused (.inr ⟨_, broken⟩)
  refine ⟨.status, ⟨_, whole⟩, ?_, .inl ⟨by decide, by decide⟩, ?_, ⟨_, broken⟩, ?_⟩
  · rw [shown]
    exact (checking.2.1 _).2 (.checked ⟨by decide, by decide⟩ whole (.unhealthy health (by decide)))
  · exact (deleting.2.1 _).2 (.deleted ⟨by decide, by decide⟩)
  · have other : ¬ refused.Is2xx := fun success => absurd success.2 (by decide)
    exact (listing.2.1 _).2 (.refused other (fun _ same => by cases same) broken)

end SecretStore.CredHub
