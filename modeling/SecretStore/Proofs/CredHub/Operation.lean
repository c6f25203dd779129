import SecretStore.CredHub.Operation
import SecretStore.Proofs.Http.Program
import SecretStore.Proofs.Text.Search

namespace SecretStore.CredHub

open Http Http.Action
open Program (Host Answered)

theorem isNotFound_of_isSuccess {response : Response} (success : response.isSuccess = true) :
    response.isNotFound = false := by
  simp only [Response.isSuccess, Bool.and_eq_true, decide_eq_true_eq] at success
  simp only [Response.isNotFound, decide_eq_false_iff_not]
  omega

variable {σ : Type} {host : Host σ} {token : Token} {settings : Settings} {key : String}
  {value : Bytes} {state middle after : σ} {response : Response}

theorem get_missing (answered : Answered host token (getRequest (settings.nameOf key)) state response after)
    (missing : response.isNotFound = true) :
    Runs host token (get settings key) state (.error (.notFound key)) after := by
  refine .bind (runs_request answered) ?_
  simp only [missing, ↓reduceIte]
  exact .fail (runs_throw host token _ after)

theorem get_read {octets : Bytes} {texts : List String}
    (answered : Answered host token (getRequest (settings.nameOf key)) state response after)
    (success : response.isSuccess = true)
    (read : readOn (host.isCancelled token after) [] response.body = .read (.ok octets))
    (decoded : versionsReader.whole octets = .ok texts) :
    Runs host token (get settings key) state (soleVersion key texts) after := by
  refine .bind (runs_request answered) ?_
  simp only [isNotFound_of_isSuccess success, success, Bool.not_true, Bool.false_eq_true, ↓reduceIte]
  exact .bind (runs_readJson read decoded) (runs_ofResult host token _ after)

theorem put_done
    (answered : Answered host token
      (putRequest (settings.nameOf key) (encodeValue value settings.forceBase64)) state response after)
    (success : response.isSuccess = true) :
    Runs host token (put settings key value) state (.ok ()) after := by
  refine .bind (runs_request answered) ?_
  simp only [success, Bool.not_true, Bool.false_eq_true, ↓reduceIte]
  exact runs_pure host token () after

theorem set_done (written : Runs host token (put settings key value)
      (host.log (.debug ("credhub: set " ++ settings.nameOf key)) state) (.ok ()) after) :
    Runs host token (set settings key value) state (.ok ()) after :=
  .bind (runs_log host token _ state) written

theorem delete_missing
    (answered : Answered host token (deleteRequest (settings.nameOf key))
      (host.log (.debug ("credhub: delete " ++ settings.nameOf key)) state) response after)
    (missing : response.isNotFound = true) :
    Runs host token (delete settings key) state (.error (.notFound key)) after := by
  refine .bind (runs_log host token _ state) (.bind (runs_request answered) ?_)
  simp only [missing, ↓reduceIte]
  exact .fail (runs_throw host token _ after)

theorem delete_done
    (answered : Answered host token (deleteRequest (settings.nameOf key))
      (host.log (.debug ("credhub: delete " ++ settings.nameOf key)) state) response after)
    (success : response.isSuccess = true) :
    Runs host token (delete settings key) state (.ok ()) after := by
  refine .bind (runs_log host token _ state) (.bind (runs_request answered) ?_)
  simp only [isNotFound_of_isSuccess success, success, Bool.not_true, Bool.false_eq_true, ↓reduceIte]
  exact runs_pure host token () after

theorem list_read {octets : Bytes} {names : List String}
    (answered : Answered host token (listRequest (settings.keyspace ++ "/")) state response after)
    (success : response.isSuccess = true)
    (read : readOn (host.isCancelled token after) [] response.body = .read (.ok octets))
    (decoded : namesReader.whole octets = .ok names) :
    Runs host token (list settings) state (.ok (names.map (bareKey (settings.keyspace ++ "/")))) after := by
  refine .bind (runs_request answered) ?_
  simp only [success, Bool.not_true, Bool.false_eq_true, ↓reduceIte]
  exact .bind (runs_readJson read decoded) (runs_pure host token _ after)

theorem createWork_taken {old : Bytes}
    (found : Runs host token (get settings key) state (.ok old) after) :
    Program.Runs host token (createWork settings key value) state (.error (.alreadyExists key)) after :=
  .bind found rfl

theorem createWork_written
    (missing : Runs host token (get settings key) state (.error (.notFound key)) middle)
    (written : Runs host token (put settings key value) middle (.ok ()) after) :
    Program.Runs host token (createWork settings key value) state (.ok ()) after :=
  .bind missing written

theorem createWork_refused {failure : Failure} (present : ∀ name, failure ≠ .notFound name)
    (found : Runs host token (get settings key) state (.error failure) after) :
    Program.Runs host token (createWork settings key value) state (.error failure) after := by
  refine .bind found ?_
  cases failure with
  | notFound name => exact absurd rfl (present name)
  | _ => rfl

theorem toList_nameOf (settings : Settings) (key : String) :
    (settings.nameOf key).toList = (settings.keyspace ++ "/").toList ++ key.toList := by
  rw [Settings.nameOf, credentialName, String.toList_append]

theorem nameOf_inj {settings : Settings} {first second : String} :
    settings.nameOf first = settings.nameOf second ↔ first = second := by
  refine ⟨?_, fun same => same ▸ rfl⟩
  intro same
  have lists := congrArg String.toList same
  rw [toList_nameOf, toList_nameOf, List.append_cancel_left_eq] at lists
  exact String.toList_inj.mp lists

theorem bareKey_nameOf (settings : Settings) (key : String) :
    bareKey (settings.keyspace ++ "/") (settings.nameOf key) = key := by
  rw [bareKey, toList_nameOf, Search.after?_append]
  exact String.ofList_toList

theorem under_path_iff {settings : Settings} {name : String} :
    (settings.keyspace ++ "/").toList <+: name.toList ↔ ∃ key, name = settings.nameOf key := by
  constructor
  · rintro ⟨rest, same⟩
    refine ⟨String.ofList rest, String.toList_inj.mp ?_⟩
    rw [toList_nameOf, String.toList_ofList, same]
  · rintro ⟨key, rfl⟩
    exact ⟨key.toList, (toList_nameOf settings key).symm⟩

end SecretStore.CredHub
