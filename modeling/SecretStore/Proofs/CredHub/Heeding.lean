import SecretStore.CredHub.Client
import SecretStore.CredHub.Operation
import SecretStore.Proofs.CredHub.Value
import SecretStore.Proofs.Http.Heeding
import SecretStore.Proofs.Http.Redirect

namespace SecretStore

namespace Http.Action

open Program

variable {α β : Type}

def Ends (fits : α → Prop) : Except Failure α → Prop
  | .ok value => fits value
  | .error failure => failure ≠ .cancelled

/-- A cancelled action ends at once, and no other failure of it is a cancellation. -/
def Heeds (fits : α → Prop) (action : Action α) : Prop :=
  action.run.Heeds (.error .cancelled) (Ends fits)

variable {fits : α → Prop} {action : Action α}

theorem Heeds.bind {ends : β → Prop} {next : α → Action β} (first : action.Heeds fits)
    (rest : ∀ value, fits value → (next value).Heeds ends) : (action >>= next).Heeds ends := by
  refine Program.Heeds.bind rfl (Program.Heeds.imp first ?_)
  intro result ended
  cases result with
  | ok value => exact rest value ended
  | error failure => exact ended

theorem Heeds.tryCatch {handler : Failure → Action α} (first : action.Heeds fits)
    (stops : (handler .cancelled).run = .done (.error .cancelled))
    (others : ∀ failure, failure ≠ .cancelled → (handler failure).Heeds fits) :
    (tryCatch action handler).Heeds fits := by
  refine Program.Heeds.bind ?halts (Program.Heeds.imp first ?ends)
  case halts => exact stops
  case ends =>
      intro result ended
      cases result with
      | ok value => exact ended
      | error failure => exact others failure ended

theorem heeds_ofResult {result : Except Failure α} (ends : Ends fits result) : (ofResult result).Heeds fits :=
  ends

theorem heeds_pure {value : α} (fit : fits value) : (pure value : Action α).Heeds fits := fit

theorem heeds_throw {failure : Failure} (other : failure ≠ .cancelled) : (throw failure : Action α).Heeds fits :=
  other

theorem heeds_log (line : Log.Line) : (log line).Heeds fun _ => True := trivial

theorem heeds_request (request : Request) : (Action.request request).Heeds Response.IsSincere :=
  ⟨rfl, fun _ other => other, fun _ sincere => sincere⟩

theorem heeds_readBody {response : Response} (sincere : response.IsSincere) :
    (readBody response).Heeds fun _ => True :=
  ⟨rfl, sincere, fun _ other => other, fun _ => trivial⟩

theorem heeds_decode (reader : Json.Reader α) (octets : Bytes) :
    (ofResult (decode reader octets)).Heeds fun _ => True := by
  refine heeds_ofResult ?_
  rw [decode]
  cases reader.whole octets with
  | ok value => trivial
  | error cause => exact fun same => by cases same

theorem heeds_readJson {reader : Json.Reader α} {response : Response} (sincere : response.IsSincere) :
    (readJson reader response).Heeds fun _ => True :=
  (heeds_readBody sincere).bind fun octets _ => heeds_decode reader octets

end Http.Action

namespace CredHub

open Http Http.Action

variable {settings : Settings} {key : String}

theorem heeds_refuse {α : Type} {fits : α → Prop} (operation : String) {response : Response}
    (sincere : response.IsSincere) : (refuse operation response : Action α).Heeds fits := by
  have text : (readText response).Heeds fun _ => True :=
    (heeds_readBody sincere).bind fun octets _ => heeds_pure trivial
  have failure : (remoteFailure operation response).Heeds fun failure => failure ≠ .cancelled := by
    refine (text.tryCatch rfl ?_).bind ?_
    · intro failure other
      cases failure with
      | cancelled => exact absurd rfl other
      | _ => exact heeds_pure trivial
    · exact fun body _ => (heeds_log _).bind fun _ _ => heeds_pure fun same => by cases same
  exact failure.bind fun failure other => heeds_throw other

theorem heeds_refuse_bind {α β : Type} {fits : β → Prop} (operation : String) {response : Response}
    (sincere : response.IsSincere) (rest : α → Action β) :
    (refuse operation response >>= rest).Heeds fits := by
  have refused : (refuse operation response : Action α).Heeds fun _ => False := heeds_refuse operation sincere
  exact refused.bind fun _ never => never.elim

theorem heeds_put (settings : Settings) (key : String) (value : Bytes) :
    (put settings key value).Heeds fun _ => True := by
  refine (heeds_request _).bind ?_
  intro response sincere
  cases success : response.isSuccess with
  | true =>
      simp only [Bool.not_true, Bool.false_eq_true, ↓reduceIte]
      exact heeds_pure trivial
  | false =>
      simp only [Bool.not_false, ↓reduceIte]
      exact heeds_refuse putOperation sincere

theorem soleVersion_ends (key : String) (texts : List String) : Ends (fun _ => True) (soleVersion key texts) := by
  match texts with
  | [] => exact fun same => by cases same
  | [text] =>
      cases decoded : soleVersion key [text] with
      | ok value => trivial
      | error failure =>
          obtain ⟨cause, rfl⟩ := decodeValue_error decoded
          exact fun same => by cases same
  | first :: second :: more => exact fun same => by cases same

theorem heeds_get (settings : Settings) (key : String) : (get settings key).Heeds fun _ => True := by
  refine (heeds_request _).bind ?_
  intro response sincere
  cases absent : response.isNotFound with
  | true =>
      simp only [↓reduceIte]
      exact heeds_throw (fun same => by cases same)
  | false =>
      cases success : response.isSuccess with
      | false =>
          simp only [Bool.not_false, Bool.false_eq_true, ↓reduceIte]
          exact heeds_refuse_bind getOperation sincere _
      | true =>
          simp only [Bool.not_true, Bool.false_eq_true, ↓reduceIte]
          exact (heeds_readJson sincere).bind fun texts _ => heeds_ofResult (soleVersion_ends key texts)

theorem heeds_set (settings : Settings) (key : String) (value : Bytes) :
    (set settings key value).Heeds fun _ => True :=
  (heeds_log _).bind fun _ _ => heeds_put settings key value

theorem heeds_delete (settings : Settings) (key : String) : (delete settings key).Heeds fun _ => True := by
  refine (heeds_log _).bind fun _ _ => (heeds_request _).bind ?_
  intro response sincere
  cases absent : response.isNotFound with
  | true =>
      simp only [↓reduceIte]
      exact heeds_throw (fun same => by cases same)
  | false =>
      cases success : response.isSuccess with
      | false =>
          simp only [Bool.not_false, Bool.false_eq_true, ↓reduceIte]
          exact heeds_refuse deleteOperation sincere
      | true =>
          simp only [Bool.not_true, Bool.false_eq_true, ↓reduceIte]
          exact heeds_pure trivial

theorem heeds_list (settings : Settings) : (list settings).Heeds fun _ => True := by
  refine (heeds_request _).bind ?_
  intro response sincere
  have names : (readJson namesReader response >>= fun names =>
      pure (names.map (bareKey (settings.keyspace ++ "/"))) : Action (List String)).Heeds fun _ => True :=
    (heeds_readJson sincere).bind fun names _ => heeds_pure trivial
  cases success : response.isSuccess with
  | false =>
      simp only [Bool.not_false, ↓reduceIte]
      exact heeds_refuse_bind listOperation sincere _
  | true =>
      simp only [Bool.not_true, Bool.false_eq_true, ↓reduceIte]
      exact names

theorem heeds_status (settings : Settings) : (status settings).Heeds fun _ => True := by
  refine (heeds_request _).bind ?_
  intro response sincere
  have found (octets : Bytes) : (ofResult (decode healthReader octets) >>= fun found =>
      if found ≠ healthy then
        throw (.remote healthOperation response.status response.reason (Utf8.lossy octets))
      else pure () : Action Unit).Heeds fun _ => True := by
    refine (heeds_decode healthReader octets).bind ?_
    intro found _
    split
    · exact heeds_throw (fun same => by cases same)
    · exact heeds_pure trivial
  cases success : response.isSuccess with
  | false =>
      simp only [Bool.not_false, ↓reduceIte]
      exact heeds_refuse_bind healthOperation sincere _
  | true =>
      simp only [Bool.not_true, Bool.false_eq_true, ↓reduceIte]
      exact (heeds_readBody sincere).bind fun octets _ => found octets

theorem heeds_createWork (settings : Settings) (key : String) (value : Bytes) :
    (createWork settings key value).Heeds (.error .cancelled) (Ends fun _ => True) := by
  refine Program.Heeds.bind rfl (Program.Heeds.imp (heeds_get settings key) ?_)
  intro found ended
  cases found with
  | ok old => exact fun same => by cases same
  | error failure =>
      cases failure with
      | notFound name => exact heeds_put settings key value
      | _ => exact ended

theorem heeds_program (settings : Settings) (call : Call) :
    (program settings call).Heeds fun _ => True := by
  cases call with
  | status => exact (heeds_status settings).bind fun _ _ => heeds_pure trivial
  | create key value =>
      have work : Action.Heeds (fun _ => True) (ExceptT.mk (createWork settings key value)) :=
        heeds_createWork settings key value
      exact (heeds_log _).bind fun _ _ => work.bind fun _ _ => heeds_pure trivial
  | set key value => exact (heeds_set settings key value).bind fun _ _ => heeds_pure trivial
  | get key => exact (heeds_get settings key).bind fun _ _ => heeds_pure trivial
  | delete key => exact (heeds_delete settings key).bind fun _ _ => heeds_pure trivial
  | list => exact (heeds_list settings).bind fun _ _ => heeds_pure trivial
  | close => exact heeds_pure trivial
  | name => exact heeds_pure trivial

theorem Client.heeds {σ : Type} (client : Client) {network : Network σ}
    (sincere : ∀ sent state received, (network.exchange sent state).1 = some received →
      Chunk.failure .cancelled ∉ received.body) : (client.host network).Heeds fun _ => True where
  refuses dead := if_pos dead
  stops dead := if_pos dead
  logs line world _ := ⟨trivial, fun _ => rfl⟩
  sends {token request world result after} _ alive sent := by
    simp only [host, send, (show world.isCancelled token = false from alive), Bool.false_eq_true, ↓reduceIte,
      Prod.mk.injEq] at sent
    obtain ⟨rfl, rfl⟩ := sent
    exact ⟨⟨trivial, fun _ => rfl⟩, fun same => by cases same⟩
  receives {token request world result after} _ alive received := by
    simp only [host, receive, (show world.isCancelled token = false from alive), Bool.false_eq_true,
      ↓reduceIte] at received
    split at received
    · cases received
      exact ⟨⟨trivial, fun _ => rfl⟩, fun same => (by cases same), fun response same => by cases same⟩
    · rename_i answer state asked
      cases received
      refine ⟨⟨trivial, fun _ => rfl⟩, fun same => (by cases same), ?_⟩
      rintro response ⟨⟩
      rw [ask] at asked
      split at asked
      · cases asked
      · obtain ⟨last, state', answered⟩ := fetchWithin_exchanged asked
        exact sincere last state' answer answered

end CredHub

end SecretStore
