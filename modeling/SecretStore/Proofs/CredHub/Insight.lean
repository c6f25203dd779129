import SecretStore.Proofs.CredHub.Conduct
import SecretStore.Proofs.CredHub.Scene
import SecretStore.Proofs.CredHub.Value

namespace SecretStore.CredHub

open Http Http.Action

def Harmless (request : Request) : Prop := ∀ name, Wish.ofRequest? request ≠ some (.remove name)

def noRemoval : Contract Unit where
  permits _ request := Harmless request
  answers _ _ := True
  learn _ _ _ := ()

abbrev Spares {α : Type} (program : Program α) : Prop := program.Meets noRemoval (fun _ _ => True) ()

section Spares

variable {α β : Type}

theorem spares_bind {action : Action α} {next : α → Action β} (first : Spares action.run)
    (rest : ∀ value, Spares (next value).run) : Spares (action >>= next).run := by
  refine meets_bind (Program.Meets.imp first fun known result _ => ?_)
  cases result with
  | ok value => exact rest value
  | error failure => trivial

theorem spares_request {request : Request} (harmless : Harmless request) :
    Spares (Action.request request).run :=
  meets_request harmless (fun _ _ _ => trivial) fun _ _ => trivial

theorem spares_refuse (operation : String) (response : Response) :
    Spares (refuse operation response : Action α).run :=
  meets_refuse operation response trivial fun _ => trivial

theorem spares_readJson (reader : Json.Reader α) (response : Response) :
    Spares (readJson reader response).run :=
  spares_bind (fun _ _ _ => trivial) fun _ => trivial

theorem spares_put (settings : Settings) (key : String) (value : Bytes) :
    Spares (put settings key value).run := by
  have harmless : Harmless (putRequest (settings.nameOf key) (encodeValue value settings.forceBase64)) := by
    simp [Harmless, ofRequest?_putRequest]
  exact meets_put harmless (fun _ _ _ => trivial) (fun _ _ _ _ => trivial) fun _ _ _ => trivial

theorem spares_get (settings : Settings) (key : String) : Spares (get settings key).run := by
  have harmless : Harmless (getRequest (settings.nameOf key)) := by
    simp [Harmless, ofRequest?_getRequest]
  exact meets_get harmless (fun _ _ _ => trivial) (fun _ _ _ _ => trivial) (fun _ _ _ => trivial)
    fun _ _ _ _ _ _ => trivial

theorem spares_list (settings : Settings) : Spares (list settings).run := by
  have harmless : Harmless (listRequest (settings.keyspace ++ "/")) := by
    simp [Harmless, ofRequest?_listRequest]
  apply spares_bind (spares_request harmless)
  intro response
  cases success : response.isSuccess with
  | true => exact spares_bind (spares_readJson _ _) fun _ => trivial
  | false => exact spares_bind (spares_refuse _ _) fun _ => spares_bind (spares_readJson _ _) fun _ => trivial

theorem spares_status (settings : Settings) : Spares (status settings).run := by
  have harmless : Harmless healthRequest := by
    intro name
    have nothing : Wish.ofRequest? healthRequest = none := by decide +kernel
    simp [nothing]
  apply spares_bind (spares_request harmless)
  intro response
  have checks : ∀ octets, Spares (ofResult (decode healthReader octets) >>= fun found =>
      if found ≠ healthy then
        throw (.remote healthOperation response.status response.reason (Utf8.lossy octets))
      else pure () : Action Unit).run := by
    intro octets
    refine spares_bind trivial fun found => ?_
    split <;> trivial
  cases success : response.isSuccess with
  | true => exact spares_bind (fun _ _ _ => trivial) checks
  | false => exact spares_bind (spares_refuse _ _) fun _ => spares_bind (fun _ _ _ => trivial) checks

end Spares

theorem program_harmless (settings : Settings) {call : Call} (kept : ∀ key, call ≠ .delete key)
    (plain : ∀ key value, call ≠ .create key value) : Spares (program settings call) := by
  cases call with
  | status => exact spares_bind (spares_status settings) fun _ => trivial
  | create key value => exact absurd rfl (plain key value)
  | set key value =>
      exact spares_bind (spares_bind trivial fun _ => spares_put settings key value) fun _ => trivial
  | get key => exact spares_bind (spares_get settings key) fun _ => trivial
  | delete key => exact absurd rfl (kept key)
  | list => exact spares_bind (spares_list settings) fun _ => trivial
  | close => trivial
  | name => trivial

/-- What a creation has learnt of its name from the answers to it. -/
structure Insight where
  cleared : Bool := false
  present : Bool := false
  wrote : Bool := false

def Insight.learn (known : Insight) (request : Request) (response : Response) : Insight :=
  match Wish.ofRequest? request with
  | some (.read _) =>
    if response.isNotFound then { known with cleared := true }
    else if response.isSuccess then { known with present := true } else known
  | some (.write _ _) =>
    if response.isSuccess then { known with present := true, wrote := true } else known
  | _ => known

def creation (settings : Settings) (key : String) : Contract Insight where
  permits known request :=
    Wish.ofRequest? request = some (.read (settings.nameOf key)) ∨
      known.cleared = true ∧ ∃ text, Wish.ofRequest? request = some (.write (settings.nameOf key) text)
  answers request response :=
    Genuine response ∧ ∀ name, Wish.ofRequest? request = some (.read name) →
      response.isSuccess = true → ∃ text, Shows response text
  learn := Insight.learn

def Warrants (key : String) (known : Insight) : Except Failure Unit → Prop
  | .ok () => known.wrote = true
  | .error (.alreadyExists other) => other = key ∧ known.present = true
  | .error _ => True

theorem warrants_failing {key : String} {known : Insight} {failure : Failure}
    (outside : failure.isTransport = true) : Warrants key known (.error failure) := by
  cases failure with
  | alreadyExists other => cases outside
  | _ => trivial

theorem readOn_failing {cancelled : Bool} {taken : Bytes} {body : List Chunk} {failure : Failure}
    (genuine : ∀ failure, .failure failure ∈ body → ∃ cause, failure = .transport cause)
    (reading : readOn cancelled taken body = .read (.error failure)) : failure.isTransport = true := by
  cases cancelled with
  | true =>
      cases reading
      rfl
  | false =>
      change takeChunks taken body = _ at reading
      fun_induction takeChunks taken body with
      | case1 => cases reading
      | case2 taken octets rest ih => exact ih (fun other member => genuine other (by simp [member])) reading
      | case3 taken other rest =>
          cases reading
          obtain ⟨cause, same⟩ := genuine failure (by simp)
          rw [same]
          rfl
      | case4 => cases reading

theorem warrants_found {key : String} {known : Insight} {response : Response} {text : String}
    {cancelled : Bool} {result : Except Failure Bytes} (genuine : Genuine response)
    (shows : Shows response text) (present : known.present = true)
    (reading : readOn cancelled [] response.body = .read result) :
    Warrants key known
      (match result >>= foundIn key with
      | .ok _ => .error (.alreadyExists key)
      | .error failure => .error failure) ∧
      ∀ other, result >>= foundIn key ≠ .error (.notFound other) := by
  cases result with
  | error failure =>
      have outside := readOn_failing genuine reading
      constructor
      · exact warrants_failing outside
      · intro other same
        cases same
        cases outside
  | ok octets =>
      have taken : takeChunks [] response.body = .read (.ok octets) := by
        cases cancelled with
        | true => cases reading
        | false => exact reading
      have found : foundIn key octets = decodeValue text := by
        simp only [foundIn, decode, shows.2 octets taken]
        rfl
      change Warrants key known (match foundIn key octets with
        | .ok _ => .error (.alreadyExists key)
        | .error failure => .error failure) ∧ ∀ other, foundIn key octets ≠ .error (.notFound other)
      rw [found]
      cases decoded : decodeValue text with
      | ok value => exact ⟨⟨rfl, present⟩, fun other same => by cases same⟩
      | error failure =>
          obtain ⟨cause, rfl⟩ := decodeValue_error decoded
          exact ⟨trivial, fun other same => by cases same⟩

theorem createWork_meets (settings : Settings) (key : String) (value : Bytes) (known : Insight) :
    (createWork settings key value).Meets (creation settings key) (Warrants key) known := by
  refine Program.Meets.bind (meets_get (Or.inl (ofRequest?_getRequest _)) ?failing ?remote ?missing ?found)
  case failing =>
      intro failure later outside
      cases failure with
      | cancelled => trivial
      | transport cause => trivial
      | _ => cases outside
  case remote =>
      intro later status reason body
      trivial
  case missing =>
      intro response answers absent
      have cleared : (known.learn (getRequest (settings.nameOf key)) response).cleared = true := by
        simp only [Insight.learn, ofRequest?_getRequest, absent, ↓reduceIte]
      refine meets_put (Or.inr ⟨cleared, _, ofRequest?_putRequest _ _⟩) ?_ ?_ ?_
      · exact fun failure later outside => warrants_failing outside
      · exact fun later status reason body => trivial
      · intro written _ success
        simp only [Warrants, creation, Insight.learn, ofRequest?_putRequest, success, ↓reduceIte]
  case found =>
      intro response cancelled result answers success reading
      obtain ⟨text, shows⟩ := answers.2 _ (ofRequest?_getRequest _) success
      have present : (known.learn (getRequest (settings.nameOf key)) response).present = true := by
        simp only [Insight.learn, ofRequest?_getRequest, isNotFound_of_isSuccess success, success,
          Bool.false_eq_true, ↓reduceIte]
      obtain ⟨warrants, other⟩ := @warrants_found key _ _ _ _ _ answers.1 shows present reading
      cases outcome : result >>= foundIn key with
      | ok old =>
          rw [outcome] at warrants
          exact warrants
      | error failure =>
          rw [outcome] at warrants other
          cases failure with
          | notFound name => exact absurd rfl (other name)
          | _ => exact warrants

end SecretStore.CredHub
