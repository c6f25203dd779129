import SecretStore.Proofs.Http.Program

namespace SecretStore.Http

open Program (Host)

variable {α β : Type}

def Response.Is2xx (response : Response) : Prop := 200 ≤ response.status ∧ response.status ≤ 299

theorem Response.isSuccess_iff {response : Response} : response.isSuccess = true ↔ response.Is2xx := by
  simp only [isSuccess, Is2xx, Bool.and_eq_true, decide_eq_true_eq]
  omega

theorem Response.isNotFound_iff {response : Response} : response.isNotFound = true ↔ response.status = 404 := by
  rw [isNotFound, decide_eq_true_eq]

/-- The body ends after these octets or breaks off with this fault, whatever would follow. -/
inductive Delivers : List Chunk → Except Transport Bytes → Prop where
  | ended (pieces : List Bytes) : Delivers (pieces.map .octets) (.ok pieces.flatten)
  | broken (pieces : List Bytes) (fault : Transport) (rest : List Chunk) :
      Delivers (pieces.map .octets ++ .failure (.transport fault) :: rest) (.error fault)

theorem takeChunks_octets (taken : Bytes) (pieces : List Bytes) (rest : List Chunk) :
    takeChunks taken (pieces.map .octets ++ rest) = takeChunks (taken ++ pieces.flatten) rest := by
  induction pieces generalizing taken with
  | nil => simp
  | cons piece pieces ih => simp [takeChunks, ih]

theorem Delivers.readOn {body : List Chunk} {delivery : Except Transport Bytes} (delivers : Delivers body delivery) :
    readOn false [] body = .read (delivery.mapError .transport) := by
  cases delivers with
  | ended pieces =>
      have taken := takeChunks_octets [] pieces []
      rw [List.append_nil] at taken
      exact taken
  | broken pieces fault rest => exact takeChunks_octets [] pieces _

theorem delivers_ofBytes (status : Nat) (reason : String) (octets : Bytes) :
    Delivers (Response.ofBytes status reason octets).body (.ok octets) := by
  have ended := Delivers.ended [octets]
  rwa [List.flatten_singleton] at ended

namespace Program

def opening? : Program α → Option (Request × (Except Failure Response → Program α))
  | .log _ next => next.opening?
  | .send request next => some (request, next)
  | _ => none

theorem opening?_bind {program : Program α} {request : Request} {next : Except Failure Response → Program α}
    (opens : program.opening? = some (request, next)) (f : α → Program β) :
    (program.bind f).opening? = some (request, fun result => (next result).bind f) := by
  induction program with
  | log line program ih => exact ih opens
  | send asked rest _ =>
      cases opens
      rfl
  | done value => cases opens
  | await asked rest _ => cases opens
  | read taken body rest _ => cases opens

end Program

namespace Action

def Finds (action : Action α) (result : Except Failure α) : Prop :=
  ∀ (σ : Type) (host : Host σ) (token : Token) (state : σ), host.isCancelled token state = false →
    Runs host token action state result state

def Results (action : Action α) (result : Except Failure α) : Prop :=
  ∀ (σ : Type) (host : Host σ) (token : Token) (state : σ), host.isCancelled token state = false →
    ∃ last, Runs host token action state result last

variable {action : Action α} {next : α → Action β} {value : α} {failure : Failure} {result : Except Failure β}

theorem Finds.results {result : Except Failure α} (finds : Finds action result) : Results action result :=
  fun σ host token state awake => ⟨state, finds σ host token state awake⟩

theorem Results.fail (first : Results action (.error failure)) : Results (action >>= next) (.error failure) := by
  intro σ host token state awake
  obtain ⟨last, runs⟩ := first σ host token state awake
  exact ⟨last, .fail runs⟩

theorem Finds.bind (first : Finds action (.ok value)) (rest : Finds (next value) result) :
    Finds (action >>= next) result :=
  fun σ host token state awake => .bind (first σ host token state awake) (rest σ host token state awake)

theorem Finds.fail (first : Finds action (.error failure)) : Finds (action >>= next) (.error failure) :=
  fun σ host token state awake => .fail (first σ host token state awake)

theorem finds_tryCatch {result : Except Failure α} {handler : Failure → Action α}
    (first : Finds action (.error failure)) (rest : Finds (handler failure) result) :
    Finds (tryCatch action handler) result :=
  fun σ host token state awake => Program.Runs.bind (first σ host token state awake) (rest σ host token state awake)

theorem finds_tryCatch_ok (first : Finds action (.ok value)) (handler : Failure → Action α) :
    Finds (tryCatch action handler) (.ok value) :=
  fun σ host token state awake => Program.Runs.bind (first σ host token state awake) rfl

theorem finds_pure (value : α) : Finds (pure value) (.ok value) :=
  fun _ host token state _ => runs_pure host token value state

theorem finds_throw (failure : Failure) : Finds (throw failure : Action α) (.error failure) :=
  fun _ host token state _ => runs_throw host token failure state

theorem finds_ofResult (result : Except Failure α) : Finds (ofResult result) result :=
  fun _ host token state _ => runs_ofResult host token result state

theorem finds_readBody {response : Response} {delivery : Except Transport Bytes}
    (delivers : Delivers response.body delivery) :
    Finds (readBody response) (delivery.mapError .transport) := by
  intro σ host token state awake
  apply runs_readBody
  rw [awake]
  exact delivers.readOn

theorem finds_readJson {reader : Json.Reader α} {response : Response} {octets : Bytes}
    (delivers : Delivers response.body (.ok octets)) : Finds (readJson reader response) (decode reader octets) :=
  Finds.bind (finds_readBody delivers) (finds_ofResult _)

theorem finds_readJson_broken {reader : Json.Reader α} {response : Response} {fault : Transport}
    (delivers : Delivers response.body (.error fault)) :
    Finds (readJson reader response) (.error (.transport fault)) :=
  Finds.fail (finds_readBody delivers)

def Begins (action : Action α) (request : Request) : Prop := ∃ next, action.run.opening? = some (request, next)

/-- The action sends this request first. After the response it sends nothing else and ends with the result. -/
def Concludes (action : Action α) (request : Request) (response : Response) (result : Except Failure α) : Prop :=
  ∃ next, action.run.opening? = some (request, next) ∧ Results (ExceptT.mk (next (.ok response))) result

theorem concludes_request {request : Request} {response : Response} {next : Response → Action α}
    {result : Except Failure α} (results : Results (next response) result) :
    Concludes (Action.request request >>= next) request response result :=
  ⟨_, rfl, results⟩

theorem concludes_log {request : Request} {response : Response} {line : Log.Line} {next : Unit → Action α}
    {result : Except Failure α} (concludes : Concludes (next ()) request response result) :
    Concludes (log line >>= next) request response result :=
  concludes

theorem Concludes.map {request : Request} {response : Response} {result : Except Failure α}
    (concludes : Concludes action request response result) (f : α → β) :
    Concludes (action >>= fun value => pure (f value)) request response (result.map f) := by
  obtain ⟨next, opens, results⟩ := concludes
  refine ⟨_, Program.opening?_bind opens _, fun σ host token state awake => ?_⟩
  obtain ⟨last, runs⟩ := results σ host token state awake
  refine ⟨last, Program.Runs.bind runs ?_⟩
  cases result with
  | ok value => rfl
  | error failure => rfl

def idle : Host Unit where
  log _ state := state
  isCancelled _ _ := false
  send _ _ state := (.ok (), state)
  receive _ _ _ := none

theorem Concludes.unique {request : Request} {response : Response} {result other : Except Failure α}
    (concludes : Concludes action request response result) (concludes' : Concludes action request response other) :
    result = other := by
  obtain ⟨next, opens, results⟩ := concludes
  obtain ⟨next', opens', results'⟩ := concludes'
  rw [opens] at opens'
  cases opens'
  obtain ⟨last, runs⟩ := results Unit idle "" () rfl
  obtain ⟨last', runs'⟩ := results' Unit idle "" () rfl
  rw [Runs, Program.Runs] at runs runs'
  rw [runs] at runs'
  cases runs'
  rfl

end Action

end SecretStore.Http
