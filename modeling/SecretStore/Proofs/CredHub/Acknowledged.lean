import SecretStore.Proofs.CredHub.Naming
import SecretStore.Proofs.Http.Redirect

namespace SecretStore.CredHub

open Http Http.Action Http.Url

variable {σ α β : Type} {client : Client} {network : Network σ} {token : Token}

structure Observed where
  result : Option (Except Failure Answer)
  trail : List Exchanged

namespace Observed

def done (observed : Observed) : Bool :=
  match observed.result with
  | some (.ok _) => true
  | _ => false

theorem not_done {observed : Observed} (fails : ∀ answer, observed.result ≠ some (.ok answer)) :
    observed.done = false := by
  rw [done]
  split
  · rename_i answer same
    exact absurd same (fails answer)
  · rfl

/-- A server has received this request for a target that is meant, and has answered with success. -/
def Made (observed : Observed) (request : Request) (isMeant : Url → Prop) : Prop :=
  ∃ exchanged ∈ observed.trail, exchanged.Succeeded ∧ exchanged.sent.method = request.method ∧
    exchanged.sent.body = request.body ∧ isMeant exchanged.sent.url

instance (observed : Observed) (request : Request) (isMeant : Url → Prop) [DecidablePred isMeant] :
    Decidable (observed.Made request isMeant) :=
  inferInstanceAs (Decidable (∃ exchanged ∈ observed.trail, _))

def IsUnfounded (observed : Observed) (request : Request) (isMeant : Url → Prop) : Prop :=
  observed.done = true ∧ ¬ observed.Made request isMeant

instance (observed : Observed) (request : Request) (isMeant : Url → Prop) [DecidablePred isMeant] :
    Decidable (observed.IsUnfounded request isMeant) :=
  inferInstanceAs (Decidable (_ ∧ ¬ _))

/-- Each request of the trail has the method and the body of the one before it. -/
def IsKept (observed : Observed) : Prop := observed.trail.IsChain Exchanged.Keeps

instance (observed : Observed) : Decidable observed.IsKept :=
  inferInstanceAs (Decidable (observed.trail.IsChain Exchanged.Keeps))

end Observed

namespace Client

def observed (client : Client) (network : Network σ) (token : Token) (cancelled : List Token) (state : σ)
    (action : Action Answer) : Observed :=
  let after := Program.run (client.host network.watched) token action.run { cancelled, network := (state, []) }
  ⟨after.1.result?, after.2.network.2⟩

def Fruitless (world : World σ) (after : Program (Except Failure α) × World σ) : Prop :=
  after.2.network = world.network ∧ ∀ value, after.1.result? ≠ some (.ok value)

def Refused (client : Client) (network : Network σ) (token : Token) (program : Program (Except Failure α)) :
    Prop :=
  ∀ world, Fruitless world (Program.run (client.host network) token program world)

theorem refused_error (failure : Failure) :
    client.Refused network token (.done (.error failure) : Program (Except Failure α)) :=
  fun _ => ⟨rfl, by simp [Program.run, Program.result?]⟩

theorem refused_refuse (operation : String) (response : Response) (next : α → Action β) :
    client.Refused network token (refuse operation response >>= next : Action β).run := by
  intro world
  change Fruitless world (Program.run _ token (.read [] response.body _) world)
  rw [Program.run]
  cases readOn ((client.host network).isCancelled token world) [] response.body with
  | waiting taken rest => exact ⟨rfl, by simp [Program.result?]⟩
  | read result =>
      cases result with
      | ok octets => exact ⟨rfl, fun value same => by cases same⟩
      | error failure => cases failure <;> exact ⟨rfl, fun value same => by cases same⟩

structure Makes (client : Client) (network : Network σ) (token : Token) (request : Request)
    (program : Program (Except Failure Answer)) : Prop where
  shape : ∃ line next, program = .log line (.send request next) ∧
    (∀ failure, next (.error failure) = .done (.error failure)) ∧
    (∀ response, response.isSuccess = true → next (.ok response) = .done (.ok .done)) ∧
    ∀ response, response.isSuccess = false → client.Refused network token (next (.ok response))

theorem makes_set (client : Client) (network : Network σ) (token : Token) (settings : Settings) (key : String)
    (value : Bytes) :
    client.Makes network token (putRequest (settings.nameOf key) (encodeValue value settings.forceBase64))
      (program settings (.set key value)).run := by
  refine ⟨_, _, rfl, fun _ => rfl, ?_, ?_⟩
  · intro response success
    change ((if !response.isSuccess then refuse putOperation response else pure () : Action Unit) >>=
      fun _ => pure Answer.done).run = _
    rw [success]
    rfl
  · intro response fails
    change client.Refused network token ((if !response.isSuccess then refuse putOperation response
      else pure () : Action Unit) >>= fun _ => pure Answer.done).run
    rw [fails]
    exact refused_refuse putOperation response _

theorem makes_delete (client : Client) (network : Network σ) (token : Token) (settings : Settings)
    (key : String) :
    client.Makes network token (deleteRequest (settings.nameOf key)) (program settings (.delete key)).run := by
  refine ⟨_, _, rfl, fun _ => rfl, ?_, ?_⟩
  · intro response success
    change ((if response.isNotFound then throw (.notFound key) else
      if !response.isSuccess then refuse deleteOperation response else pure () : Action Unit) >>=
      fun _ => pure Answer.done).run = _
    rw [isNotFound_of_isSuccess success, success]
    rfl
  · intro response fails
    change client.Refused network token ((if response.isNotFound then throw (.notFound key) else
      if !response.isSuccess then refuse deleteOperation response else pure () : Action Unit) >>=
      fun _ => pure Answer.done).run
    rw [fails]
    cases response.isNotFound with
    | true => exact refused_error (.notFound key)
    | false => exact refused_refuse deleteOperation response _

variable {request : Request} {action : Action Answer} {cancelled : List Token} (state : σ)

theorem observed_cancelled (makes : client.Makes network.watched token request action.run)
    (stopped : token ∈ cancelled) :
    client.observed network token cancelled state action = ⟨some (.error .cancelled), []⟩ := by
  obtain ⟨line, next, shape, failing, -⟩ := makes
  simp only [observed, shape, Program.run, host, send, World.isCancelled, World.log,
    List.contains_iff_mem.2 stopped, ↓reduceIte, failing, Program.result?]

theorem observed_refused (makes : client.Makes network.watched token request action.run)
    (awake : token ∉ cancelled) {fault : Transport}
    (bad : Sent.ofText request.method (client.addressOf request) request.body = .error fault) :
    client.observed network token cancelled state action = ⟨some (.error (.transport fault)), []⟩ := by
  obtain ⟨line, next, shape, failing, -⟩ := makes
  have goesOn : cancelled.contains token = false := by simpa using awake
  simp only [observed, shape, Program.run, host, send, receive, ask, World.isCancelled, World.log,
    goesOn, Bool.false_eq_true, ↓reduceIte, bad, failing, Program.result?]

theorem run_sent (network : Network σ) (line : Log.Line)
    (next : Except Failure Response → Program (Except Failure Answer)) {world : World σ}
    (awake : world.isCancelled token = false) {sent : Sent}
    (good : Sent.ofText request.method (client.addressOf request) request.body = .ok sent) :
    ∃ after : World σ, after.network = (fetch network sent world.network).2 ∧
      Program.run (client.host network) token (.log line (.send request next)) world =
        Program.run (client.host network) token (next (match (fetch network sent world.network).1 with
          | .ok received => .ok ⟨received.status, Status.reason received.status, received.body⟩
          | .error fault => .error (.transport fault))) after := by
  have goesOn : world.cancelled.contains token = false := awake
  simp only [Program.run, host, send, receive, ask, World.isCancelled, World.log, goesOn,
    Bool.false_eq_true, ↓reduceIte, good]
  obtain ⟨answer, left⟩ := fetch network sent world.network
  cases answer <;> exact ⟨_, rfl, rfl⟩

theorem observed_sent (makes : client.Makes network.watched token request action.run)
    (awake : token ∉ cancelled) {sent : Sent}
    (good : Sent.ofText request.method (client.addressOf request) request.body = .ok sent) :
    (client.observed network token cancelled state action).trail =
        (fetch network.watched sent (state, [])).2.2 ∧
      ((client.observed network token cancelled state action).done = true ↔
        ∃ last, (fetch network.watched sent (state, [])).1 = .ok last ∧ last.IsSuccess) := by
  obtain ⟨line, next, shape, failing, succeeding, refusing⟩ := makes
  have goesOn : World.isCancelled token { cancelled, network := (state, ([] : List Exchanged)) } = false := by
    simpa [World.isCancelled] using awake
  obtain ⟨after, seen, ran⟩ := run_sent network.watched line next goesOn good
  simp only [observed, shape, ran, ← seen]
  cases fetch network.watched sent (state, []) with
  | mk answer left =>
  cases answer with
  | error fault => simp [failing, Program.run, Program.result?, Observed.done]
  | ok received =>
      obtain ⟨response, given⟩ : ∃ response : Response,
          response = ⟨received.status, Status.reason received.status, received.body⟩ := ⟨_, rfl⟩
      have succeeds : received.IsSuccess ↔ response.isSuccess = true := by
        simp [given, Response.isSuccess, Received.IsSuccess]
      simp only [← given, Except.ok.injEq, exists_eq_left', succeeds]
      cases success : response.isSuccess with
      | true => simp [succeeding response success, Program.run, Program.result?, Observed.done]
      | false =>
          obtain ⟨still, fails⟩ := refusing response success after
          refine ⟨by rw [still], iff_of_false ?_ (by simp)⟩
          rw [Bool.not_eq_true]
          exact Observed.not_done fails

theorem done_iff (cancelled : List Token) (makes : client.Makes network.watched token request action.run) :
    (client.observed network token cancelled state action).done = true ↔
      token ∉ cancelled ∧ ∃ sent,
        Sent.ofText request.method (client.addressOf request) request.body = .ok sent ∧
          ∃ last, Followed network.redirects sent (client.observed network token cancelled state action).trail last ∧
            last.IsSuccess := by
  by_cases stopped : token ∈ cancelled
  · simp [observed_cancelled state makes stopped, stopped, Observed.done]
  · cases made : Sent.ofText request.method (client.addressOf request) request.body with
    | error fault => simp [observed_refused state makes stopped made, Observed.done]
    | ok sent =>
        obtain ⟨trail, done⟩ := observed_sent state makes stopped made
        obtain ⟨chain, seen, followed⟩ := fetchWithin_watched network network.redirects.limit sent state []
        change (fetch network.watched sent (state, [])).2.2 = chain at seen
        rw [done, trail, seen]
        simp only [stopped, not_false_eq_true, true_and, Except.ok.injEq, exists_eq_left']
        exact exists_congr fun last => and_congr_left fun _ => followed last

end Client

structure Acknowledged (client : Client) (redirects : Redirects) (request : Request) (isMeant : Url → Prop)
    (awake : Prop) (observed : Observed) : Prop where
  done_iff : observed.done = true ↔ awake ∧ ∃ sent,
    Sent.ofText request.method (client.addressOf request) request.body = .ok sent ∧
      ∃ last, Followed redirects sent observed.trail last ∧ last.IsSuccess
  made_iff : observed.done = true → (observed.Made request isMeant ↔
    observed.IsKept ∧ ∀ exchanged ∈ observed.trail.getLast?, isMeant exchanged.sent.url)
  kept : observed.done = true → (∀ exchanged ∈ observed.trail.dropLast, exchanged.AnsweredBy [307, 308]) →
    observed.IsKept
  not_kept : observed.done = true → ∀ exchanged ∈ observed.trail.dropLast, exchanged.AnsweredBy [303] →
    ¬ observed.IsKept
  read : observed.done = true → ¬ observed.IsKept →
    ∃ exchanged ∈ observed.trail.getLast?, exchanged.Succeeded ∧ exchanged.sent.IsReading
  typed : observed.done = true → ∀ exchanged ∈ observed.trail, exchanged.sent.IsTyped

theorem Client.Makes.acknowledged {request : Request} {action : Action Answer} (cancelled : List Token)
    (state : σ) (isMeant : Url → Prop) (documented : network.redirects.Documented)
    (makes : client.Makes network.watched token request action.run)
    (changes : request.method ∉ [.get, .head]) :
    Acknowledged client network.redirects request isMeant (token ∉ cancelled)
      (client.observed network token cancelled state action) := by
  have done_iff := Client.done_iff state cancelled makes
  generalize client.observed network token cancelled state action = observed at done_iff
  have ending (done : observed.done = true) : ∃ sent before final last,
      observed.trail = before ++ [⟨final, some last⟩] ∧ last.IsSuccess ∧ sent.method = request.method ∧
        sent.body = request.body ∧ Led sent before ⟨final, some last⟩ := by
    obtain ⟨-, sent, good, last, followed, success⟩ := done_iff.1 done
    obtain ⟨url, rfl⟩ := Sent.ofText_eq_ok good
    obtain ⟨before, final, trail, led⟩ := followed.split documented
    exact ⟨_, before, final, last, trail, success, rfl, rfl, led⟩
  refine ⟨done_iff, ?_, ?_, ?_, ?_, ?_⟩
  · intro done
    obtain ⟨sent, before, final, last, trail, success, method, body, led⟩ := ending done
    simp only [Observed.Made, Observed.IsKept, trail, List.getLast?_concat, Option.mem_some_iff, forall_eq']
    constructor
    · rintro ⟨exchanged, member, succeeded, same, -, meant⟩
      rcases List.mem_append.1 member with early | late
      · exact absurd succeeded (led.failing exchanged early)
      · obtain rfl := List.mem_singleton.1 late
        refine ⟨?_, meant⟩
        -- A broken chain ends in a reading, whose method is not that of a change.
        by_contra broken
        exact changes (same ▸ (led.losing broken).1)
    · rintro ⟨kept, meant⟩
      obtain ⟨method', body'⟩ := led.keeping kept
      exact ⟨_, List.mem_append_right _ List.mem_cons_self, ⟨last, rfl, success⟩, method'.trans method,
        body'.trans body, meant⟩
  · intro done answered
    obtain ⟨sent, before, final, last, trail, -, -, -, led⟩ := ending done
    rw [trail, List.dropLast_concat] at answered
    rw [Observed.IsKept, trail]
    exact led.kept answered
  · intro done exchanged member answered kept
    obtain ⟨sent, before, final, last, trail, -, method, -, led⟩ := ending done
    rw [trail, List.dropLast_concat] at member
    rw [Observed.IsKept, trail] at kept
    have reading := (led.turned exchanged member answered).1
    rw [(led.keeping kept).1, method] at reading
    exact changes reading
  · intro done lost
    obtain ⟨sent, before, final, last, trail, success, -, -, led⟩ := ending done
    rw [Observed.IsKept, trail] at lost
    rw [trail, List.getLast?_concat]
    exact ⟨_, rfl, ⟨last, rfl, success⟩, led.losing lost⟩
  · intro done
    obtain ⟨-, sent, good, last, followed, -⟩ := done_iff.1 done
    obtain ⟨url, rfl⟩ := Sent.ofText_eq_ok good
    exact followed.typed documented rfl

def names (settings : Settings) (key : String) (url : Url) : Prop :=
  valuesOf "name" url.target = [Utf8.bytes (settings.nameOf key)]

instance (settings : Settings) (key : String) : DecidablePred (names settings key) :=
  fun _ => inferInstanceAs (Decidable (_ = _))

theorem names_of_straight {host : String} (named : IsHost host) (based : client.base = "http://" ++ host)
    {settings : Settings} {key : String} {sent : Sent}
    (good : Sent.ofText .delete (client.addressOf (deleteRequest (settings.nameOf key))) none = .ok sent) :
    names settings key sent.url ↔ IsLiteral (settings.nameOf key).toList := by
  have path : (deleteRequest (settings.nameOf key)).path = String.ofList ('/' ::
      ("api/v1/data".toList ++ '?' :: ("name=".toList ++ (settings.nameOf key).toList))) := by
    rw [← String.toList_inj]
    simp only [deleteRequest, String.toList_append, String.toList_ofList]
    rfl
  obtain ⟨url, -, fits, long, values⟩ := ofText_naming named based (by decide) path
  by_cases fitting : url.Fits
  · have made := fits fitting
    change Sent.ofText .delete _ none = _ at made
    rw [good, Except.ok.injEq] at made
    rw [made]
    exact values
  · obtain ⟨fault, refused⟩ := long fitting
    change Sent.ofText .delete _ none = _ at refused
    rw [good] at refused
    cases refused

/-- A success of setting is one of the write if every redirect has kept the method and the body. A success of deleting
is one of the removal if, moreover, the last request names the credential. Without a redirect it does if and only if
the name is literal. -/
theorem acknowledged_iff (client : Client) (settings : Settings) (network : Network σ)
    (documented : network.redirects.Documented) (token : Token) (cancelled : List Token) (state : σ)
    (key : String) (value : Bytes) :
    Acknowledged client network.redirects
        (putRequest (settings.nameOf key) (encodeValue value settings.forceBase64))
        (fun _ => True) (token ∉ cancelled)
        (client.observed network token cancelled state (program settings (.set key value))) ∧
      ∀ deleted, deleted = client.observed network token cancelled state (program settings (.delete key)) →
        Acknowledged client network.redirects (deleteRequest (settings.nameOf key)) (names settings key)
          (token ∉ cancelled) deleted ∧
        ∀ host, IsHost host → client.base = "http://" ++ host → deleted.done = true →
          deleted.trail.length = 1 →
          (deleted.Made (deleteRequest (settings.nameOf key)) (names settings key) ↔
            IsLiteral (settings.nameOf key).toList) := by
  have written := (Client.makes_set client network.watched token settings key value).acknowledged
    cancelled state (fun _ => True) documented (by decide : Method.put ∉ [.get, .head])
  have removed := (Client.makes_delete client network.watched token settings key).acknowledged
    cancelled state (names settings key) documented (by decide : Method.delete ∉ [.get, .head])
  refine ⟨written, ?_⟩
  rintro deleted rfl
  refine ⟨removed, ?_⟩
  intro host named based done alone
  obtain ⟨-, sent, good, last, followed, -⟩ := removed.done_iff.1 done
  rw [removed.made_iff done, ← names_of_straight named based good]
  simp [Observed.IsKept, followed.eq_singleton alone]

def answering (redirects : Redirects) : Network (List Received) where
  exchange _ answers := (answers.head?, answers.tail)
  redirects := redirects

def loopbackObserved (redirects : Redirects) (call : Call) (answers : List Received) : Observed :=
  Client.observed ⟨"http://127.0.0.1:8844"⟩ (answering redirects) "" [] answers (program loopback call)

def answered : Received := ⟨200, none, []⟩

def moved (status : Nat) : Received := ⟨status, some "/moved", []⟩

theorem acknowledged_iff_kept :
    Redirects.standard.Documented ∧
      (loopbackObserved .standard (.set "k" [118]) [moved 307, answered]).Made (putRequest "/kes/k" "v")
        (fun _ => True) ∧
      (loopbackObserved .standard (.delete "50%") [answered]).Made (deleteRequest "/kes/50%")
        (names loopback "50%") := by
  have documented := Redirects.documented_turning (· = .post)
  have settled := acknowledged_iff ⟨"http://127.0.0.1:8844"⟩ loopback (answering .standard) documented "" []
  refine ⟨documented, ?_, ?_⟩
  · refine ((settled [moved 307, answered] "k" [118]).1.made_iff (by decide +kernel)).2 ⟨?_, ?_⟩
    · decide +kernel
    · exact fun _ _ => trivial
  · obtain ⟨-, straight⟩ := (settled [answered] "50%" []).2 _ rfl
    refine (straight "127.0.0.1:8844" isHost_loopback (by decide +kernel) (by decide +kernel)
      (by decide +kernel)).2 ?_
    exact {
      signs := List.all_iff_forall_prop.1 (by decide +kernel)
      ending := fun other found =>
        Option.some.inj ((by decide +kernel : (loopback.nameOf "50%").toList.getLast? = some '%').symm.trans
          found) ▸ rfl
      percents := percentDecode_eq_self_iff.1 (by decide +kernel) }

/-- With each of the two policies that releases have had, a change that is answered by 303 is left undone. Deleting
`a\tb` asks for another credential. -/
theorem loopback_unacknowledged :
    (loopbackObserved .standard (.set "k" [118]) [moved 303, answered]).IsUnfounded (putRequest "/kes/k" "v")
        (fun _ => True) ∧
      (loopbackObserved (.turning fun _ => true) (.set "k" [118]) [moved 303, answered]).IsUnfounded
        (putRequest "/kes/k" "v") (fun _ => True) ∧
      (loopbackObserved .standard (.delete "k") [moved 303, answered]).IsUnfounded (deleteRequest "/kes/k")
        (fun _ => True) ∧
      (loopbackObserved .standard (.delete "a\tb") [answered]).IsUnfounded (deleteRequest "/kes/a\tb")
        (names loopback "a\tb") := by
  decide +kernel

end SecretStore.CredHub
