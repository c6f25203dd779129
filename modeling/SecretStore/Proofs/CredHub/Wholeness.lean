import SecretStore.Proofs.CredHub.Ledger
import SecretStore.Proofs.CredHub.Secrecy

namespace SecretStore.CredHub

open Http Http.Action
open Program (Host Steps StepsAt)

structure RecutResponse (response response' : Response) : Prop where
  status : response.status = response'.status
  reason : response.reason = response'.reason
  body : Recut response.body response'.body

structure RecutReply (reply reply' : Reply) : Prop where
  meantFor : reply.meantFor = reply'.meantFor
  result : Alike RecutResponse reply.result reply'.result

theorem RecutResponse.alike {response response' : Response} (recut : RecutResponse response response') :
    response.Alike (Veiled True) response' where
  status := recut.status
  reason := recut.reason
  body := by
    rw [recut.body.takeChunks]
    exact takeChunks_alike_refl (veiled_refl True) [] response'.body

theorem RecutReply.alike {reply reply' : Reply} (recut : RecutReply reply reply') :
    reply.Alike (Veiled True) reply' where
  meantFor := recut.meantFor
  result := by
    obtain ⟨-, result⟩ := recut
    generalize reply.result = found at result ⊢
    generalize reply'.result = found' at result ⊢
    cases result with
    | ok responses => exact .ok responses.alike
    | error failure => exact .error failure

theorem RecutResponse.run {σ α : Type} {response response' : Response} (recut : RecutResponse response response')
    (host : Host σ) (token : Token) (next : Bytes → Action α) (state : σ) :
    Program.run host token (readBody response >>= next).run state =
      Program.run host token (readBody response' >>= next).run state :=
  recut.body.run_read host token [] _ state

structure Shown (response : Response) (status : Nat) (reason text : String) : Prop where
  status : response.status = status
  reason : response.reason = reason
  text : Transcribes response text

theorem Fits.told {α : Type} {account : Account} {operation : String} {status : Nat} {reason text : String}
    (fits : Fits account (.error (.remote operation status reason text) : Except Failure α)) :
    ∃ response ∈ account.heard, Shown response status reason text ∨
      .failure (.remote operation status reason text) ∈ response.body := by
  cases fits with
  | refused heard failed transcribes warned => exact ⟨_, heard, .inl ⟨rfl, rfl, transcribes⟩⟩
  | unhealthy heard success whole quiet => exact ⟨_, heard, .inl ⟨rfl, rfl, .whole whole⟩⟩
  | passedOn heard member quiet => exact ⟨_, heard, .inr member⟩
  | plain other quiet => exact absurd rfl (other operation status reason text)

theorem program_told {settings : Settings} {call : Call} {deeds : List Deed} {operation : String} {status : Nat}
    {reason text : String}
    (steps : Steps (program settings call).run deeds (.done (.error (.remote operation status reason text)))) :
    ∃ request response, .receives request response ∈ deeds ∧
      (Shown response status reason text ∨ .failure (.remote operation status reason text) ∈ response.body) := by
  have fits : Fits (.ofDeeds deeds) (.error (.remote operation status reason text) : Outcome) :=
    (reports_program settings call).steps steps
  obtain ⟨response, heard, told⟩ := fits.told
  obtain ⟨request, received⟩ := Account.received_of_heard heard
  exact ⟨request, response, received, told⟩

section

variable {ι : Type} [DecidableEq ι] {settings : Settings} {past : List (Moment ι)} {service : Service ι}

omit [DecidableEq ι] in
theorem ComesTo.teller {id : ι} {call : Call} {operation : String} {status : Nat} {reason text : String}
    (comesTo : ComesTo past service id call (.error (.remote operation status reason text))) :
    ∃ teller, resultOf? past service teller = some (.error (.remote operation status reason text)) := by
  generalize told : Except.error (Failure.remote operation status reason text) = outcome at comesTo
  cases comesTo with
  | alone found =>
      subst told
      exact ⟨id, found⟩
  | @joined key value leader result unfound foreign found =>
      cases result with
      | ok _ => cases told
      | error failure =>
          cases told
          exact ⟨leader, found⟩

theorem Course.told (course : Course settings past service) {id : ι} {visit : Visit} {operation : String}
    {status : Nat} {reason text : String} (here : service.visits id = some visit)
    (ended : visit.task.outcome? = some (.error (.remote operation status reason text))) :
    ∃ moment ∈ past, ∃ teller request response, moment.deed = some (teller, .receives request response) ∧
      Shown response status reason text := by
  obtain ⟨teller, found⟩ := (course.comesTo here ended).teller
  obtain ⟨fair, fits⟩ := course.fits found
  obtain ⟨response, heard, told | passedOn⟩ := fits.told
  · obtain ⟨moment, member, request, received⟩ := received_of_heard heard
    exact ⟨moment, member, teller, request, response, received, told⟩
  · cases fair response heard _ passedOn

end

structure ReadsWhole (settings : Settings) : Prop where
  /-- The token is not cancelled before any chunk, nor before the end. -/
  octets_iff : ∀ {response token octets}, StepsAt token (readBody response).run (.done (.ok octets)) ↔
    ∃ pieces : List Bytes, response.body = pieces.map .octets ∧ octets = pieces.flatten ∧
      token = List.replicate (pieces.length + 1) false
  failure_iff : ∀ {response token failure}, StepsAt token (readBody response).run (.done (.error failure)) ↔
    ∃ (pieces : List Bytes) (rest : List Chunk), response.body = pieces.map .octets ++ rest ∧
      (((∃ more, rest = .failure failure :: more) ∧ token = List.replicate (pieces.length + 1) false) ∨
        failure = .cancelled ∧ token = List.replicate pieces.length false ++ [true])
  readOn_ok_iff : ∀ {cancelled taken octets body}, readOn cancelled taken body = .read (.ok octets) ↔
    cancelled = false ∧ ∃ pieces : List Bytes, body = pieces.map .octets ∧ octets = taken ++ pieces.flatten
  readOn_error_iff : ∀ {cancelled taken failure body}, readOn cancelled taken body = .read (.error failure) ↔
    cancelled = true ∧ failure = .cancelled ∨
    cancelled = false ∧
      ∃ (pieces : List Bytes) (rest : List Chunk), body = pieces.map .octets ++ .failure failure :: rest
  readOn_iff_steps : ∀ {cancelled taken body result}, readOn cancelled taken body = .read result ↔
    ∃ count, StepsAt (List.replicate count cancelled) (.read taken body .done) (.done result)
  /-- The token may be cancelled between any two chunks. -/
  outcomes_recut : ∀ {response response'}, RecutResponse response response' →
    ∀ {α : Type} (next : Bytes → Action α) result,
      (∃ token, StepsAt token (readBody response >>= next).run (.done result)) ↔
        ∃ token, StepsAt token (readBody response' >>= next).run (.done result)
  reads_recut : ∀ {response response'}, RecutResponse response response' →
    ∀ {σ : Type} (host : Host σ) (token : Token) (state : σ),
      Program.run host token (readBody response).run state = Program.run host token (readBody response').run state ∧
      Program.run host token (readText response).run state = Program.run host token (readText response').run state ∧
      ∀ {α : Type} (reader : Json.Reader α), Program.run host token (readJson reader response).run state =
        Program.run host token (readJson reader response').run state
  sessions_recut : ∀ {queued queued' commands commands'}, List.Forall₂ RecutReply queued queued' →
    List.Forall₂ (Command.Alike RecutReply) commands commands' →
    (Session.ofSettings settings queued).results commands = (Session.ofSettings settings queued').results commands' ∧
      List.Forall₂ (Session.LooksAlike RecutReply) ((Session.ofSettings settings queued).history commands)
        ((Session.ofSettings settings queued').history commands')
  /-- A remote failure shows the whole body or an empty one, or it is a failure of the body itself. -/
  told_alone : ∀ {call deeds operation status reason text},
    Steps (program settings call).run deeds (.done (.error (.remote operation status reason text))) →
    ∃ request response, .receives request response ∈ deeds ∧
      (Shown response status reason text ∨ .failure (.remote operation status reason text) ∈ response.body)
  told_together : ∀ {ι : Type} [DecidableEq ι] {past : List (Moment ι)} {service : Service ι},
    Course settings past service → ∀ {id visit operation status reason text}, service.visits id = some visit →
    visit.task.outcome? = some (.error (.remote operation status reason text)) →
    ∃ moment ∈ past, ∃ teller request response, moment.deed = some (teller, .receives request response) ∧
      Shown response status reason text
  verbatim : ∀ {octets text}, Utf8.text? octets = some text → Utf8.lossy octets = text

/-- A body is read completely or not at all, and its division into chunks cannot be observed. -/
theorem read_whole (settings : Settings) : ReadsWhole settings where
  octets_iff := Program.read_ok_iff
  failure_iff := Program.read_error_iff
  readOn_ok_iff := readOn_eq_ok_iff
  readOn_error_iff := readOn_eq_error_iff
  readOn_iff_steps := Program.readOn_eq_read_iff
  outcomes_recut {_ _} recut {_} next result := recut.body.outcomes [] _ result
  reads_recut {_ _} recut {_} host token state :=
    ⟨recut.body.run_read host token [] _ state, recut.run host token _ state,
      fun reader => recut.run host token _ state⟩
  sessions_recut replies commands := by
    have sound (reply reply' : Reply) (pair : RecutReply reply reply') := pair.alike
    have start : Session.Alike True RecutReply _ _ := .ofSettings settings replies
    exact ⟨start.results sound trivial commands, start.history sound commands⟩
  told_alone := program_told
  told_together course := course.told
  verbatim := Utf8.lossy_of_text?

theorem read_whole_inside_letter :
    let body := Utf8.bytes "\x7b\"data\":[\x7b\"value\":\"\u00e9\"\x7d]\x7d"
    let whole : List Reply := [⟨none, .ok ⟨200, "OK", [.octets body]⟩⟩]
    let cut : List Reply := [⟨none, .ok ⟨200, "OK", [.octets (body.take 20), .octets [], .octets (body.drop 20)]⟩⟩]
    let commands : List Command := [.call "read" (.get "k") "" []]
    List.Forall₂ RecutReply whole cut ∧
      (Session.ofSettings {} whole).results commands = (Session.ofSettings {} cut).results commands ∧
      (Session.ofSettings {} whole).results commands = [([⟨"read", "", .ok (.value [0xC3, 0xA9])⟩], none)] := by
  intro body whole cut commands
  have recut : List.Forall₂ RecutReply whole cut :=
    .cons ⟨rfl, .ok ⟨rfl, rfl, @Recut.recut [body] [body.take 20, [], body.drop 20] [] (by simp)⟩⟩ .nil
  have same : List.Forall₂ (Command.Alike RecutReply) commands commands := .cons (.call _ _ (.same _) .nil) .nil
  exact ⟨recut, ((read_whole {}).sessions_recut recut same).1, by with_unfolding_all rfl⟩

end SecretStore.CredHub
