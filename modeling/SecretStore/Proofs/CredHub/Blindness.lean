import SecretStore.Proofs.CredHub.Conduct
import SecretStore.Proofs.CredHub.Versions
import SecretStore.Proofs.Http.Alike

namespace SecretStore.CredHub

open Http Http.Action

variable {α β : Type} {exact : Prop}

/-- Both bodies hold a version, or neither does. They are equal if `exact` holds. -/
structure Veiled (exact : Prop) (s t : Bytes) : Prop where
  same : exact → s = t
  empty_iff : versionsReader.whole s = .ok [] ↔ versionsReader.whole t = .ok []

structure Agrees (exact : Prop) (result result' : Except Failure α) : Prop where
  same : exact → result = result'
  absent_iff : ∀ key, result = .error (.notFound key) ↔ result' = .error (.notFound key)

abbrev Asks (exact : Prop) (program program' : Program (Except Failure α)) : Prop :=
  program.Alike (Veiled exact) (Agrees exact) program'

theorem Agrees.rfl {result : Except Failure α} : Agrees exact result result := ⟨fun _ => Eq.refl _, fun _ => Iff.rfl⟩

theorem Agrees.map {result result' : Except Failure α} (agrees : Agrees exact result result') (f : α → β) :
    Agrees exact (result.map f) (result'.map f) where
  same holds := congrArg (Except.map f) (agrees.same holds)
  absent_iff key := by
    have lifted (result : Except Failure α) :
        result.map f = .error (.notFound key) ↔ result = .error (.notFound key) := by
      cases result <;> simp [Except.map]
    rw [lifted, lifted, agrees.absent_iff]

theorem Veiled.agrees {s t : Bytes} (veiled : Veiled exact s t) {f : Bytes → Except Failure α}
    (present : ∀ s key, f s ≠ .error (.notFound key)) : Agrees exact (f s) (f t) where
  same holds := congrArg f (veiled.same holds)
  absent_iff key := iff_of_false (present s key) (present t key)

theorem decode_ne_absent (reader : Json.Reader α) (octets : Bytes) (key : String) :
    decode reader octets ≠ .error (.notFound key) := by
  rw [decode]
  cases reader.whole octets <;> simp [Except.mapError]

theorem decodeValue_ne_absent (text key : String) : decodeValue text ≠ .error (.notFound key) := by
  rw [decodeValue]
  split
  · rename_i payload _
    cases Base64.decode (Utf8.encode payload) <;> simp [Except.mapError]
  · simp

theorem foundIn_absent_iff (key other : String) (octets : Bytes) :
    foundIn key octets = .error (.notFound other) ↔ versionsReader.whole octets = .ok [] ∧ key = other := by
  rw [foundIn, decode]
  cases versionsReader.whole octets with
  | error cause => simp [Except.mapError, bind, Except.bind]
  | ok texts =>
      match texts with
      | [] => simp [Except.mapError, bind, Except.bind, soleVersion]
      | [text] => simp [Except.mapError, bind, Except.bind, soleVersion, decodeValue_ne_absent]
      | first :: second :: rest => simp [Except.mapError, bind, Except.bind, soleVersion]

theorem Veiled.foundIn {s t : Bytes} (veiled : Veiled exact s t) (key : String) :
    Agrees exact (foundIn key s) (foundIn key t) where
  same holds := congrArg (CredHub.foundIn key) (veiled.same holds)
  absent_iff other := by rw [foundIn_absent_iff, foundIn_absent_iff, veiled.empty_iff]

theorem asks_bind {action action' : Action α} {next next' : α → Action β} {related : α → α → Prop}
    (alike : action.run.Alike (Veiled exact) (Alike related) action'.run)
    (onward : ∀ a b, related a b → Asks exact (next a).run (next' b).run) :
    Asks exact (action >>= next).run (action' >>= next').run :=
  alike_bind (fun _ => .rfl) alike onward

theorem asks_map {action action' : Action α} (asks : Asks exact action.run action'.run) (f : α → β) :
    Asks exact (action >>= fun a => (pure (f a) : Action β)).run
      (action' >>= fun a => (pure (f a) : Action β)).run := by
  refine Program.Alike.bind asks fun result result' agrees => ?_
  have mapped := agrees.map f
  cases result <;> cases result' <;> exact .done mapped

theorem asks_refuse (operation : String) {response response' : Response}
    (alike : response.Alike (Veiled exact) response') :
    Asks exact (refuse operation response : Action α).run (refuse operation response' : Action α).run := by
  obtain ⟨status, reason, body⟩ := response
  obtain ⟨status', reason', body'⟩ := response'
  obtain ⟨rfl, rfl, reading⟩ := alike
  refine .read reading fun result result' same => ?_
  cases same with
  | ok veiled =>
      refine .log _ (.done ⟨fun holds => ?_, fun key => iff_of_false ?_ ?_⟩)
      · rw [veiled.same holds]
      · rintro ⟨⟩
      · rintro ⟨⟩
  | error failure =>
      cases failure with
      | cancelled => exact .done .rfl
      | _ => exact .log _ (.done .rfl)

theorem refuse_bind (operation : String) (response : Response) (next : α → Action β) :
    (refuse operation response >>= next) = refuse operation response := by
  refine congrArg (Program.read [] response.body) (funext fun result => ?_)
  cases result with
  | ok octets => rfl
  | error failure => cases failure <;> rfl

theorem asks_unless (operation : String) {response response' : Response}
    (alike : response.Alike (Veiled exact) response') {next next' : Action α} (onward : Asks exact next.run next'.run) :
    Asks exact
      (do if !response.isSuccess then refuse operation response
          next : Action α).run
      (do if !response'.isSuccess then refuse operation response'
          next' : Action α).run := by
  simp only [← alike.isSuccess]
  cases response.isSuccess with
  | true => exact onward
  | false =>
      simp only [Bool.not_false, ↓reduceIte, refuse_bind]
      exact asks_refuse operation alike

theorem asks_readBody {response response' : Response} (alike : response.Alike (Veiled exact) response')
    {f : Bytes → Except Failure α} (present : ∀ s key, f s ≠ .error (.notFound key)) :
    Asks exact (readBody response >>= fun octets => ofResult (f octets)).run
      (readBody response' >>= fun octets => ofResult (f octets)).run :=
  asks_bind (alike_readBody alike) fun _ _ veiled => .done (veiled.agrees present)

section

variable {settings : Settings} {key : String}

theorem outline_putRequest (name text text' : String) :
    (putRequest name text).outline = (putRequest name text').outline := by
  simp only [Request.outline, putRequest, Option.isSome_some]

theorem asks_put (value value' : Bytes) : Asks exact (put settings key value).run (put settings key value').run := by
  refine asks_bind (alike_request (outline_putRequest _ _ _)) fun response response' alike => ?_
  simp only [← alike.isSuccess]
  cases response.isSuccess with
  | true => exact .done .rfl
  | false => exact asks_refuse putOperation alike

theorem asks_set (value value' : Bytes) : Asks exact (set settings key value).run (set settings key value').run :=
  asks_bind (alike_log _) fun _ _ _ => asks_put value value'

theorem asks_get : Asks exact (get settings key).run (get settings key).run := by
  refine asks_bind (alike_request rfl) fun response response' alike => ?_
  simp only [← alike.isNotFound]
  cases response.isNotFound with
  | true => exact .done .rfl
  | false =>
      refine asks_unless getOperation alike (.read alike.body fun result result' same => ?_)
      cases same with
      | error failure => exact .done .rfl
      | @ok s t veiled =>
          have made (octets : Bytes) : (ofResult (decode versionsReader octets) >>= fun texts =>
              ofResult (soleVersion key texts) : Action Bytes).run = .done (foundIn key octets) := by
            rw [ofResult_bind]
            rfl
          have found : Asks exact (.done (foundIn key s)) (.done (foundIn key t)) := .done (veiled.foundIn key)
          rw [← made, ← made] at found
          exact found

theorem asks_delete : Asks exact (delete settings key).run (delete settings key).run := by
  refine asks_bind (alike_log _) fun _ _ _ => asks_bind (alike_request rfl) fun response response' alike => ?_
  simp only [← alike.isNotFound, ← alike.isSuccess]
  cases response.isNotFound with
  | true => exact .done .rfl
  | false =>
      cases response.isSuccess with
      | true => exact .done .rfl
      | false => exact asks_refuse deleteOperation alike

theorem asks_list : Asks exact (list settings).run (list settings).run := by
  refine asks_bind (alike_request rfl) fun response response' alike => ?_
  exact asks_unless listOperation alike (asks_map (asks_readBody alike (decode_ne_absent namesReader)) _)

def healthIn (status : Nat) (reason : String) (octets : Bytes) : Except Failure Unit := do
  let found ← decode healthReader octets
  if found ≠ healthy then throw (.remote healthOperation status reason (Utf8.lossy octets))

theorem healthIn_ne_absent (status : Nat) (reason : String) (octets : Bytes) (key : String) :
    healthIn status reason octets ≠ .error (.notFound key) := by
  have present := decode_ne_absent healthReader octets key
  rw [healthIn]
  generalize decode healthReader octets = decoded at present ⊢
  cases decoded with
  | error failure =>
      rintro ⟨⟩
      exact present rfl
  | ok found =>
      simp only [bind, Except.bind]
      split <;> rintro ⟨⟩

theorem asks_status : Asks exact (status settings).run (status settings).run := by
  refine asks_bind (alike_request rfl) fun response response' alike => ?_
  have made (octets : Bytes) : (do
      let found ← ofResult (decode healthReader octets)
      if found ≠ healthy then
        throw (.remote healthOperation response.status response.reason (Utf8.lossy octets)) : Action Unit) =
      ofResult (healthIn response.status response.reason octets) := by
    rw [healthIn]
    cases decode healthReader octets with
    | error failure => rfl
    | ok found =>
        change (if found ≠ healthy then _ else _) = ofResult (if found ≠ healthy then _ else _)
        split <;> rfl
  simp only [made, ← alike.status, ← alike.reason]
  exact asks_unless healthOperation alike (asks_readBody alike (healthIn_ne_absent _ _))

def denial (key : String) : Except Failure Bytes → Failure
  | .ok _ => .alreadyExists key
  | .error failure => failure

def writeIfAbsent (settings : Settings) (key : String) (value : Bytes) :
    Except Failure Bytes → Program (Except Failure Unit)
  | .error (.notFound _) => (put settings key value).run
  | found => .done (.error (denial key found))

theorem createWork_eq (settings : Settings) (key : String) (value : Bytes) :
    createWork settings key value = (get settings key).run >>= writeIfAbsent settings key value := by
  refine congrArg ((get settings key).run >>= ·) (funext fun found => ?_)
  cases found with
  | ok old => rfl
  | error failure => cases failure <;> rfl

theorem writeIfAbsent_present {found : Except Failure Bytes} (present : ∀ other, found ≠ .error (.notFound other))
    (value : Bytes) : writeIfAbsent settings key value found = .done (.error (denial key found)) := by
  cases found with
  | ok old => rfl
  | error failure =>
      cases failure with
      | notFound other => exact absurd rfl (present other)
      | _ => rfl

theorem denial_present {found : Except Failure Bytes} (present : ∀ other, found ≠ .error (.notFound other))
    (other : String) : (.error (denial key found) : Except Failure Unit) ≠ .error (.notFound other) := by
  cases found with
  | ok old => rintro ⟨⟩
  | error failure =>
      rintro ⟨⟩
      exact present other rfl

theorem asks_createWork (value value' : Bytes) :
    Asks exact (createWork settings key value) (createWork settings key value') := by
  rw [createWork_eq, createWork_eq]
  refine Program.Alike.bind asks_get fun found found' agrees => ?_
  by_cases absent : ∃ other, found = .error (.notFound other)
  · obtain ⟨other, rfl⟩ := absent
    obtain rfl := (agrees.absent_iff other).1 rfl
    exact asks_put value value'
  · have present := not_exists.1 absent
    have present' : ∀ other, found' ≠ .error (.notFound other) :=
      fun other same => present other ((agrees.absent_iff other).2 same)
    rw [writeIfAbsent_present present, writeIfAbsent_present present']
    refine .done ⟨fun holds => by rw [agrees.same holds], fun other => ?_⟩
    exact iff_of_false (denial_present present other) (denial_present present' other)

/-- Calls that differ only in the value they write. -/
inductive Call.Veiled : Call → Call → Prop where
  | same (call : Call) : Veiled call call
  | create (key : String) (value value' : Bytes) : Veiled (.create key value) (.create key value')
  | set (key : String) (value value' : Bytes) : Veiled (.set key value) (.set key value')

theorem asks_create (value value' : Bytes) :
    Asks exact (program settings (.create key value)).run (program settings (.create key value')).run := by
  refine asks_bind (alike_log _) fun _ _ _ => ?_
  have works : Asks exact (ExceptT.mk (createWork settings key value) : Action Unit).run
      (ExceptT.mk (createWork settings key value') : Action Unit).run := asks_createWork value value'
  exact asks_map works fun _ => Answer.done

theorem asks_program {call call' : Call} (veiled : Call.Veiled call call') :
    Asks exact (program settings call).run (program settings call').run := by
  cases veiled with
  | create key value value' => exact asks_create value value'
  | set key value value' => exact asks_map (asks_set value value') fun _ => Answer.done
  | same call =>
      cases call with
      | status => exact asks_map asks_status fun _ => Answer.healthy none
      | create key value => exact asks_create value value
      | set key value => exact asks_map (asks_set value value) fun _ => Answer.done
      | get key => exact asks_map asks_get Answer.value
      | delete key => exact asks_map asks_delete fun _ => Answer.done
      | list => exact asks_map asks_list Answer.keys
      | close => exact .done .rfl
      | name => exact .done .rfl

end

end SecretStore.CredHub
