import SecretStore.Proofs.Http.Delivery
import SecretStore.Proofs.Http.Heeding

namespace SecretStore.Http

variable {σ α : Type}

theorem takeChunks_eq_ok_iff {taken octets : Bytes} {body : List Chunk} :
    takeChunks taken body = .read (.ok octets) ↔
      ∃ pieces : List Bytes, body = pieces.map .octets ∧ octets = taken ++ pieces.flatten := by
  constructor
  · intro reading
    fun_induction takeChunks taken body with
    | case1 taken =>
        cases reading
        exact ⟨[], rfl, (List.append_nil _).symm⟩
    | case2 taken piece rest ih =>
        obtain ⟨pieces, rfl, rfl⟩ := ih reading
        exact ⟨piece :: pieces, rfl, by simp⟩
    | case3 => cases reading
    | case4 => cases reading
  · rintro ⟨pieces, rfl, rfl⟩
    have taken := takeChunks_octets taken pieces []
    rw [List.append_nil] at taken
    exact taken

theorem takeChunks_eq_error_iff {taken : Bytes} {body : List Chunk} {failure : Failure} :
    takeChunks taken body = .read (.error failure) ↔
      ∃ (pieces : List Bytes) (rest : List Chunk), body = pieces.map .octets ++ .failure failure :: rest := by
  constructor
  · intro reading
    fun_induction takeChunks taken body with
    | case1 => cases reading
    | case2 taken piece rest ih =>
        obtain ⟨pieces, left, rfl⟩ := ih reading
        exact ⟨piece :: pieces, left, rfl⟩
    | case3 taken failure rest =>
        cases reading
        exact ⟨[], rest, rfl⟩
    | case4 => cases reading
  · rintro ⟨pieces, rest, rfl⟩
    exact takeChunks_octets taken pieces _

theorem readOn_eq_ok_iff {cancelled : Bool} {taken octets : Bytes} {body : List Chunk} :
    readOn cancelled taken body = .read (.ok octets) ↔
      cancelled = false ∧ ∃ pieces : List Bytes, body = pieces.map .octets ∧ octets = taken ++ pieces.flatten := by
  rw [← takeChunks_eq_ok_iff]
  cases cancelled <;> simp [readOn]

theorem readOn_eq_error_iff {cancelled : Bool} {taken : Bytes} {body : List Chunk} {failure : Failure} :
    readOn cancelled taken body = .read (.error failure) ↔
      cancelled = true ∧ failure = .cancelled ∨
      cancelled = false ∧
        ∃ (pieces : List Bytes) (rest : List Chunk), body = pieces.map .octets ++ .failure failure :: rest := by
  rw [← @takeChunks_eq_error_iff taken]
  cases cancelled <;> simp [readOn, eq_comm]

namespace Program

/-- Steps, with the state of the token at each of them. -/
inductive StepsAt : List Bool → Program α → Program α → Prop where
  | refl (program : Program α) : StepsAt [] program program
  | head {cancelled : Bool} {token : List Bool} {first second third : Program α} {deed : Deed} :
      StepUnder cancelled first deed second → StepsAt token second third → StepsAt (cancelled :: token) first third

theorem StepsAt.done {token : List Bool} {value : α} {after : Program α} (steps : StepsAt token (.done value) after) :
    token = [] ∧ after = .done value := by
  cases steps with
  | refl => exact ⟨rfl, rfl⟩
  | head step _ => cases step

theorem StepsAt.trans {token token' : List Bool} {first second third : Program α} (steps : StepsAt token first second)
    (more : StepsAt token' second third) : StepsAt (token ++ token') first third := by
  induction steps with
  | refl => exact more
  | head step _ ih => exact .head step (ih more)

theorem stepsUnder_iff {cancelled : Bool} {first second : Program α} :
    StepsUnder cancelled first second ↔ ∃ count, StepsAt (List.replicate count cancelled) first second := by
  constructor
  · intro steps
    induction steps using Relation.ReflTransGen.head_induction_on with
    | refl => exact ⟨0, .refl second⟩
    | head step _ ih =>
        obtain ⟨deed, step⟩ := step
        obtain ⟨count, steps⟩ := ih
        exact ⟨count + 1, .head step steps⟩
  · rintro ⟨count, steps⟩
    generalize same : List.replicate count cancelled = token at steps
    induction steps generalizing count with
    | refl => exact .refl
    | head step _ ih =>
        cases count with
        | zero => cases same
        | succ count =>
            obtain ⟨rfl, rest⟩ := List.cons.inj same
            exact step.steps.trans (ih count rest)

variable {taken octets : Bytes} {body : List Chunk} {token : List Bool} {failure : Failure}

theorem read_then_iff {next : Except Failure Bytes → Program α} {value : α} :
    StepsAt token (.read taken body next) (.done value) ↔
      ∃ reading after result, token = reading ++ after ∧
        StepsAt reading (.read taken body .done) (.done result) ∧ StepsAt after (next result) (.done value) := by
  constructor
  · intro steps
    -- Each step either ends the reading, and what is left makes something of it, or takes one piece off the body.
    induction body generalizing taken token with
    | nil =>
        cases steps with
        | head step more =>
            cases step with
            | stop _ _ _ dead => exact ⟨[_], _, _, rfl, .head (.stop _ _ _ dead) (.refl _), more⟩
            | finish _ _ alive => exact ⟨[_], _, _, rfl, .head (.finish _ _ alive) (.refl _), more⟩
    | cons chunk rest ih =>
        cases steps with
        | head step more =>
            cases step with
            | stop _ _ _ dead => exact ⟨[_], _, _, rfl, .head (.stop _ _ _ dead) (.refl _), more⟩
            | breakOff _ _ _ _ alive => exact ⟨[_], _, _, rfl, .head (.breakOff _ _ _ _ alive) (.refl _), more⟩
            | take _ _ _ _ alive =>
                obtain ⟨reading, after, result, rfl, reads, makes⟩ := ih more
                exact ⟨_ :: reading, after, result, rfl, .head (.take _ _ _ _ alive) reads, makes⟩
  · rintro ⟨reading, after, result, rfl, reads, makes⟩
    refine StepsAt.trans ?_ makes
    clear makes
    induction body generalizing taken reading with
    | nil =>
        cases reads with
        | head step more =>
            cases step with
            | stop _ _ _ dead =>
                obtain ⟨rfl, same⟩ := more.done
                cases same
                exact .head (.stop _ _ _ dead) (.refl _)
            | finish _ _ alive =>
                obtain ⟨rfl, same⟩ := more.done
                cases same
                exact .head (.finish _ _ alive) (.refl _)
    | cons chunk rest ih =>
        cases reads with
        | head step more =>
            cases step with
            | stop _ _ _ dead =>
                obtain ⟨rfl, same⟩ := more.done
                cases same
                exact .head (.stop _ _ _ dead) (.refl _)
            | breakOff _ _ _ _ alive =>
                obtain ⟨rfl, same⟩ := more.done
                cases same
                exact .head (.breakOff _ _ _ _ alive) (.refl _)
            | take _ _ _ _ alive => exact .head (.take _ _ _ _ alive) (ih _ more)

theorem stepsAt_octets (taken : Bytes) (pieces : List Bytes) (rest : List Chunk) {after : Program α}
    {next : Except Failure Bytes → Program α}
    (steps : StepsAt token (.read (taken ++ pieces.flatten) rest next) after) :
    StepsAt (List.replicate pieces.length false ++ token) (.read taken (pieces.map .octets ++ rest) next) after := by
  induction pieces generalizing taken with
  | nil => simpa using steps
  | cons piece pieces ih =>
      have onward : StepsAt token (.read (taken ++ piece ++ pieces.flatten) rest next) after := by
        simpa using steps
      exact .head (.take taken piece _ next rfl) (ih _ onward)

theorem read_ok_iff : StepsAt token (.read taken body .done) (.done (.ok octets)) ↔
    ∃ pieces : List Bytes, body = pieces.map .octets ∧ octets = taken ++ pieces.flatten ∧
      token = List.replicate (pieces.length + 1) false := by
  constructor
  · intro steps
    induction body generalizing taken token with
    | nil =>
        cases steps with
        | head step more =>
            cases step with
            | stop _ _ _ _ => cases more.done.2
            | finish _ _ alive =>
                obtain ⟨rfl, same⟩ := more.done
                cases same
                exact ⟨[], rfl, (List.append_nil _).symm, by rw [alive]; rfl⟩
    | cons chunk rest ih =>
        cases steps with
        | head step more =>
            cases step with
            | stop _ _ _ _ => cases more.done.2
            | breakOff _ failure _ _ alive => cases more.done.2
            | take _ piece _ _ alive =>
                obtain ⟨pieces, rfl, rfl, rfl⟩ := ih more
                exact ⟨piece :: pieces, rfl, by simp, by rw [alive]; rfl⟩
  · rintro ⟨pieces, rfl, rfl, rfl⟩
    have steps := stepsAt_octets taken pieces [] (.head (.finish _ .done rfl) (.refl _))
    rwa [List.append_nil, ← List.replicate_succ'] at steps

theorem read_error_iff : StepsAt token (.read taken body .done) (.done (.error failure)) ↔
    ∃ (pieces : List Bytes) (rest : List Chunk), body = pieces.map .octets ++ rest ∧
      (((∃ more, rest = .failure failure :: more) ∧ token = List.replicate (pieces.length + 1) false) ∨
        failure = .cancelled ∧ token = List.replicate pieces.length false ++ [true]) := by
  constructor
  · intro steps
    induction body generalizing taken token with
    | nil =>
        cases steps with
        | head step more =>
            cases step with
            | finish _ _ _ => cases more.done.2
            | stop _ _ _ dead =>
                obtain ⟨rfl, same⟩ := more.done
                cases same
                exact ⟨[], [], rfl, .inr ⟨rfl, by rw [dead]; rfl⟩⟩
    | cons chunk rest ih =>
        cases steps with
        | head step more =>
            cases step with
            | stop _ _ _ dead =>
                obtain ⟨rfl, same⟩ := more.done
                cases same
                exact ⟨[], _, rfl, .inr ⟨rfl, by rw [dead]; rfl⟩⟩
            | breakOff _ failure _ _ alive =>
                obtain ⟨rfl, same⟩ := more.done
                cases same
                exact ⟨[], _, rfl, .inl ⟨⟨rest, rfl⟩, by rw [alive]; rfl⟩⟩
            | take _ piece _ _ alive =>
                obtain ⟨pieces, left, rfl, ended⟩ := ih more
                refine ⟨piece :: pieces, left, rfl, ?_⟩
                rw [alive]
                rcases ended with ⟨breaks, rfl⟩ | ⟨rfl, rfl⟩
                · exact .inl ⟨breaks, rfl⟩
                · exact .inr ⟨rfl, rfl⟩
  · rintro ⟨pieces, rest, rfl, ⟨⟨more, rfl⟩, rfl⟩ | ⟨rfl, rfl⟩⟩
    · have steps := stepsAt_octets taken pieces (.failure failure :: more)
        (.head (.breakOff _ failure more .done rfl) (.refl _))
      rwa [← List.replicate_succ'] at steps
    · exact stepsAt_octets taken pieces rest (.head (.stop _ rest .done rfl) (.refl _))

theorem exists_read_iff {result : Except Failure Bytes} :
    (∃ token, StepsAt token (.read taken body .done) (.done result)) ↔
      takeChunks taken body = .read result ∨ result = .error .cancelled := by
  constructor
  · rintro ⟨token, steps⟩
    cases result with
    | ok octets =>
        obtain ⟨pieces, whole, same, -⟩ := read_ok_iff.1 steps
        exact .inl (takeChunks_eq_ok_iff.2 ⟨pieces, whole, same⟩)
    | error failure =>
        obtain ⟨pieces, rest, whole, ⟨⟨more, rfl⟩, -⟩ | ⟨rfl, -⟩⟩ := read_error_iff.1 steps
        · exact .inl (takeChunks_eq_error_iff.2 ⟨pieces, more, whole⟩)
        · exact .inr rfl
  · rintro (reading | rfl)
    · cases result with
      | ok octets =>
          obtain ⟨pieces, whole, same⟩ := takeChunks_eq_ok_iff.1 reading
          exact ⟨_, read_ok_iff.2 ⟨pieces, whole, same, rfl⟩⟩
      | error failure =>
          obtain ⟨pieces, rest, whole⟩ := takeChunks_eq_error_iff.1 reading
          exact ⟨_, read_error_iff.2 ⟨pieces, _, whole, .inl ⟨⟨rest, rfl⟩, rfl⟩⟩⟩
    · exact ⟨_, read_error_iff.2 ⟨[], body, rfl, .inr ⟨rfl, rfl⟩⟩⟩

/-- The executable reading agrees with the stepwise one under a constant token. -/
theorem readOn_eq_read_iff {cancelled : Bool} {result : Except Failure Bytes} :
    readOn cancelled taken body = .read result ↔
      ∃ count, StepsAt (List.replicate count cancelled) (.read taken body .done) (.done result) := by
  constructor
  · intro reading
    have steps := steps_readOn cancelled taken body .done
    rw [reading] at steps
    exact stepsUnder_iff.1 steps
  · rintro ⟨count, steps⟩
    have looked {found : Bool} (member : found ∈ List.replicate count cancelled) : cancelled = found :=
      (List.eq_of_mem_replicate member).symm
    cases result with
    | ok octets =>
        obtain ⟨pieces, whole, same, token⟩ := read_ok_iff.1 steps
        exact readOn_eq_ok_iff.2 ⟨looked (by rw [token]; simp), pieces, whole, same⟩
    | error failure =>
        obtain ⟨pieces, rest, whole, ⟨⟨more, rfl⟩, token⟩ | ⟨rfl, token⟩⟩ := read_error_iff.1 steps
        · exact readOn_eq_error_iff.2 (.inr ⟨looked (by rw [token]; simp), pieces, more, whole⟩)
        · exact readOn_eq_error_iff.2 (.inl ⟨looked (by rw [token]; simp), rfl⟩)

end Program

/-- The same octets in other chunks, with the same rest. -/
inductive Recut : List Chunk → List Chunk → Prop where
  | recut {pieces pieces' : List Bytes} (rest : List Chunk) : pieces.flatten = pieces'.flatten →
      Recut (pieces.map .octets ++ rest) (pieces'.map .octets ++ rest)

variable {body body' : List Chunk}

theorem Recut.takeChunks (recut : Recut body body') (taken : Bytes) :
    takeChunks taken body = takeChunks taken body' := by
  obtain ⟨rest, same⟩ := recut
  rw [takeChunks_octets, takeChunks_octets, same]

theorem Recut.readOn (recut : Recut body body') (cancelled : Bool) (taken : Bytes) :
    readOn cancelled taken body = readOn cancelled taken body' := by
  rw [Http.readOn, Http.readOn, recut.takeChunks]

theorem Recut.run_read (recut : Recut body body') (host : Program.Host σ) (token : Token) (taken : Bytes)
    (next : Except Failure Bytes → Program α) (state : σ) :
    Program.run host token (.read taken body next) state = Program.run host token (.read taken body' next) state := by
  simp only [Program.run, recut.readOn]

theorem Recut.outcomes (recut : Recut body body') (taken : Bytes) (next : Except Failure Bytes → Program α)
    (value : α) : (∃ token, Program.StepsAt token (.read taken body next) (.done value)) ↔
      ∃ token, Program.StepsAt token (.read taken body' next) (.done value) := by
  have parted (body : List Chunk) : (∃ token, Program.StepsAt token (.read taken body next) (.done value)) ↔
      ∃ result, (Http.takeChunks taken body = .read result ∨ result = .error .cancelled) ∧
        ∃ token, Program.StepsAt token (next result) (.done value) := by
    constructor
    · rintro ⟨token, steps⟩
      obtain ⟨reading, after, result, -, reads, makes⟩ := Program.read_then_iff.1 steps
      exact ⟨result, Program.exists_read_iff.1 ⟨reading, reads⟩, after, makes⟩
    · rintro ⟨result, possible, after, makes⟩
      obtain ⟨reading, reads⟩ := Program.exists_read_iff.2 possible
      exact ⟨_, Program.read_then_iff.2 ⟨reading, after, result, rfl, reads, makes⟩⟩
  rw [parted, parted, recut.takeChunks]

end SecretStore.Http
