import Mathlib.Data.List.Chain
import Mathlib.Tactic.SplitIfs
import SecretStore.Http.Network

namespace SecretStore.Http

variable {σ : Type}

structure Exchanged where
  sent : Sent
  answer : Option Received

def Received.IsSuccess (received : Received) : Prop := 200 ≤ received.status ∧ received.status < 300

instance : DecidablePred Received.IsSuccess := fun _ => inferInstanceAs (Decidable (_ ∧ _))

namespace Sent

def IsReading (sent : Sent) : Prop := sent.method ∈ [.get, .head] ∧ sent.body = none

def Repeats (next sent : Sent) : Prop := next.method = sent.method ∧ next.body = sent.body

instance (next sent : Sent) : Decidable (next.Repeats sent) := inferInstanceAs (Decidable (_ ∧ _))

/-- A body, and nothing else, has the content type of JSON. -/
def IsTyped (sent : Sent) : Prop := sent.contentType = sent.body.map fun _ => jsonType

end Sent

namespace Exchanged

def Succeeded (exchanged : Exchanged) : Prop := ∃ received ∈ exchanged.answer, received.IsSuccess

instance : DecidablePred Succeeded := fun exchanged =>
  inferInstanceAs (Decidable (∃ received ∈ exchanged.answer, received.IsSuccess))

def AnsweredBy (statuses : List Nat) (exchanged : Exchanged) : Prop :=
  ∃ received ∈ exchanged.answer, received.status ∈ statuses

def Keeps (exchanged next : Exchanged) : Prop := next.sent.Repeats exchanged.sent

instance : DecidableRel Keeps := fun exchanged next =>
  inferInstanceAs (Decidable (next.sent.Repeats exchanged.sent))

end Exchanged

/-- What every release of the HTTP library documents. On 301 and 302 a release may send either request. -/
structure Redirects.Documented (redirects : Redirects) : Prop where
  statuses : ∀ {status method body next}, redirects.asks? status method body = some next →
    status ∈ [301, 302, 303, 307, 308]
  either : ∀ {status method body next}, redirects.asks? status method body = some next →
    next = (method, body) ∨ next = (method.reading, none)
  keeps : ∀ {status method body next}, redirects.asks? status method body = some next →
    status ∈ [307, 308] → next = (method, body)
  reads : ∀ {status method body next}, redirects.asks? status method body = some next →
    status = 303 → next = (method.reading, none)

theorem Redirects.turning_cases {turns : Method → Bool} {status : Nat} {method : Method} {body : Option Bytes}
    {next : Method × Option Bytes} (asks : (Redirects.turning turns).asks? status method body = some next) :
    status ∈ [301, 302, 303] ∧ next = (method.reading, none) ∨
      status ∈ [301, 302, 307, 308] ∧ next = (method, body) := by
  simp only [turning] at asks
  split_ifs at asks with reads keeps
  · cases asks
    refine .inl ⟨?_, rfl⟩
    rcases reads with rfl | ⟨moved, -⟩
    · decide
    · exact List.mem_append_left [303] moved
  · cases asks
    exact .inr ⟨keeps, rfl⟩

theorem Redirects.documented_turning (turns : Method → Bool) : (Redirects.turning turns).Documented where
  statuses asks := by
    rcases turning_cases asks with ⟨status, -⟩ | ⟨status, -⟩
    · exact List.mem_append_left [307, 308] status
    · simp only [List.mem_cons, List.not_mem_nil, or_false] at status ⊢
      omega
  either asks := by
    rcases turning_cases asks with ⟨-, next⟩ | ⟨-, next⟩
    · exact .inr next
    · exact .inl next
  keeps asks kept := by
    rcases turning_cases asks with ⟨turned, -⟩ | ⟨-, next⟩
    · simp only [List.mem_cons, List.not_mem_nil, or_false] at turned kept
      omega
    · exact next
  reads asks read := by
    rcases turning_cases asks with ⟨-, next⟩ | ⟨kept, -⟩
    · exact next
    · subst read
      exact absurd kept (by decide)

def Network.watched (network : Network σ) : Network (σ × List Exchanged) where
  exchange sent state :=
    let answered := network.exchange sent state.1
    (answered.1, answered.2, state.2 ++ [⟨sent, answered.1⟩])
  redirects := network.redirects

inductive Followed (redirects : Redirects) : Sent → List Exchanged → Received → Prop where
  | last {sent : Sent} {received : Received} :
      redirects.next? sent received = none → Followed redirects sent [⟨sent, some received⟩] received
  | next {sent next : Sent} {received last : Received} {rest : List Exchanged} :
      redirects.next? sent received = some next → Followed redirects next rest last →
      Followed redirects sent (⟨sent, some received⟩ :: rest) last

section

variable {redirects : Redirects} {sent next : Sent} {received last : Received} {trail rest : List Exchanged}

theorem followed_singleton {answer : Option Received} :
    Followed redirects sent [⟨sent, answer⟩] last ↔ answer = some last ∧ redirects.next? sent last = none := by
  constructor
  · rintro (ends | ⟨-, ⟨⟩⟩)
    exact ⟨rfl, ends⟩
  · rintro ⟨rfl, ends⟩
    exact .last ends

theorem followed_cons (goes : redirects.next? sent received = some next) :
    Followed redirects sent (⟨sent, some received⟩ :: rest) last ↔ Followed redirects next rest last := by
  constructor
  · rintro (ends | ⟨goes', followed⟩)
    · rw [goes] at ends
      cases ends
    · rw [goes, Option.some.injEq] at goes'
      rwa [goes']
  · exact .next goes

theorem Followed.eq_cons (followed : Followed redirects sent trail last) :
    ∃ answer rest, trail = ⟨sent, answer⟩ :: rest := by
  cases followed with
  | last _ => exact ⟨_, _, rfl⟩
  | next _ _ => exact ⟨_, _, rfl⟩

theorem Followed.eq_singleton (followed : Followed redirects sent trail last) (alone : trail.length = 1) :
    trail = [⟨sent, some last⟩] := by
  cases followed with
  | last ends => rfl
  | next goes rest =>
      rw [List.length_cons, Nat.add_eq_right, List.length_eq_zero_iff] at alone
      subst alone
      cases rest

end

section

variable {network : Network σ} {left : Nat} {sent next : Sent} {received : Received} {state after : σ}

theorem fetchWithin_lost (lost : network.exchange sent state = (none, after)) :
    fetchWithin network left sent state = (.error ⟨.request, some sent.url.text⟩, after) := by
  rw [fetchWithin.eq_def]
  simp only [lost]

theorem fetchWithin_last (answered : network.exchange sent state = (some received, after))
    (ends : network.redirects.next? sent received = none) :
    fetchWithin network left sent state = (.ok received, after) := by
  rw [fetchWithin.eq_def]
  simp only [answered, ends]

theorem fetchWithin_next (answered : network.exchange sent state = (some received, after))
    (goes : network.redirects.next? sent received = some next) (web : next.url.isWeb = true) :
    fetchWithin network (left + 1) sent state = fetchWithin network left next after := by
  rw [fetchWithin.eq_def]
  simp only [answered, goes, web, ↓reduceIte]

theorem fetchWithin_stuck (answered : network.exchange sent state = (some received, after))
    (goes : network.redirects.next? sent received = some next) (stuck : left = 0 ∨ next.url.isWeb = false) :
    ∃ fault, fetchWithin network left sent state = (.error fault, after) := by
  rw [fetchWithin.eq_def]
  simp only [answered, goes]
  cases left with
  | zero => exact ⟨_, rfl⟩
  | succ left =>
      have foreign := stuck.resolve_left (Nat.succ_ne_zero left)
      simp only [foreign, Bool.false_eq_true, ↓reduceIte]
      exact ⟨_, rfl⟩

end

theorem fetchWithin_watched (network : Network σ) (left : Nat) (sent : Sent) (state : σ)
    (seen : List Exchanged) :
    ∃ trail, (fetchWithin network.watched left sent (state, seen)).2.2 = seen ++ trail ∧
      ∀ last, (fetchWithin network.watched left sent (state, seen)).1 = .ok last ↔
        Followed network.redirects sent trail last := by
  -- The trail of a redirect is its exchange, followed by the trail of the next request.
  induction left using Nat.strongRecOn generalizing sent state seen with
  | ind left ih =>
      generalize exchanged : network.exchange sent state = result
      obtain ⟨answer, after⟩ := result
      have watched : network.watched.exchange sent (state, seen) =
          (answer, after, seen ++ [⟨sent, answer⟩]) := by simp only [Network.watched, exchanged]
      cases answer with
      | none =>
          refine ⟨[⟨sent, none⟩], ?_⟩
          simp [fetchWithin_lost watched, followed_singleton]
      | some received =>
          cases goes : network.redirects.next? sent received with
          | none =>
              refine ⟨[⟨sent, some received⟩], ?_⟩
              simp +contextual [fetchWithin_last watched goes, followed_singleton, goes]
          | some next =>
              by_cases stuck : left = 0 ∨ next.url.isWeb = false
              · obtain ⟨fault, failed⟩ := fetchWithin_stuck watched goes stuck
                refine ⟨[⟨sent, some received⟩], ?_⟩
                simp +contextual [failed, followed_singleton, goes]
              · obtain ⟨left, rfl⟩ := Nat.exists_eq_succ_of_ne_zero fun same => stuck (.inl same)
                obtain ⟨rest, seen', followed⟩ := ih left left.lt_succ_self next after
                  (seen ++ [⟨sent, some received⟩])
                rw [fetchWithin_next watched goes (by simpa using fun foreign => stuck (.inr foreign))]
                refine ⟨⟨sent, some received⟩ :: rest, seen'.trans (List.append_cons ..).symm, ?_⟩
                intro last
                rw [followed_cons goes]
                exact followed last

theorem fetchWithin_exchanged {network : Network σ} {left : Nat} {sent : Sent} {state after : σ}
    {received : Received} (fetched : fetchWithin network left sent state = (.ok received, after)) :
    ∃ last state', (network.exchange last state').1 = some received := by
  induction left using Nat.strongRecOn generalizing sent state with
  | ind left ih =>
      generalize exchanged : network.exchange sent state = result at *
      obtain ⟨answer, middle⟩ := result
      cases answer with
      | none =>
          rw [fetchWithin_lost exchanged] at fetched
          cases fetched
      | some first =>
          cases goes : network.redirects.next? sent first with
          | none =>
              rw [fetchWithin_last exchanged goes] at fetched
              cases fetched
              exact ⟨sent, state, by rw [exchanged]⟩
          | some next =>
              by_cases stuck : left = 0 ∨ next.url.isWeb = false
              · obtain ⟨fault, failed⟩ := fetchWithin_stuck exchanged goes stuck
                rw [failed] at fetched
                cases fetched
              · obtain ⟨left, rfl⟩ := Nat.exists_eq_succ_of_ne_zero fun same => stuck (.inl same)
                rw [fetchWithin_next exchanged goes (by simpa using fun foreign => stuck (.inr foreign))] at fetched
                exact ih left left.lt_succ_self fetched

variable {redirects : Redirects} {sent next : Sent} {final exchanged : Exchanged} {received last : Received}
  {trail before : List Exchanged}

theorem next?_eq_some (goes : redirects.next? sent received = some next) :
    redirects.asks? received.status sent.method sent.body = some (next.method, next.body) ∧
      next.contentType = next.body.bind fun _ => sent.contentType := by
  obtain ⟨location, -, url, -, method, body, asks, rest⟩ : ∃ location, received.location = some location ∧
      ∃ url, sent.url.join? location = some url ∧
        ∃ method body, redirects.asks? received.status sent.method sent.body = some (method, body) ∧
          (if url.isAskable then some ⟨method, url, body, body.bind fun _ => sent.contentType⟩ else none) =
            some next := by
    simpa [Redirects.next?, Option.bind_eq_some_iff] using goes
  split_ifs at rest
  cases rest
  exact ⟨asks, rfl⟩

theorem Sent.isReading_of_eq (reading : (next.method, next.body) = (sent.method.reading, none)) :
    next.IsReading := by
  obtain ⟨method, body⟩ := Prod.mk.inj reading
  refine ⟨?_, body⟩
  rw [method, Method.reading]
  split <;> decide

theorem Sent.IsReading.of_repeats (reading : sent.IsReading) (repeats : next.Repeats sent) : next.IsReading := by
  rw [Sent.IsReading, repeats.1, repeats.2]
  exact reading

theorem Sent.IsTyped.next? (documented : redirects.Documented) (goes : redirects.next? sent received = some next)
    (typed : sent.IsTyped) : next.IsTyped := by
  obtain ⟨asks, contentType⟩ := next?_eq_some goes
  rw [IsTyped, contentType, typed]
  rcases documented.either asks with same | reading
  · rw [(Prod.mk.inj same).2]
    cases sent.body <;> rfl
  · rw [(Prod.mk.inj reading).2]
    rfl

theorem Followed.typed (documented : redirects.Documented) (followed : Followed redirects sent trail last)
    (typed : sent.IsTyped) : ∀ exchanged ∈ trail, exchanged.sent.IsTyped := by
  induction followed with
  | last ends => exact List.forall_mem_singleton.2 typed
  | next goes followed ih => exact List.forall_mem_cons.2 ⟨typed, ih (typed.next? documented goes)⟩

/-- How the last request of a chain follows from the first one. -/
structure Led (sent : Sent) (before : List Exchanged) (final : Exchanged) : Prop where
  failing : ∀ exchanged ∈ before, ¬ exchanged.Succeeded
  keeping : (before ++ [final]).IsChain Exchanged.Keeps → final.sent.Repeats sent
  losing : ¬ (before ++ [final]).IsChain Exchanged.Keeps → final.sent.IsReading
  staying : sent.IsReading → final.sent.IsReading
  kept : (∀ exchanged ∈ before, exchanged.AnsweredBy [307, 308]) → (before ++ [final]).IsChain Exchanged.Keeps
  turned : ∀ exchanged ∈ before, exchanged.AnsweredBy [303] → final.sent.IsReading

theorem Led.here (answer : Option Received) : Led sent [] ⟨sent, answer⟩ where
  failing := by simp
  keeping _ := ⟨rfl, rfl⟩
  losing broken := absurd (List.isChain_singleton _) broken
  staying reading := reading
  kept _ := List.isChain_singleton _
  turned := by simp

theorem Led.cons (documented : redirects.Documented) (goes : redirects.next? sent received = some next)
    (led : Led next before final) (starts : ∃ first ∈ (before ++ [final]).head?, first.sent = next) :
    Led sent (⟨sent, some received⟩ :: before) final := by
  have asks := (next?_eq_some goes).1
  have either : next.Repeats sent ∨ next.IsReading :=
    (documented.either asks).imp Prod.mk.inj Sent.isReading_of_eq
  obtain ⟨first, starts, rfl⟩ := starts
  have chain : (⟨sent, some received⟩ :: before ++ [final]).IsChain Exchanged.Keeps ↔
      first.sent.Repeats sent ∧ (before ++ [final]).IsChain Exchanged.Keeps := by
    rw [List.cons_append, List.isChain_cons]
    simp [Exchanged.Keeps, Option.mem_def.1 starts]
  refine ⟨?_, ?_, ?_, ?_, ?_, ?_⟩
  · have statuses := documented.statuses asks
    simp only [List.mem_cons, List.not_mem_nil, or_false] at statuses
    refine List.forall_mem_cons.2 ⟨?_, led.failing⟩
    rintro ⟨answer, same, success⟩
    cases same
    rw [Received.IsSuccess] at success
    omega
  · intro kept
    obtain ⟨repeats, rest⟩ := chain.1 kept
    have final := led.keeping rest
    exact ⟨final.1.trans repeats.1, final.2.trans repeats.2⟩
  · intro broken
    -- The first redirect that does not repeat the request sends a reading, and a reading stays one.
    by_cases rest : (before ++ [final]).IsChain Exchanged.Keeps
    · exact led.staying (either.resolve_left fun repeats => broken (chain.2 ⟨repeats, rest⟩))
    · exact led.losing rest
  · intro reading
    exact led.staying (either.elim reading.of_repeats id)
  · intro answered
    obtain ⟨⟨answer, same, status⟩, rest⟩ := List.forall_mem_cons.1 answered
    cases same
    exact chain.2 ⟨Prod.mk.inj (documented.keeps asks status), led.kept rest⟩
  · refine List.forall_mem_cons.2 ⟨?_, led.turned⟩
    rintro ⟨answer, same, status⟩
    cases same
    exact led.staying (Sent.isReading_of_eq (documented.reads asks (List.mem_singleton.1 status)))

theorem Followed.split (documented : redirects.Documented) (followed : Followed redirects sent trail last) :
    ∃ before final, trail = before ++ [⟨final, some last⟩] ∧ Led sent before ⟨final, some last⟩ := by
  induction followed with
  | last ends => exact ⟨[], _, rfl, .here _⟩
  | next goes followed ih =>
      obtain ⟨before, final, rfl, led⟩ := ih
      obtain ⟨answer, rest, shape⟩ := followed.eq_cons
      refine ⟨_ :: before, final, rfl, led.cons documented goes ?_⟩
      exact ⟨⟨_, answer⟩, by rw [shape]; rfl, rfl⟩

end SecretStore.Http
