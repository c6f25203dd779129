import SecretStore.Config.Connect
import SecretStore.Proofs.CredHub.Refinement
import SecretStore.Proofs.FixedStore

namespace SecretStore

open Http

namespace OpenStore

variable {σ : Type}

def answers (network : Network σ) (store : OpenStore) :
    List (Token × Call) → CredHub.Client.World σ → List (Option Outcome) × CredHub.Client.World σ
  | [], world => ([], world)
  | (token, call) :: calls, world =>
    let (outcome, world) := store.answer network token call world
    let (outcomes, world) := store.answers network calls world
    (outcome :: outcomes, world)

theorem answers_fixed (network : Network σ) (store : FixedStore) (calls : List (Token × Call))
    (world : CredHub.Client.World σ) :
    (OpenStore.fixed store).answers network calls world =
      (calls.map fun entry => some (store.answer entry.2), world) := by
  induction calls with
  | nil => rfl
  | cons entry calls ih => simp only [answers, answer, ih, List.map_cons]

end OpenStore

namespace CredHub

def Contents.ofEntries (pairs : List (String × String)) : Contents :=
  fun key => (pairs.reverse.lookup key).map Utf8.bytes

theorem ofEntries_append (pairs : List (String × String)) (key text : String) :
    Contents.ofEntries (pairs ++ [(key, text)]) = (Contents.ofEntries pairs).write key (Utf8.bytes text) := by
  funext other
  rw [Contents.ofEntries, List.reverse_append, List.reverse_singleton, List.singleton_append, List.lookup_cons,
    Contents.write, Function.update_apply]
  grind [Contents.ofEntries]

def Vault.stock (settings : Settings) (force : String → Bool) (vault : Vault) (pairs : List (String × String)) :
    Vault :=
  pairs.foldl (fun vault pair =>
    vault.write (settings.nameOf pair.1) (encodeValue (Utf8.bytes pair.2) (force pair.1))) vault

theorem keeps_stock {settings : Settings} {vault : Vault} (bare : vault.Keeps settings fun _ => none)
    (force : String → Bool) (pairs : List (String × String)) :
    (vault.stock settings force pairs).Keeps settings (.ofEntries pairs) := by
  induction pairs using List.reverseRecOn with
  | nil => exact bare
  | append_singleton pairs pair ih =>
      rw [ofEntries_append, Vault.stock, List.foldl_append]
      exact ih.write _ _ _

variable {contents : Contents} {operation : Operation}

theorem answer_spares {pairs : List (String × String)} (spares : (Contents.ofEntries pairs).Spares operation) :
    (Contents.ofEntries pairs).Answers operation ((FixedStore.ofList pairs).answer operation.call)
      (Contents.ofEntries pairs) := by
  have found (key : String) : Contents.ofEntries pairs key = ((Entries.ofList pairs).get? key).map Utf8.bytes := by
    rw [Entries.get?_ofList, Contents.ofEntries]
  cases spares with
  | get key =>
      cases text : (Entries.ofList pairs).get? key with
      | none =>
          simp only [FixedStore.answer, Operation.call, FixedStore.ofList, text]
          exact .missing (by rw [found, text]; rfl)
      | some text' =>
          simp only [FixedStore.answer, Operation.call, FixedStore.ofList, text]
          exact .found (by rw [found, text]; rfl)
  | @create key old value kept =>
      have has : (Entries.ofList pairs).has key = true := by
        rw [Entries.has_iff]
        intro absent
        rw [found, absent] at kept
        cases kept
      simp only [FixedStore.answer, Operation.call, FixedStore.ofList, has, ↓reduceIte]
      exact .taken value kept
  | @delete key absent =>
      have has : (Entries.ofList pairs).has key = false := by
        rw [Bool.eq_false_iff, Ne, Entries.has_iff, not_not]
        rw [found, Option.map_eq_none_iff] at absent
        exact absent
      simp only [FixedStore.answer, Operation.call, FixedStore.ofList, has, Bool.false_eq_true, ↓reduceIte]
      exact .absent absent
  | list =>
      refine .listed ?_ fun key => ?_
      · exact (Entries.ofList_sorted pairs).keys.imp fun less same => by
          rw [same] at less
          exact absurd less (List.lt_irrefl _)
      · rw [found, Ne, Option.map_eq_none_iff]
        exact Entries.mem_keys_iff

structure Agree (contents : Contents) (operation : Operation) (served fixed : Outcome) : Prop where
  ofServer : contents.Answers operation served contents
  ofEntries : contents.Answers operation fixed contents
  same : operation ≠ .list → served = fixed
  keys {first second : List String} : served = .ok (.keys first) → fixed = .ok (.keys second) → first.Perm second

theorem Contents.Answers.unique {outcome outcome' : Outcome} {after after' : Contents} (other : operation ≠ .list)
    (first : contents.Answers operation outcome after) (second : contents.Answers operation outcome' after') :
    outcome = outcome' := by
  cases first <;> cases second <;> simp_all

theorem agree_of_answers {served fixed : Outcome} (answers : contents.Answers operation served contents)
    (answers' : contents.Answers operation fixed contents) : Agree contents operation served fixed where
  ofServer := answers
  ofEntries := answers'
  same other := answers.unique other answers'
  keys := by
    rintro first second rfl rfl
    cases answers with
    | listed nodup mem =>
        cases answers' with
        | listed nodup' mem' =>
            rw [List.perm_ext_iff_of_nodup nodup nodup']
            exact fun key => (mem key).trans (mem' key).symm

theorem performAll_spares (server : Server) (settings : Settings) {operations : List (Token × Operation)}
    {creates : Creates} {vault : Vault} (nobody : creates.entries = []) (keeps : vault.Keeps settings contents)
    (spares : ∀ entry ∈ operations, contents.Spares entry.2) :
    ∃ outcomes left, left.entries = [] ∧
      server.performAll settings operations creates vault = (outcomes.map some, left, vault) ∧
      List.Forall₂ (fun entry outcome => contents.Spares entry.2 ∧ contents.Answers entry.2 outcome contents)
        operations outcomes := by
  induction operations generalizing creates with
  | nil => exact ⟨[], creates, nobody, rfl, .nil⟩
  | cons entry operations ih =>
      obtain ⟨token, operation⟩ := entry
      obtain ⟨first, others⟩ := List.forall_mem_cons.1 spares
      obtain ⟨outcome, middle, free, answers, performed⟩ := server.perform_spares settings token nobody keeps first
      obtain ⟨outcomes, left, empty, rest, agree⟩ := ih free others
      refine ⟨outcome :: outcomes, left, empty, ?_, .cons ⟨first, answers⟩ agree⟩
      rw [Server.performAll, performed]
      simp only [rest, List.map_cons]

/-- For operations that leave the map unchanged, a fixed store over the entries and a store whose server holds the map
both answer as the map does. The fixed store lists its keys in the order of their octets and is never changed. -/
theorem stores_agree (pairs : List (String × String)) (server : Server) (settings : Settings) {vault : Vault}
    (keeps : vault.Keeps settings (.ofEntries pairs)) {operations : List (Token × Operation)}
    (spares : ∀ entry ∈ operations, (Contents.ofEntries pairs).Spares entry.2) :
    let fixed := FixedStore.ofList pairs
    (∃ outcomes left, server.performAll settings operations .empty vault = (outcomes.map some, left, vault) ∧
        left.inFlight = 0 ∧
        List.Forall₂ (fun entry outcome =>
          Agree (.ofEntries pairs) entry.2 outcome (fixed.answer entry.2.call)) operations outcomes) ∧
      (∃ keys, fixed.answer .list = .ok (.keys keys) ∧
        keys.Pairwise fun key other => Utf8.bytes key < Utf8.bytes other) ∧
      ∀ {σ : Type} (network : Network σ) (before later : List (Token × Call)) (world other : Client.World σ),
        ((OpenStore.fixed fixed).answers network (before ++ later) world).1 =
          ((OpenStore.fixed fixed).answers network before world).1 ++
            ((OpenStore.fixed fixed).answers network later other).1 := by
  intro fixed
  have nobody : (Flight.Table.empty : Creates).entries = [] := rfl
  obtain ⟨outcomes, left, empty, performed, answers⟩ := performAll_spares server settings nobody keeps spares
  refine ⟨⟨outcomes, left, performed, by rw [Flight.Table.inFlight, empty]; rfl, ?_⟩,
    ⟨_, rfl, (Entries.ofList_sorted pairs).keys⟩, ?_⟩
  · exact answers.imp fun _ _ both => agree_of_answers both.2 (answer_spares both.1)
  · intro σ network before later world other
    simp only [OpenStore.answers_fixed, List.map_append]

theorem stores_agree_stocked :
    let settings : Settings := { keyspace := "/c" }
    let pairs := [("b", "1"), ("é", "2"), ("z", "Base64:="), ("b", "3"), ("a", "")]
    let fixed := FixedStore.ofList pairs
    let vault := Vault.empty.stock settings (· == "b") pairs
    let operations : List (Token × Operation) :=
      [("t", .get "b"), ("u", .get "c"), ("t", .create "z" [1]), ("u", .delete "c"), ("t", .list)]
    vault.Keeps settings (.ofEntries pairs) ∧ (∀ entry ∈ operations, (Contents.ofEntries pairs).Spares entry.2) ∧
      (∃ outcomes left,
        Server.plain.performAll settings operations .empty vault = (outcomes.map some, left, vault) ∧
          left.inFlight = 0 ∧ List.Forall₂ (fun entry outcome =>
            Agree (.ofEntries pairs) entry.2 outcome (fixed.answer entry.2.call)) operations outcomes) ∧
      ∃ keys, fixed.answer .list = .ok (.keys keys) ∧
        keys.Pairwise fun key other => Utf8.bytes key < Utf8.bytes other := by
  intro settings pairs fixed vault operations
  have keeps : vault.Keeps settings (.ofEntries pairs) := keeps_stock (fun _ => rfl) _ pairs
  have kept : Contents.ofEntries pairs "z" = some (Utf8.bytes "Base64:=") := by decide +kernel
  have absent : Contents.ofEntries pairs "c" = none := by decide +kernel
  have spares : ∀ entry ∈ operations, (Contents.ofEntries pairs).Spares entry.2 := by
    simp only [operations, List.forall_mem_cons]
    exact ⟨.get "b", .get "c", .create [1] kept, .delete absent, .list, List.forall_mem_nil _⟩
  obtain ⟨served, keys, -⟩ := stores_agree pairs Server.plain settings keeps spares
  exact ⟨keeps, spares, served, keys⟩

end CredHub

end SecretStore
