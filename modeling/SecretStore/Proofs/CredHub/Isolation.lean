import SecretStore.Proofs.CredHub.Refinement

namespace SecretStore.CredHub

open Http

def Server.effect (server : Server) (settings : Settings) (vault : Vault) : Operation → Outcome × Vault
  | .create key value =>
    match (vault.text? (settings.nameOf key)).map decodeValue with
    | none =>
      (.ok .done, vault.write (settings.nameOf key) (encodeValue value settings.forceBase64))
    | some (.ok _) => (.error (.alreadyExists key), vault)
    | some (.error failure) => (.error failure, vault)
  | .set key value =>
    (.ok .done, vault.write (settings.nameOf key) (encodeValue value settings.forceBase64))
  | .get key =>
    match vault.text? (settings.nameOf key) with
    | none => (.error (.notFound key), vault)
    | some text => ((decodeValue text).map .value, vault)
  | .delete key =>
    match vault.text? (settings.nameOf key) with
    | none => (.error (.notFound key), vault)
    | some _ => (.ok .done, vault.remove (settings.nameOf key))
  | .list =>
    (.ok (.keys ((server.arrange (vault.names (settings.keyspace ++ "/"))).map
      (bareKey (settings.keyspace ++ "/")))), vault)

variable {server : Server} {settings : Settings} {token : Token} {creates : Creates} {key : String}
  {vault : Vault}

theorem Server.performs_create (value : Bytes) (nobody : creates.entries = []) :
    ∃ left : Creates, left.entries = [] ∧
      server.perform settings token (.create key value) creates vault =
        (some (server.effect settings vault (.create key value)).1, left,
          (server.effect settings vault (.create key value)).2) := by
  cases kept : vault.text? (settings.nameOf key) with
  | none =>
      simp only [effect, kept, Option.map_none]
      exact perform_create nobody (createWork_written (get_nothing kept) (put_writes settings key value vault))
  | some text =>
      have found : Action.Runs server.host token (get settings key) vault (decodeValue text) vault :=
        get_text kept
      cases decoded : decodeValue text with
      | ok old =>
          rw [decoded] at found
          simp only [effect, kept, decoded, Option.map_some]
          exact perform_create nobody (createWork_taken found)
      | error failure =>
          rw [decoded] at found
          have present : ∀ name, failure ≠ .notFound name := by
            obtain ⟨cause, rfl⟩ := decodeValue_error decoded
            exact fun name same => by cases same
          simp only [effect, kept, decoded, Option.map_some]
          exact perform_create nobody (createWork_refused present found)

theorem Server.performs_get :
    server.perform settings token (.get key) creates vault =
      (some (server.effect settings vault (.get key)).1, creates,
        (server.effect settings vault (.get key)).2) := by
  cases kept : vault.text? (settings.nameOf key) with
  | none =>
      simp only [effect, kept]
      exact perform_plain rfl (.fail (get_nothing kept))
  | some text =>
      have found : Action.Runs server.host token (get settings key) vault (decodeValue text) vault :=
        get_text kept
      simp only [effect, kept]
      cases decoded : decodeValue text with
      | ok value =>
          rw [decoded] at found
          exact perform_plain rfl (.bind found (Action.runs_pure _ _ _ _))
      | error failure =>
          rw [decoded] at found
          exact perform_plain rfl (.fail found)

theorem Server.performs_delete :
    server.perform settings token (.delete key) creates vault =
      (some (server.effect settings vault (.delete key)).1, creates,
        (server.effect settings vault (.delete key)).2) := by
  cases kept : vault.text? (settings.nameOf key) with
  | none =>
      simp only [effect, kept]
      exact perform_plain rfl (.fail (delete_nothing kept))
  | some text =>
      simp only [effect, kept]
      exact perform_plain rfl (.bind (delete_text kept) (Action.runs_pure _ _ _ _))

theorem Server.perform_effect (server : Server) (settings : Settings) (token : Token) (operation : Operation)
    {creates : Creates} (vault : Vault) (nobody : creates.entries = []) :
    ∃ left : Creates, left.entries = [] ∧
      server.perform settings token operation creates vault =
        (some (server.effect settings vault operation).1, left, (server.effect settings vault operation).2) := by
  cases operation with
  | create key value => exact performs_create value nobody
  | set key value =>
      have written : Action.Runs server.host token (set settings key value) vault (.ok ()) _ :=
        set_done (put_writes settings key value vault)
      exact ⟨creates, nobody, perform_plain rfl (.bind written (Action.runs_pure _ _ _ _))⟩
  | get key => exact ⟨creates, nobody, performs_get⟩
  | delete key => exact ⟨creates, nobody, performs_delete⟩
  | list => exact ⟨creates, nobody, perform_plain rfl (.bind (list_keys settings vault) (Action.runs_pure _ _ _ _))⟩

namespace Vault

variable {vault : Vault} {path name : String}

def under (vault : Vault) (path : String) : List (String × String) :=
  vault.entries.filter fun entry => path.toList.isPrefixOf entry.1.toList

theorem names_eq_under (vault : Vault) (path : String) : vault.names path = (vault.under path).map (·.1) := by
  rw [names, under, List.filter_map]
  rfl

theorem text?_eq_under (inside : path.toList <+: name.toList) :
    vault.text? name = (vault.under path).lookup name := by
  have inside : path.toList.isPrefixOf name.toList = true := List.isPrefixOf_iff_prefix.2 inside
  rw [text?, under]
  induction vault.entries with
  | nil => rfl
  | cons entry entries ih => grind

theorem under_remove (vault : Vault) (path name : String) :
    (vault.remove name).under path = (vault.under path).filter (·.1 ≠ name) := by
  simp only [under, remove, List.filter_filter, Bool.and_comm]

theorem under_write (inside : path.toList <+: name.toList) (text : String) :
    (vault.write name text).under path = (name, text) :: (vault.under path).filter (·.1 ≠ name) := by
  rw [← under_remove]
  exact List.filter_cons_of_pos (List.isPrefixOf_iff_prefix.2 inside)

theorem under_remove_outside (outside : ¬ path.toList <+: name.toList) :
    (vault.remove name).under path = vault.under path := by
  rw [under_remove, List.filter_eq_self]
  intro entry member
  rw [under, List.mem_filter, List.isPrefixOf_iff_prefix] at member
  rw [decide_eq_true_eq]
  rintro rfl
  exact outside member.2

theorem under_write_outside (outside : ¬ path.toList <+: name.toList) (text : String) :
    (vault.write name text).under path = vault.under path := by
  have outside' : ¬ path.toList.isPrefixOf name.toList = true := by rwa [List.isPrefixOf_iff_prefix]
  have written : (vault.write name text).under path = (vault.remove name).under path := by
    simp only [under, write, List.filter_cons, outside', Bool.false_eq_true, ↓reduceIte]
  rw [written, under_remove_outside outside]

end Vault

def Settings.path (settings : Settings) : String := settings.keyspace ++ "/"

/-- Neither namespace is a prefix of the other. -/
def Settings.Apart (first second : Settings) : Prop :=
  ¬ first.path.toList <+: second.path.toList ∧ ¬ second.path.toList <+: first.path.toList

theorem Settings.path_inside (settings : Settings) (key : String) :
    settings.path.toList <+: (settings.nameOf key).toList :=
  under_path_iff.2 ⟨key, rfl⟩

theorem Settings.Apart.outside {first second : Settings} (apart : first.Apart second) (key : String) :
    ¬ first.path.toList <+: (second.nameOf key).toList := by
  intro inside
  rcases List.prefix_or_prefix_of_prefix inside (second.path_inside key) with one | other
  · exact apart.1 one
  · exact apart.2 other

theorem Settings.Apart.symm {first second : Settings} (apart : first.Apart second) : second.Apart first :=
  ⟨apart.2, apart.1⟩

namespace Server

variable {settings other : Settings} {vault vault' : Vault}

theorem effect_same (server : Server) (operation : Operation)
    (same : vault.under settings.path = vault'.under settings.path) :
    (server.effect settings vault operation).1 = (server.effect settings vault' operation).1 ∧
      (server.effect settings vault operation).2.under settings.path =
        (server.effect settings vault' operation).2.under settings.path := by
  have text (key : String) : vault.text? (settings.nameOf key) = vault'.text? (settings.nameOf key) := by
    rw [Vault.text?_eq_under (settings.path_inside key), Vault.text?_eq_under (settings.path_inside key), same]
  have write (key text : String) : (vault.write (settings.nameOf key) text).under settings.path =
      (vault'.write (settings.nameOf key) text).under settings.path := by
    rw [Vault.under_write (settings.path_inside key), Vault.under_write (settings.path_inside key), same]
  cases operation with
  | create key value =>
      simp only [effect, text]
      split
      · exact ⟨rfl, write key _⟩
      · exact ⟨rfl, same⟩
      · exact ⟨rfl, same⟩
  | set key value => exact ⟨rfl, write key _⟩
  | get key =>
      simp only [effect, text]
      split <;> exact ⟨rfl, same⟩
  | delete key =>
      simp only [effect, text]
      split
      · exact ⟨rfl, same⟩
      · exact ⟨rfl, by rw [Vault.under_remove, Vault.under_remove, same]⟩
  | list =>
      refine ⟨?_, same⟩
      have names : vault.names (settings.keyspace ++ "/") = vault'.names (settings.keyspace ++ "/") := by
        rw [Vault.names_eq_under, Vault.names_eq_under]
        exact congrArg _ same
      simp only [effect, names]

theorem effect_outside (server : Server) (apart : settings.Apart other) (operation : Operation) :
    (server.effect other vault operation).2.under settings.path = vault.under settings.path := by
  cases operation with
  | create key value =>
      simp only [effect]
      split
      · exact Vault.under_write_outside (apart.outside key) _
      · rfl
      · rfl
  | set key value => exact Vault.under_write_outside (apart.outside key) _
  | get key =>
      simp only [effect]
      split <;> rfl
  | delete key =>
      simp only [effect]
      split
      · rfl
      · exact Vault.under_remove_outside (apart.outside key)
  | list => rfl

def performShared (server : Server) (settings : Bool → Settings) :
    List (Bool × Token × Operation) → (Bool → Creates) → Vault → List (Bool × Option Outcome)
  | [], _, _ => []
  | (store, token, operation) :: rest, creates, vault =>
    let (outcome, left, vault) := server.perform (settings store) token operation (creates store) vault
    (store, outcome) :: server.performShared settings rest (Function.update creates store left) vault

def ofStore {α : Type} (store : Bool) (all : List (Bool × α)) : List α :=
  (all.filter (·.1 = store)).map (·.2)

@[simp]
theorem ofStore_cons_self {α : Type} (store : Bool) (first : α) (rest : List (Bool × α)) :
    ofStore store ((store, first) :: rest) = first :: ofStore store rest := by
  simp [ofStore]

@[simp]
theorem ofStore_cons_not {α : Type} (store : Bool) (first : α) (rest : List (Bool × α)) :
    ofStore store ((!store, first) :: rest) = ofStore store rest := by
  simp [ofStore]

theorem performShared_isolated (server : Server) {settings : Bool → Settings} {store : Bool}
    (apart : (settings store).Apart (settings !store)) (calls : List (Bool × Token × Operation))
    {creates : Bool → Creates} {own : Creates} (nobody : ∀ store, (creates store).entries = [])
    (alone : own.entries = []) (same : vault.under (settings store).path = vault'.under (settings store).path) :
    ∃ outcomes : List Outcome, ofStore store (server.performShared settings calls creates vault) = outcomes.map some ∧
      (server.performAll (settings store) (ofStore store calls) own vault').1 = outcomes.map some := by
  induction calls generalizing creates own vault vault' with
  | nil => exact ⟨[], rfl, rfl⟩
  | cons entry calls ih =>
      obtain ⟨caller, token, operation⟩ := entry
      obtain ⟨left, free, performed⟩ :=
        server.perform_effect (settings caller) token operation vault (nobody caller)
      have nobody' : ∀ store, (Function.update creates caller left store).entries = [] := by
        intro any
        by_cases it : any = caller
        · subst it
          simpa using free
        · simpa [it] using nobody any
      by_cases mine : caller = store
      · subst mine
        obtain ⟨left', free', performed'⟩ :=
          server.perform_effect (settings caller) token operation vault' alone
        obtain ⟨told, kept⟩ := server.effect_same operation same
        obtain ⟨outcomes, shared, lone⟩ := ih nobody' free' kept
        refine ⟨(server.effect (settings caller) vault' operation).1 :: outcomes, ?_, ?_⟩
        · simp only [performShared, performed, told, ofStore_cons_self, shared, List.map_cons]
        · simp only [ofStore_cons_self, performAll, performed', lone, List.map_cons]
      · obtain rfl : caller = !store := by cases caller <;> cases store <;> simp_all
        obtain ⟨outcomes, shared, lone⟩ := ih nobody' alone ((server.effect_outside apart operation).trans same)
        refine ⟨outcomes, ?_, ?_⟩
        · simp only [performShared, performed, ofStore_cons_not, shared]
        · simp only [ofStore_cons_not, lone]

/-- In any order of complete calls, each of two stores with separate namespaces has the outcomes that its own calls
alone have. -/
theorem isolated (server : Server) (settings : Bool → Settings)
    (apart : (settings true).Apart (settings false)) (calls : List (Bool × Token × Operation)) (vault : Vault)
    (store : Bool) :
    ∃ outcomes : List Outcome,
      ofStore store (server.performShared settings calls (fun _ => .empty) vault) = outcomes.map some ∧
        (server.performAll (settings store) (ofStore store calls) .empty vault).1 = outcomes.map some := by
  have apart : (settings store).Apart (settings !store) := by
    cases store with
    | true => exact apart
    | false => exact apart.symm
  exact server.performShared_isolated apart calls (fun _ => rfl) rfl rfl

theorem isolated_alike :
    let settings : Bool → Settings := fun store => { keyspace := if store then "/a" else "/ab" }
    let vault : Vault := ⟨[("/a/k", "Base64:?"), ("/ab/k", "x")], by decide⟩
    let calls : List (Bool × Token × Operation) :=
      [(true, "t", .create "../ab/k" [1]), (false, "u", .set "k" [2]), (true, "t", .get "k"),
        (false, "u", .delete "../a/k"), (true, "t", .list), (false, "u", .list)]
    (settings true).Apart (settings false) ∧
      ∀ store, ∃ outcomes : List Outcome,
        ofStore store (plain.performShared settings calls (fun _ => .empty) vault) = outcomes.map some ∧
          (plain.performAll (settings store) (ofStore store calls) .empty vault).1 = outcomes.map some := by
  intro settings vault calls
  have apart : (settings true).Apart (settings false) := by
    constructor <;> simp [settings, Settings.path]
  exact ⟨apart, isolated plain settings apart calls vault⟩

end Server

end SecretStore.CredHub
