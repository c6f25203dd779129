import SecretStore.Proofs.CredHub.Conclusions
import SecretStore.Proofs.KeyCursor

namespace SecretStore.CredHub

open Http Http.Action

variable {settings : Settings} {name first second : String}

def IsUnder (settings : Settings) (name : String) : Prop := (settings.keyspace ++ "/").toList <+: name.toList

instance (settings : Settings) (name : String) : Decidable (IsUnder settings name) :=
  inferInstanceAs (Decidable (_ <+: _))

theorem isUnder_nameOf (settings : Settings) (key : String) : IsUnder settings (settings.nameOf key) :=
  under_path_iff.2 ⟨key, rfl⟩

theorem nameOf_bareKey (under : IsUnder settings name) :
    settings.nameOf (bareKey (settings.keyspace ++ "/") name) = name := by
  obtain ⟨key, rfl⟩ := under_path_iff.1 under
  rw [bareKey_nameOf]

theorem bareKey_foreign (foreign : ¬ IsUnder settings name) : bareKey (settings.keyspace ++ "/") name = name := by
  rw [bareKey]
  split
  · rename_i key found
    exact absurd ⟨key, (Search.after?_eq_some_iff.1 found).symm⟩ foreign
  · rfl

theorem nameOf_ne_foreign (foreign : ¬ IsUnder settings name) (key : String) : settings.nameOf key ≠ name := by
  rintro rfl
  exact foreign (isUnder_nameOf settings key)

theorem bareKey_eq_iff :
    bareKey (settings.keyspace ++ "/") first = bareKey (settings.keyspace ++ "/") second ↔
      first = second ∨ (¬ IsUnder settings second ∧ first = settings.nameOf second) ∨
        (¬ IsUnder settings first ∧ second = settings.nameOf first) := by
  constructor
  · intro same
    by_cases under : IsUnder settings first
    · by_cases under' : IsUnder settings second
      · rw [← nameOf_bareKey under, ← nameOf_bareKey under', same]
        exact .inl rfl
      · rw [bareKey_foreign under'] at same
        exact .inr (.inl ⟨under', by rw [← same, nameOf_bareKey under]⟩)
    · by_cases under' : IsUnder settings second
      · rw [bareKey_foreign under] at same
        exact .inr (.inr ⟨under, by rw [same, nameOf_bareKey under']⟩)
      · rw [bareKey_foreign under, bareKey_foreign under'] at same
        exact .inl same
  · rintro (rfl | ⟨foreign, rfl⟩ | ⟨foreign, rfl⟩)
    · rfl
    · rw [bareKey_nameOf, bareKey_foreign foreign]
    · rw [bareKey_nameOf, bareKey_foreign foreign]

/-- The key of a name in the namespace asks for the same credential. No key has a foreign name. -/
structure HandsOut (settings : Settings) (name key : String) : Prop where
  named : IsUnder settings name → settings.nameOf key = name
  gets : IsUnder settings name → Begins (program settings (.get key)) (getRequest name)
  deletes : IsUnder settings name → Begins (program settings (.delete key)) (deleteRequest name)
  foreign : ¬ IsUnder settings name → key = name ∧ ∀ other, settings.nameOf other ≠ name

theorem begins_get (settings : Settings) (key : String) :
    Begins (program settings (.get key)) (getRequest (settings.nameOf key)) :=
  ⟨_, rfl⟩

theorem begins_delete (settings : Settings) (key : String) :
    Begins (program settings (.delete key)) (deleteRequest (settings.nameOf key)) :=
  ⟨_, rfl⟩

theorem handsOut_bareKey (settings : Settings) (name : String) :
    HandsOut settings name (bareKey (settings.keyspace ++ "/") name) where
  named := nameOf_bareKey
  gets under := by
    have begins := begins_get settings (bareKey (settings.keyspace ++ "/") name)
    rwa [nameOf_bareKey under] at begins
  deletes under := by
    have begins := begins_delete settings (bareKey (settings.keyspace ++ "/") name)
    rwa [nameOf_bareKey under] at begins
  foreign other := ⟨bareKey_foreign other, nameOf_ne_foreign other⟩

/-- A listing has one key for each name, in the order of the names. Two names have one key only if one of them is
foreign and the other is what the store would call it. -/
theorem list_hands_out (settings : Settings) {response : Response} {octets : Bytes} {names : List String}
    (success : response.Is2xx) (delivers : Delivers response.body (.ok octets)) (listed : IsNames octets names) :
    let key := bareKey (settings.keyspace ++ "/")
    Concludes (program settings .list) (listRequest (settings.keyspace ++ "/")) response
        (.ok (.keys (names.map key))) ∧
      (KeyCursor.ofKeys (names.map key)).Yields (names.map key) ∧
      (∀ name ∈ names, HandsOut settings name (key name)) ∧
      ∀ first ∈ names, ∀ second ∈ names, key first = key second ↔
        first = second ∨ (¬ IsUnder settings second ∧ first = settings.nameOf second) ∨
          (¬ IsUnder settings first ∧ second = settings.nameOf first) :=
  ⟨ListRead.concludes success delivers (.keys listed), KeyCursor.yields_ofKeys _,
    fun name _ => handsOut_bareKey settings name, fun _ _ _ _ => bareKey_eq_iff⟩

theorem list_hands_out_repeated :
    let settings : Settings := { keyspace := "/kes" }
    let octets := Utf8.bytes "[[[\"/kes/\"],[\"/kes//kes/a\"],\x7b\"name\":\"a\"\x7d,[\"/kes/a\"]]]"
    let response : Response := .ofBytes 200 "OK" octets
    let names := ["/kes/", "/kes//kes/a", "a", "/kes/a"]
    let keys := ["", "/kes/a", "a", "a"]
    (response.Is2xx ∧ Delivers response.body (.ok octets) ∧ IsNames octets names) ∧
      Concludes (program settings .list) (listRequest "/kes/") response (.ok (.keys keys)) ∧
      (KeyCursor.ofKeys keys).Yields keys ∧
      Begins (program settings (.get "/kes/a")) (getRequest "/kes//kes/a") ∧
      Begins (program settings (.delete "")) (deleteRequest "/kes/") := by
  intro settings octets response names keys
  have success : response.Is2xx := ⟨by decide, by decide⟩
  have delivers : Delivers response.body (.ok octets) := delivers_ofBytes 200 "OK" octets
  have listed : IsNames octets names := namesReader_eq_ok_iff.1 (by decide +kernel)
  obtain ⟨concludes, yields, handsOut, -⟩ := list_hands_out settings success delivers listed
  have same : names.map (bareKey (settings.keyspace ++ "/")) = keys := by decide +kernel
  rw [same] at concludes yields
  have twice := (handsOut "/kes//kes/a" (by decide)).gets (by decide)
  have itself := (handsOut "/kes/" (by decide)).deletes (by decide)
  rw [show bareKey (settings.keyspace ++ "/") "/kes//kes/a" = "/kes/a" by decide +kernel] at twice
  rw [show bareKey (settings.keyspace ++ "/") "/kes/" = "" by decide +kernel] at itself
  exact ⟨⟨success, delivers, listed⟩, concludes, yields, twice, itself⟩

theorem foreign_names_collide :
    let settings : Settings := { keyspace := "/kes" }
    let octets := Utf8.bytes "[[[\"/other/k\"],[\"/kes/a\"],[\"a\"]]]"
    let response : Response := .ofBytes 200 "OK" octets
    let names := ["/other/k", "/kes/a", "a"]
    (response.Is2xx ∧ Delivers response.body (.ok octets) ∧ IsNames octets names) ∧
      Concludes (program settings .list) (listRequest "/kes/") response (.ok (.keys ["/other/k", "a", "a"])) ∧
      settings.nameOf "/other/k" ≠ "/other/k" ∧
      Begins (program settings (.get "/other/k")) (getRequest "/kes//other/k") ∧
      Begins (program settings (.get "a")) (getRequest "/kes/a") := by
  intro settings octets response names
  have success : response.Is2xx := ⟨by decide, by decide⟩
  have delivers : Delivers response.body (.ok octets) := delivers_ofBytes 200 "OK" octets
  have listed : IsNames octets names := namesReader_eq_ok_iff.1 (by decide +kernel)
  have concludes : Concludes (program settings .list) (listRequest (settings.keyspace ++ "/")) response _ :=
    ListRead.concludes success delivers (.keys listed)
  have same : names.map (bareKey (settings.keyspace ++ "/")) = ["/other/k", "a", "a"] := by decide +kernel
  rw [same] at concludes
  exact ⟨⟨success, delivers, listed⟩, concludes, by decide, begins_get settings "/other/k",
    begins_get settings "a"⟩

end SecretStore.CredHub
