import SecretStore.Proofs.CredHub.Conclusions
import SecretStore.Proofs.Json.Richer

namespace SecretStore

inductive Failure.Kind where
  | notFound
  | alreadyExists
  | notAllowed
  | transport
  | cancelled
  | protocol
  | remote
  | config
  deriving DecidableEq, Repr

def Failure.kind : Failure → Failure.Kind
  | .notFound _ => .notFound
  | .alreadyExists _ => .alreadyExists
  | .notAllowed _ _ => .notAllowed
  | .transport _ => .transport
  | .cancelled => .cancelled
  | .protocol _ => .protocol
  | .remote _ _ _ _ => .remote
  | .config _ => .config

namespace CredHub

open Http Http.Action Json

/-- The bodies differ only in members that the call does not read, in the order of members, and in blanks. -/
inductive Enriches : Call → Bytes → Bytes → Prop where
  | get {key : String} {octets octets' : Bytes} :
      RicherObject "data" (RicherList (RicherObject "value" Respaced)) octets octets' →
      Enriches (.get key) octets octets'
  | list {octets octets' : Bytes} :
      RicherObject "credentials" (RicherList (RicherObject "name" Respaced)) octets octets' →
      Enriches .list octets octets'
  | status {octets octets' : Bytes} : RicherObject "status" Respaced octets octets' → Enriches .status octets octets'

theorem readsAlike_texts (field : Json.Field (List String)) (item : Json.Field String) :
    ReadsAlike (RecordForm field.name field.absent (ListForm (RecordForm item.name item.absent TextForm)))
      (RicherObject field.name (RicherList (RicherObject item.name Respaced))) := by
  have texts := readsAlike_record recognises_text ofValues_text (readsAlike_respaced recognises_text ofValues_text) item
  have known := recognises_record recognises_text item
  have values : OfValues (RecordForm item.name item.absent TextForm) := ofValues_record ofValues_text item.absent
  exact readsAlike_record (recognises_list known) (ofValues_list values) (readsAlike_list known values texts) field

theorem isVersions_iff {octets octets' : Bytes}
    (richer : RicherObject "data" (RicherList (RicherObject "value" Respaced)) octets octets') (texts : List String) :
    IsVersions octets texts ↔ IsVersions octets' texts :=
  readsAlike_texts ⟨"struct DataResponse", "data", some []⟩ ⟨"struct CredentialVersion", "value", none⟩ richer texts

theorem isNames_iff {octets octets' : Bytes}
    (richer : RicherObject "credentials" (RicherList (RicherObject "name" Respaced)) octets octets')
    (names : List String) : IsNames octets names ↔ IsNames octets' names :=
  readsAlike_texts ⟨"struct FindResponse", "credentials", some []⟩ ⟨"struct CredentialName", "name", none⟩ richer names

theorem isHealth_iff {octets octets' : Bytes} (richer : RicherObject "status" Respaced octets octets')
    (found : String) :
    IsHealth octets found ↔ IsHealth octets' found :=
  readsAlike_record recognises_text ofValues_text (readsAlike_respaced recognises_text ofValues_text)
    ⟨"struct HealthResponse", "status", none⟩ richer found

def SameKind (outcome outcome' : Outcome) : Prop := outcome.mapError Failure.kind = outcome'.mapError Failure.kind

theorem form_or_both_malformed {α : Type} {reader : Reader α} {form : Form α} {octets octets' : Bytes}
    (known : ∀ octets value, reader.whole octets = .ok value ↔ form octets value)
    (alike : ∀ value, form octets value ↔ form octets' value) :
    (∃ value, form octets value ∧ form octets' value) ∨
      ∃ cause cause', Malformed reader form octets cause ∧ Malformed reader form octets' cause' := by
  rcases form_or_malformed (known octets) with ⟨value, formed⟩ | ⟨cause, malformed⟩
  · exact .inl ⟨value, formed, (alike value).1 formed⟩
  · rcases form_or_malformed (known octets') with ⟨value, formed⟩ | ⟨cause', malformed'⟩
    · exact (malformed.shapeless value ((alike value).2 formed)).elim
    · exact .inr ⟨cause, cause', malformed, malformed'⟩

section

variable {settings : Settings} {octets octets' : Bytes} {response response' : Response}

theorem getRead_alike (key : String)
    (richer : RicherObject "data" (RicherList (RicherObject "value" Respaced)) octets octets') :
    ∃ outcome outcome', GetRead key octets outcome ∧ GetRead key octets' outcome' ∧ SameKind outcome outcome' := by
  rcases form_or_both_malformed (fun _ _ => versionsReader_eq_ok_iff) (isVersions_iff richer) with
    ⟨texts, formed, formed'⟩ | ⟨cause, cause', malformed, malformed'⟩
  · exact ⟨_, _, .of_texts formed, .of_texts formed', rfl⟩
  · exact ⟨_, _, .malformed malformed, .malformed malformed', rfl⟩

theorem listRead_alike (settings : Settings)
    (richer : RicherObject "credentials" (RicherList (RicherObject "name" Respaced)) octets octets') :
    ∃ outcome outcome', ListRead settings octets outcome ∧ ListRead settings octets' outcome' ∧
      SameKind outcome outcome' := by
  rcases form_or_both_malformed (fun _ _ => namesReader_eq_ok_iff) (isNames_iff richer) with
    ⟨names, formed, formed'⟩ | ⟨cause, cause', malformed, malformed'⟩
  · exact ⟨_, _, .keys formed, .keys formed', rfl⟩
  · exact ⟨_, _, .malformed malformed, .malformed malformed', rfl⟩

theorem statusRead_alike (response response' : Response) (richer : RicherObject "status" Respaced octets octets') :
    ∃ outcome outcome', StatusRead response octets outcome ∧ StatusRead response' octets' outcome' ∧
      SameKind outcome outcome' := by
  rcases form_or_both_malformed (fun _ _ => healthReader_eq_ok_iff) (isHealth_iff richer) with
    ⟨found, formed, formed'⟩ | ⟨cause, cause', malformed, malformed'⟩
  · rcases Decidable.em (found = "UP") with rfl | down
    · exact ⟨_, _, .healthy formed, .healthy formed', rfl⟩
    · exact ⟨_, _, .unhealthy formed down, .unhealthy formed' down, rfl⟩
  · exact ⟨_, _, .malformed malformed, .malformed malformed', rfl⟩

end

/-- Further members of a reply do not matter: the call has the same value, or fails in the same way. -/
theorem surplus_never_matters (settings : Settings) (call : Call) {octets : Bytes} (written : Written .item octets)
    (opens : (skipBlank octets).head? = some (octet '\x7b')) :
    (∃ entries, Framed (ObjectOf entries) octets) ∧
      ∀ octets', Enriches call octets octets' → ∀ response response' : Response,
        response.Is2xx → response'.Is2xx → Delivers response.body (.ok octets) →
        Delivers response'.body (.ok octets') →
        ∃ request outcome outcome', Concludes (program settings call) request response outcome ∧
          Concludes (program settings call) request response' outcome' ∧
          outcome.mapError Failure.kind = outcome'.mapError Failure.kind := by
  refine ⟨written.framed_objectOf opens, ?_⟩
  intro octets' enriches response response' success success' delivers delivers'
  cases enriches with
  | @get key octets octets' richer =>
      obtain ⟨outcome, outcome', read, read', alike⟩ := getRead_alike key richer
      exact ⟨_, outcome, outcome', read.concludes success delivers, read'.concludes success' delivers', alike⟩
  | list richer =>
      obtain ⟨outcome, outcome', read, read', alike⟩ := listRead_alike settings richer
      exact ⟨_, outcome, outcome', read.concludes success delivers, read'.concludes success' delivers', alike⟩
  | status richer =>
      obtain ⟨outcome, outcome', read, read', alike⟩ := statusRead_alike response response' richer
      exact ⟨_, outcome, outcome', read.concludes success delivers, read'.concludes success' delivers', alike⟩

def plainEntry (key : String) (value : Item) : Entry where
  before := []
  name := Utf8.encode (key.toList.flatMap writeChar)
  after := []
  value := value
  blankBefore := blank_nil
  unquoted := (spells_write key.toList).unquoted
  blankAfter := blank_nil

def itemOf (s : String) (passed : skipValue (Utf8.bytes s) = .ok []) : Item :=
  ⟨Utf8.bytes s, written_of_passed passed⟩

theorem framed_of_eq {holds : Bytes → Prop} {before s after whole : Bytes} (value : holds s)
    (same : whole = before ++ (s ++ after)) (blanks : Blank before) (blanks' : Blank after) : Framed holds whole := by
  rw [same]
  exact .framed blanks value blanks'

theorem enriches_typed :
    Enriches (.get "k") (Utf8.bytes "\x7b\"data\":[\x7b\"value\":\"v\"\x7d]\x7d")
      (Utf8.bytes " \x7b\"id\":[1, \x7b\x7d],\"data\":[ \x7b\"type\":null,\"value\": \"v\"\x7d]\x7d ") := by
  have blank : Blank [octet ' '] := List.forall_mem_singleton.2 (by decide)
  let text := itemOf "\"v\"" (by decide +kernel)
  let text' := itemOf " \"v\"" (by decide +kernel)
  let version := itemOf "\x7b\"value\":\"v\"\x7d" (by decide +kernel)
  let version' := itemOf " \x7b\"type\":null,\"value\": \"v\"\x7d" (by decide +kernel)
  let versions := itemOf "[\x7b\"value\":\"v\"\x7d]" (by decide +kernel)
  let versions' := itemOf "[ \x7b\"type\":null,\"value\": \"v\"\x7d]" (by decide +kernel)
  let type := plainEntry "type" (itemOf "null" (by decide +kernel))
  let id := plainEntry "id" (itemOf "[1, \x7b\x7d]" (by decide +kernel))
  have respaced : Respaced text.text text'.text :=
    .value (.text (spells_write ['v']).unquoted) (framed_of_eq rfl (by decide +kernel) blank_nil blank_nil)
      (framed_of_eq rfl (by decide +kernel) blank blank_nil)
  have element : RicherObject "value" Respaced version.text version'.text := by
    have plain : Framed (ObjectOf [plainEntry "value" text]) version.text :=
      framed_of_eq (.filled (plainEntry "value" text) []) (by decide +kernel) blank_nil blank_nil
    have typed : Framed (ObjectOf [type, plainEntry "value" text']) version'.text :=
      framed_of_eq (.filled type [plainEntry "value" text']) (by decide +kernel) blank blank_nil
    have counterpart : Counterpart "value" Respaced (plainEntry "value" text) (plainEntry "value" text') :=
      .named rfl (spells_write "value".toList) respaced
    refine .object plain typed (.cons counterpart .nil) ?_ (.swap ..)
    simpa using ⟨"type", by decide, spells_write "type".toList⟩
  have list : RicherList (RicherObject "value" Respaced) versions.text versions'.text := by
    have plain : Framed (ListOf [version]) versions.text :=
      framed_of_eq (.filled version []) (by decide +kernel) blank_nil blank_nil
    have typed : Framed (ListOf [version']) versions'.text :=
      framed_of_eq (.filled version' []) (by decide +kernel) blank_nil blank_nil
    exact .list plain typed (.cons element .nil)
  have plain : Framed (ObjectOf [plainEntry "data" versions])
      (Utf8.bytes "\x7b\"data\":[\x7b\"value\":\"v\"\x7d]\x7d") :=
    framed_of_eq (.filled (plainEntry "data" versions) []) (by decide +kernel) blank_nil blank_nil
  have typed : Framed (ObjectOf [id, plainEntry "data" versions'])
      (Utf8.bytes " \x7b\"id\":[1, \x7b\x7d],\"data\":[ \x7b\"type\":null,\"value\": \"v\"\x7d]\x7d ") :=
    framed_of_eq (.filled id [plainEntry "data" versions']) (by decide +kernel) blank blank
  have counterpart : Counterpart "data" (RicherList (RicherObject "value" Respaced)) (plainEntry "data" versions)
      (plainEntry "data" versions') := .named rfl (spells_write "data".toList) list
  refine .get (.object plain typed (.cons counterpart .nil) ?_ (.swap ..))
  simpa using ⟨"id", by decide, spells_write "id".toList⟩

theorem surplus_never_matters_typed :
    let settings : Settings := { keyspace := "/kes" }
    let octets := Utf8.bytes "\x7b\"data\":[\x7b\"value\":\"v\"\x7d]\x7d"
    let octets' := Utf8.bytes " \x7b\"id\":[1, \x7b\x7d],\"data\":[ \x7b\"type\":null,\"value\": \"v\"\x7d]\x7d "
    Written .item octets ∧ (skipBlank octets).head? = some (octet '\x7b') ∧ Enriches (.get "k") octets octets' ∧
      ∃ request outcome outcome',
        Concludes (program settings (.get "k")) request (.ofBytes 200 "OK" octets) outcome ∧
        Concludes (program settings (.get "k")) request (.ofBytes 206 "" octets') outcome' ∧
        outcome.mapError Failure.kind = outcome'.mapError Failure.kind := by
  intro settings octets octets'
  have written : Written .item octets := written_of_passed (by decide +kernel)
  have opens : (skipBlank octets).head? = some (octet '\x7b') := by decide +kernel
  have typed := (surplus_never_matters settings (.get "k") written opens).2 octets' enriches_typed
    (.ofBytes 200 "OK" octets) (.ofBytes 206 "" octets') ⟨by decide, by decide⟩ ⟨by decide, by decide⟩
    (delivers_ofBytes ..) (delivers_ofBytes ..)
  exact ⟨written, opens, enriches_typed, typed⟩

end CredHub

end SecretStore
