import SecretStore.CredHub.Operation
import SecretStore.Proofs.Json.Records

namespace SecretStore.CredHub

open Http Json

def IsVersions : Form (List String) :=
  Whole (RecordForm "data" (some []) (ListForm (RecordForm "value" none TextForm)))

def IsNames : Form (List String) :=
  Whole (RecordForm "credentials" (some []) (ListForm (RecordForm "name" none TextForm)))

def IsHealth : Form String := Whole (RecordForm "status" none TextForm)

theorem versionsReader_eq_ok_iff {octets : Bytes} {texts : List String} :
    versionsReader.whole octets = .ok texts ↔ IsVersions octets texts :=
  (recognises_record (recognises_list (recognises_record recognises_text _)) _).whole_eq_ok_iff

theorem namesReader_eq_ok_iff {octets : Bytes} {names : List String} :
    namesReader.whole octets = .ok names ↔ IsNames octets names :=
  (recognises_record (recognises_list (recognises_record recognises_text _)) _).whole_eq_ok_iff

theorem healthReader_eq_ok_iff {octets : Bytes} {found : String} :
    healthReader.whole octets = .ok found ↔ IsHealth octets found :=
  (recognises_record recognises_text _).whole_eq_ok_iff

section

variable {α : Type} {reader : Reader α} {form : Form α} {octets : Bytes}

structure Malformed (reader : Reader α) (form : Form α) (octets : Bytes) (cause : Violation) : Prop where
  shapeless (value : α) : ¬ form octets value
  decoded : Action.decode reader octets = .error (.protocol cause)

theorem decode_of_form (known : ∀ value, reader.whole octets = .ok value ↔ form octets value) {value : α}
    (formed : form octets value) : Action.decode reader octets = .ok value := by
  rw [Action.decode, (known value).2 formed]
  rfl

theorem form_or_malformed (known : ∀ value, reader.whole octets = .ok value ↔ form octets value) :
    (∃ value, form octets value) ∨ ∃ cause, Malformed reader form octets cause := by
  cases read : reader.whole octets with
  | ok value => exact .inl ⟨value, (known value).1 read⟩
  | error cause =>
      refine .inr ⟨.malformedJson cause, fun value formed => ?_, by rw [Action.decode, read]; rfl⟩
      rw [(known value).2 formed] at read
      cases read

end

end SecretStore.CredHub
