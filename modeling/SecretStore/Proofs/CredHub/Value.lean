import SecretStore.CredHub.Value
import SecretStore.Proofs.Base64
import SecretStore.Proofs.Text.Search
import SecretStore.Proofs.Text.Utf8

namespace SecretStore.CredHub

open Utf8

theorem decodeValue_base64Text (value : Bytes) : decodeValue (base64Text value) = .ok value := by
  have ascii := encode_ascii fun a (written : a ∈ Base64.encode value) => Base64.encode_ascii written
  rw [decodeValue, base64Text, String.toList_ofList, Search.after?_append]
  simp only [ascii, Base64.decode_encode]
  rfl

theorem plainText?_eq_some_iff {value : Bytes} {text : String} :
    plainText? value = some text ↔
      bytes text = value ∧ Search.after? marker.toList text.toList = none := by
  rw [plainText?, Option.filter_eq_some_iff, Option.isNone_iff_eq_none]
  constructor
  · rintro ⟨read, unmarked⟩
    exact ⟨bytes_of_text? read, unmarked⟩
  · rintro ⟨rfl, unmarked⟩
    exact ⟨text?_bytes text, unmarked⟩

theorem decodeValue_encodeValue (value : Bytes) (force : Bool) :
    decodeValue (encodeValue value force) = .ok value := by
  cases plain : plainText? value with
  | none => simp only [encodeValue, plain, decodeValue_base64Text]
  | some text =>
      obtain ⟨same, unmarked⟩ := plainText?_eq_some_iff.mp plain
      cases force with
      | true => simp only [encodeValue, plain, ↓reduceIte, decodeValue_base64Text]
      | false => simp [encodeValue, plain, decodeValue, unmarked, same]

theorem decodeValue_error {text : String} {failure : Failure}
    (decoded : decodeValue text = .error failure) : ∃ cause, failure = .protocol (.badBase64 cause) := by
  rw [decodeValue] at decoded
  split at decoded
  · rename_i payload _
    cases base64 : Base64.decode (Utf8.encode payload) with
    | ok value =>
        rw [base64] at decoded
        cases decoded
    | error cause =>
        rw [base64] at decoded
        cases decoded
        exact ⟨cause, rfl⟩
  · cases decoded

end SecretStore.CredHub
