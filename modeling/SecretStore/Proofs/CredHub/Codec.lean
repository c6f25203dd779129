import SecretStore.Proofs.Base64.Canonical
import SecretStore.Proofs.CredHub.Value

namespace SecretStore.CredHub

open Utf8

theorem after?_marker {text payload : String} :
    Search.after? marker.toList text.toList = some payload.toList ↔ text = marker ++ payload := by
  rw [Search.after?_eq_some_iff, ← String.toList_append, String.toList_inj]

theorem exists_payload {text : String} {rest : List Char}
    (marked : Search.after? marker.toList text.toList = some rest) :
    ∃ payload, payload.toList = rest ∧ text = marker ++ payload := by
  refine ⟨String.ofList rest, String.toList_ofList, after?_marker.1 ?_⟩
  rw [marked, String.toList_ofList]

theorem decodeValue_marked (payload : String) :
    decodeValue (marker ++ payload) =
      (Base64.decode (bytes payload)).mapError fun cause => .protocol (.badBase64 cause) := by
  have marked : Search.after? marker.toList (marker ++ payload).toList = some payload.toList :=
    after?_marker.2 rfl
  simp only [decodeValue, marked]
  rfl

theorem encodeValue_forced (value : Bytes) : encodeValue value true = base64Text value := by
  rw [encodeValue]
  split <;> rfl

theorem bytes_base64Text (value : Bytes) : bytes (base64Text value) = bytes marker ++ Base64.encode value := by
  have ascii := encode_ascii fun a (written : a ∈ Base64.encode value) => Base64.encode_ascii written
  rw [bytes, base64Text, String.toList_ofList, encode_append, ascii]
  rfl

theorem eq_base64Text_iff {payload : String} {value : Bytes} :
    marker ++ payload = base64Text value ↔ bytes payload = Base64.encode value := by
  constructor
  · intro same
    have octets := congrArg bytes same
    rw [bytes_append, bytes_base64Text] at octets
    exact List.append_cancel_left octets
  · intro same
    apply bytes_injective
    rw [bytes_append, bytes_base64Text, same]

theorem plainText?_eq_none_iff {value : Bytes} :
    plainText? value = none ↔ text? value = none ∨ bytes marker <+: value := by
  cases read : text? value with
  | none => simp [plainText?, read]
  | some text =>
      have same := bytes_of_text? read
      subst same
      have marked : bytes marker <+: bytes text ↔ marker.toList <+: text.toList := encode_isPrefix_iff
      rw [marked]
      cases found : Search.after? marker.toList text.toList with
      | none =>
          have unmarked : ¬ marker.toList <+: text.toList := by
            rintro ⟨rest, spelled⟩
            rw [Search.after?_eq_some_iff.2 spelled.symm] at found
            cases found
          simp [plainText?, read, found, unmarked]
      | some rest =>
          have spelled := Search.after?_eq_some_iff.1 found
          have begins : marker.toList <+: text.toList := ⟨rest, spelled.symm⟩
          simp [plainText?, read, found, begins]

structure ExactCodec : Prop where
  decode_eq_ok_iff : ∀ text value,
    decodeValue text = .ok value ↔ text = encodeValue value false ∨ text = encodeValue value true
  round_trip : ∀ value force, decodeValue (encodeValue value force) = .ok value
  texts_eq_iff : ∀ value, encodeValue value false = encodeValue value true ↔
    text? value = none ∨ bytes marker <+: value
  text_of_one : ∀ first second force force',
    encodeValue first force = encodeValue second force' → first = second
  refused_iff : ∀ payload,
    (∃ cause, decodeValue (marker ++ payload) = .error (.protocol (.badBase64 cause))) ↔
      ∀ value force, marker ++ payload ≠ encodeValue value force
  refused_iff_canonical : ∀ payload,
    (∃ cause, decodeValue (marker ++ payload) = .error (.protocol (.badBase64 cause))) ↔
      ¬ Base64.Canonical (bytes payload)

theorem eq_encodeValue_of_decodeValue {text : String} {value : Bytes}
    (read : decodeValue text = .ok value) :
    text = encodeValue value false ∨ text = encodeValue value true := by
  cases marked : Search.after? marker.toList text.toList with
  | some rest =>
      obtain ⟨payload, -, rfl⟩ := exists_payload marked
      right
      rw [decodeValue_marked] at read
      rw [encodeValue_forced, eq_base64Text_iff]
      cases decoded : Base64.decode (bytes payload) with
      | error cause =>
          rw [decoded] at read
          cases read
      | ok octets =>
          rw [decoded] at read
          cases read
          exact Base64.decode_eq_ok_iff.1 decoded
  | none =>
      left
      simp only [decodeValue, marked, Except.ok.injEq] at read
      simp [encodeValue, plainText?_eq_some_iff.2 ⟨read, marked⟩]

theorem decodeValue_eq_ok_iff {text : String} {value : Bytes} :
    decodeValue text = .ok value ↔ text = encodeValue value false ∨ text = encodeValue value true := by
  constructor
  · exact eq_encodeValue_of_decodeValue
  · rintro (rfl | rfl)
    · exact decodeValue_encodeValue value false
    · exact decodeValue_encodeValue value true

theorem encodeValue_eq_iff {value : Bytes} :
    encodeValue value false = encodeValue value true ↔ text? value = none ∨ bytes marker <+: value := by
  rw [encodeValue_forced, ← plainText?_eq_none_iff, encodeValue]
  cases plain : plainText? value with
  | none => simp
  | some text =>
      simp only [Bool.false_eq_true, ↓reduceIte, reduceCtorEq, iff_false]
      rintro rfl
      -- Plain text does not begin with the marker, and base64 text does.
      have unmarked := (plainText?_eq_some_iff.1 plain).2
      rw [base64Text, String.toList_ofList, Search.after?_append] at unmarked
      cases unmarked

theorem decodeValue_refused_iff {text : String} :
    (∃ cause, decodeValue text = .error (.protocol (.badBase64 cause))) ↔
      ∀ value, decodeValue text ≠ .ok value := by
  constructor
  · rintro ⟨cause, refused⟩ value read
    rw [refused] at read
    cases read
  · intro unread
    cases decoded : decodeValue text with
    | ok value => exact absurd decoded (unread value)
    | error failure =>
        obtain ⟨cause, rfl⟩ := decodeValue_error decoded
        exact ⟨cause, rfl⟩

theorem decodeValue_marked_isOk_iff {payload : String} :
    (∃ value, decodeValue (marker ++ payload) = .ok value) ↔ Base64.Canonical (bytes payload) := by
  rw [decodeValue_marked, ← Base64.decode_isOk_iff]
  cases Base64.decode (bytes payload) <;> simp [Except.mapError]

/-- The codec is exact in both directions. -/
theorem codec_exact : ExactCodec where
  decode_eq_ok_iff text value := decodeValue_eq_ok_iff
  round_trip := decodeValue_encodeValue
  texts_eq_iff value := encodeValue_eq_iff
  text_of_one first second force force' same := by
    have read := decodeValue_encodeValue first force
    rw [same, decodeValue_encodeValue, Except.ok.injEq] at read
    exact read.symm
  refused_iff payload := by
    rw [decodeValue_refused_iff]
    simp only [ne_eq, decodeValue_eq_ok_iff, not_or, Bool.forall_bool]
  refused_iff_canonical payload := by
    rw [decodeValue_refused_iff, ← decodeValue_marked_isOk_iff, not_exists]

end SecretStore.CredHub
