import SecretStore.CredHub.Credentials
import SecretStore.Proofs.Text.Lossy

namespace SecretStore.Tls.Pem

open Search Utf8

def HasMarks (octets : Bytes) : Prop :=
  ∃ first last, first ≤ last ∧ OccursAt beginMark octets first ∧ OccursAt endMark octets last

/-- A word that begins with an ASCII character and holds no replacement character. -/
def IsMark (mark : Bytes) : Prop :=
  ∃ (c : Char) (word : List Char), mark = encode (c :: word) ∧ c.toNat < 0x80 ∧ '\uFFFD' ∉ c :: word

theorem isMark_begin : IsMark beginMark := ⟨'-', "----BEGIN ".toList, rfl, by decide, by decide⟩

theorem isMark_end : IsMark endMark := ⟨'-', "----END ".toList, rfl, by decide, by decide⟩

def text (octets : Bytes) : Bytes := bytes (lossy octets)

theorem text_eq (octets : Bytes) : text octets = encode (lossyChars octets) := by
  rw [text, bytes, lossy, String.toList_ofList]

variable {octets mark : Bytes} {place shown start : Nat}

theorem IsMark.occurs_text (isMark : IsMark mark) (occurs : OccursAt mark octets place) :
    ∃ shown, SamePlace octets place shown ∧ OccursAt mark (text octets) shown := by
  obtain ⟨c, word, rfl, ascii, -⟩ := isMark
  rw [text_eq]
  exact occursAt_shown ascii occurs

theorem IsMark.occurs_octets (isMark : IsMark mark) (occurs : OccursAt mark (text octets) shown) :
    ∃ place, SamePlace octets place shown ∧ OccursAt mark octets place := by
  obtain ⟨c, word, rfl, ascii, sound⟩ := isMark
  rw [text_eq] at occurs
  exact occursAt_of_shown ascii sound occurs

theorem hasMarks_text (octets : Bytes) : HasMarks (text octets) ↔ HasMarks octets := by
  constructor
  · rintro ⟨first, last, le, begins, ends⟩
    obtain ⟨place, same, begins⟩ := isMark_begin.occurs_octets begins
    obtain ⟨place', same', ends⟩ := isMark_end.occurs_octets ends
    exact ⟨place, place', Nat.le_of_not_lt fun lt => Nat.not_lt.2 le ((same'.lt_iff same).1 lt), begins, ends⟩
  · rintro ⟨first, last, le, begins, ends⟩
    obtain ⟨shown, same, begins⟩ := isMark_begin.occurs_text begins
    obtain ⟨shown', same', ends⟩ := isMark_end.occurs_text ends
    exact ⟨shown, shown', Nat.le_of_not_lt fun lt => Nat.not_lt.2 le ((same'.lt_iff same).2 lt), begins, ends⟩

theorem hasMarks_iff : HasMarks octets ↔
    ∃ start, offset? beginMark octets = some start ∧ occursIn endMark (octets.drop start) = true := by
  constructor
  · rintro ⟨first, last, le, begins, ends⟩
    obtain ⟨start, before, found⟩ := offset?_isSome begins
    refine ⟨start, found, occursIn_iff.2 ⟨last - start, occursAt_drop.2 ?_⟩⟩
    rwa [Nat.add_sub_of_le (Nat.le_trans before le)]
  · rintro ⟨start, found, ends⟩
    obtain ⟨place, ends⟩ := occursIn_iff.1 ends
    exact ⟨start, start + place, Nat.le_add_right _ _, (offset?_eq_some_iff.1 found).1, occursAt_drop.1 ends⟩

theorem hasBlock_iff : hasBlock octets = true ↔ HasMarks octets := by
  rw [← hasMarks_text, hasMarks_iff, text, hasBlock]
  cases offset? beginMark (bytes (lossy octets)) with
  | none => simp
  | some start => simp

theorem text_drop (found : offset? beginMark (text octets) = some start) :
    ∃ front back, lossyChars octets = front ++ back ∧ start = (encode front).length ∧
      (text octets).drop start = encode back := by
  obtain ⟨place, same, -⟩ := isMark_begin.occurs_octets (offset?_eq_some_iff.1 found).1
  obtain ⟨front, back, whole, rfl⟩ := same.between
  exact ⟨front, back, whole, rfl, by rw [text_eq, whole, encode_append, List.drop_left]⟩

structure MarksKept (octets text : Bytes) : Prop where
  not_hidden : ∀ mark ∈ [beginMark, endMark], ∀ place, OccursAt mark octets place →
    ∃ shown, SamePlace octets place shown ∧ OccursAt mark text shown
  not_made_up : ∀ mark ∈ [beginMark, endMark], ∀ shown, OccursAt mark text shown →
    ∃ place, SamePlace octets place shown ∧ OccursAt mark octets place
  in_order : ∀ {place shown place' shown'}, SamePlace octets place shown → SamePlace octets place' shown' →
    (place < place' ↔ shown < shown')
  from_first : HasMarks text ↔ ∃ start, offset? beginMark text = some start ∧ occursIn endMark (text.drop start) = true
  cut : ∀ start, offset? beginMark text = some start →
    ∃ front back, lossyChars octets = front ++ back ∧ start = (encode front).length ∧ text.drop start = encode back

theorem isMark_of_mem (member : mark ∈ [beginMark, endMark]) : IsMark mark := by
  simp only [List.mem_cons, List.not_mem_nil, or_false] at member
  rcases member with rfl | rfl
  · exact isMark_begin
  · exact isMark_end

theorem marksKept (octets : Bytes) : MarksKept octets (bytes (lossy octets)) where
  not_hidden _ member _ occurs := (isMark_of_mem member).occurs_text occurs
  not_made_up _ member _ occurs := (isMark_of_mem member).occurs_octets occurs
  in_order one two := one.lt_iff two
  from_first := hasMarks_iff
  cut _ found := text_drop found

end SecretStore.Tls.Pem

namespace SecretStore.CredHub

open Files (FileSystem)
open Tls.Pem

/-- A file that can be read is accepted, with its octets unchanged, if and only if the octets hold a beginning and an
end behind it, although the decoded text is searched. -/
theorem readPem_marked {files : FileSystem} {path : String} {octets : Bytes} (read : files path = .ok octets)
    (field : String) :
    (∀ result, readPem files field path = .ok result ↔ result = octets ∧ HasMarks octets) ∧
      (readPem files field path = .error (.invalidCertificate field "no PEM block found") ↔ ¬ HasMarks octets) ∧
      MarksKept octets (Utf8.bytes (Utf8.lossy octets)) := by
  rw [readPem, read, ← hasBlock_iff]
  dsimp only
  split
  · rename_i block
    refine ⟨fun result => ?_, iff_of_false nofun (not_not.2 block), marksKept octets⟩
    rw [Except.ok.injEq, and_iff_left block, eq_comm]
  · rename_i none
    exact ⟨fun result => iff_of_false nofun fun both => none both.2, iff_of_true rfl none, marksKept octets⟩

theorem readPem_marked_strays :
    let octets := 0xE2 :: 0x82 :: (endMark ++ 0xFF :: (beginMark ++ 0xF0 :: 0x90 :: endMark))
    let files : FileSystem := fun _ => .ok octets
    files "ca" = .ok octets ∧ readPem files "server_ca_cert_file_path" "ca" = .ok octets := by
  intro octets files
  have read : files "ca" = .ok octets := rfl
  exact ⟨read, ((readPem_marked read "server_ca_cert_file_path").1 octets).2
    ⟨rfl, 12, 25, by decide, ⟨_, rfl⟩, ⟨_, rfl⟩⟩⟩

end SecretStore.CredHub
