import SecretStore.Proofs.Text.Search
import SecretStore.Proofs.Text.Utf8

namespace SecretStore.Utf8

open Search

theorem Pending.low_ge {taken : Bytes} {want : Lead} (pending : Pending taken want) : 0x80 ≤ want.low := by
  cases pending with
  | three n most | four n most =>
      dsimp only
      split <;> decide
  | _ => exact UInt8.le_refl _

theorem run_append_ascii (state : State) (sound : state.Sound) (front rest : Bytes) {a : UInt8} (ascii : a < 0x80) :
    run state (front ++ a :: rest) = run state front ++ .char (Char.ofNat a.toNat) :: run .between rest := by
  have begins : start a = ([.char (Char.ofNat a.toNat)], .between) := if_pos ascii
  induction front generalizing state with
  | nil =>
      rw [List.nil_append, run_cons]
      cases state with
      | between => rw [feed, begins, run, List.singleton_append, List.nil_append]
      | inside taken want =>
          have unwanted : ¬ (want.low ≤ a ∧ a ≤ want.high) := fun wanted =>
            UInt8.not_le.2 ascii (UInt8.le_trans (Pending.low_ge sound) wanted.1)
          rw [feed, if_neg unwanted, begins, run]
          rfl
  | cons b front ih =>
      rw [List.cons_append, run_cons, run_cons, ih _ (feed_octets state sound b).2, List.append_assoc]

theorem pieces_append_ascii {c : Char} (ascii : c.toNat < 0x80) (front : Bytes) (word : List Char) (rest : Bytes) :
    pieces (front ++ (encode (c :: word) ++ rest)) = pieces front ++ ((c :: word).map .char ++ pieces rest) := by
  have number : (UInt8.ofNat c.toNat).toNat = c.toNat := toNat_ofNat (by omega)
  have below : UInt8.ofNat c.toNat < 0x80 := (lt_iff _ 0x80).2 (number.symm ▸ ascii)
  have others := pieces_encode_append word rest
  rw [encode, List.flatMap_cons, encodeChar_ascii ascii, List.cons_append, List.nil_append, List.cons_append, pieces,
    run_append_ascii .between trivial front _ below, number, Char.ofNat_toNat, List.map_cons, List.cons_append]
  exact congrArg (pieces front ++ .char c :: ·) others

theorem encodeChar_ne_nil (c : Char) : String.utf8EncodeChar c ≠ [] := by
  obtain ⟨first, inner, same, -⟩ := encodeChar_cases c
  rw [same]
  exact List.cons_ne_nil _ _

theorem octets_char_ne_nil (c : Char) : (Piece.char c).octets ≠ [] := encodeChar_ne_nil c

theorem Pending.taken_ne_nil {taken : Bytes} {want : Lead} (pending : Pending taken want) : taken ≠ [] := by
  cases pending <;> exact List.cons_ne_nil _ _

theorem octets_ne_nil_start {a : UInt8} {piece : Piece} (member : piece ∈ (start a).1) : piece.octets ≠ [] := by
  unfold start at member
  split at member
  · rw [List.mem_singleton.1 member]
    exact octets_char_ne_nil _
  · split at member
    · exact absurd member List.not_mem_nil
    · obtain rfl := List.mem_singleton.1 member
      exact List.cons_ne_nil _ _

theorem octets_ne_nil_feed {state : State} (sound : state.Sound) {a : UInt8} {piece : Piece}
    (member : piece ∈ (feed state a).1) : piece.octets ≠ [] := by
  cases state with
  | between => exact octets_ne_nil_start member
  | inside taken want =>
      simp only [feed] at member
      split at member
      · split at member
        · rw [List.mem_singleton.1 member]
          exact octets_char_ne_nil _
        · exact absurd member List.not_mem_nil
      · rcases List.mem_cons.1 member with rfl | member
        · exact Pending.taken_ne_nil sound
        · exact octets_ne_nil_start member

theorem octets_ne_nil_run {state : State} (sound : state.Sound) {octets : Bytes} {piece : Piece}
    (member : piece ∈ run state octets) : piece.octets ≠ [] := by
  induction octets generalizing state with
  | nil =>
      cases state with
      | between => cases member
      | inside taken want =>
          obtain rfl := List.mem_singleton.1 member
          exact Pending.taken_ne_nil sound
  | cons a octets ih =>
      rw [run_cons] at member
      rcases List.mem_append.1 member with first | later
      · exact octets_ne_nil_feed sound first
      · exact ih (feed_octets state sound a).2 later

/-- Corresponding places of the octets and of the text that they decode to. -/
def SamePlace (octets : Bytes) (place shown : Nat) : Prop :=
  ∃ front back, pieces octets = front ++ back ∧ place = (front.flatMap Piece.octets).length ∧
    shown = (encode (front.map Piece.shown)).length

variable {octets : Bytes} {place shown : Nat}

theorem eq_or_longer {front more : List Piece} (short : front <+: more) (of : more <+: pieces octets) :
    front = more ∨ (front.flatMap Piece.octets).length < (more.flatMap Piece.octets).length ∧
      (encode (front.map Piece.shown)).length < (encode (more.map Piece.shown)).length := by
  obtain ⟨rest, rfl⟩ := short
  cases rest with
  | nil => exact .inl (List.append_nil front).symm
  | cons piece rest =>
      have member : piece ∈ pieces octets := of.subset (by simp)
      have some := List.length_pos_iff.2 (@octets_ne_nil_run .between trivial octets piece member)
      have one := List.length_pos_iff.2 (encodeChar_ne_nil piece.shown)
      refine .inr ⟨?_, ?_⟩
      · rw [List.flatMap_append, List.flatMap_cons, List.length_append, List.length_append]
        omega
      · rw [List.map_append, encode_append, List.map_cons, encode, encode, List.flatMap_cons, List.length_append,
          List.length_append]
        omega

theorem SamePlace.lt_iff {other othersShown : Nat} (one : SamePlace octets place shown)
    (two : SamePlace octets other othersShown) : place < other ↔ shown < othersShown := by
  obtain ⟨front, back, whole, rfl, rfl⟩ := one
  obtain ⟨front', back', whole', rfl, rfl⟩ := two
  have first : front <+: pieces octets := ⟨back, whole.symm⟩
  have second : front' <+: pieces octets := ⟨back', whole'.symm⟩
  rcases List.prefix_or_prefix_of_prefix first second with shorter | longer
  · rcases eq_or_longer shorter second with rfl | ⟨less, less'⟩
    · exact iff_of_false (Nat.lt_irrefl _) (Nat.lt_irrefl _)
    · exact iff_of_true less less'
  · rcases eq_or_longer longer first with rfl | ⟨less, less'⟩
    · exact iff_of_false (Nat.lt_irrefl _) (Nat.lt_irrefl _)
    · exact iff_of_false (Nat.lt_asymm less) (Nat.lt_asymm less')

theorem SamePlace.between (same : SamePlace octets place shown) :
    ∃ front back, lossyChars octets = front ++ back ∧ shown = (encode front).length := by
  obtain ⟨front, back, whole, -, length⟩ := same
  exact ⟨front.map Piece.shown, back.map Piece.shown, by rw [lossyChars, whole, List.map_append], length⟩

variable {c : Char} {word : List Char}

theorem encode_cons_ne_nil (c : Char) (word : List Char) : encode (c :: word) ≠ [] := by
  rw [encode, List.flatMap_cons]
  exact List.append_ne_nil_of_left_ne_nil (encodeChar_ne_nil c) _

theorem occursAt_shown (ascii : c.toNat < 0x80) (occurs : OccursAt (encode (c :: word)) octets place) :
    ∃ shown, SamePlace octets place shown ∧ OccursAt (encode (c :: word)) (encode (lossyChars octets)) shown := by
  have some := encode_cons_ne_nil c word
  obtain ⟨front, rest, rfl, rfl⟩ := (occursAt_iff some).1 occurs
  have whole := pieces_append_ascii ascii front word rest
  refine ⟨_, ⟨pieces front, _, whole, by rw [pieces_octets], rfl⟩, ?_⟩
  rw [occursAt_iff some, lossyChars, whole]
  refine ⟨_, encode ((pieces rest).map Piece.shown), ?_, rfl⟩
  rw [List.map_append, List.map_append, List.map_map, encode_append, encode_append]
  congr 3
  exact List.map_id (c :: word)

theorem eq_map_char {found : List Piece} (sound : '\uFFFD' ∉ word) (shows : found.map Piece.shown = word) :
    found = word.map .char := by
  subst shows
  induction found with
  | nil => rfl
  | cons piece found ih =>
      obtain ⟨first, others⟩ := not_or.1 fun member => sound (List.mem_cons.2 member)
      rw [List.map_cons, List.map_cons, ← ih others]
      cases piece with
      | char c => rfl
      | stray octets => exact absurd rfl first

theorem flatMap_octets_char (chars : List Char) : (chars.map Piece.char).flatMap Piece.octets = encode chars := by
  rw [List.flatMap_map]
  rfl

theorem occursAt_of_shown (ascii : c.toNat < 0x80) (sound : '\uFFFD' ∉ c :: word)
    (occurs : OccursAt (encode (c :: word)) (encode (lossyChars octets)) shown) :
    ∃ place, SamePlace octets place shown ∧ OccursAt (encode (c :: word)) octets place := by
  have some := encode_cons_ne_nil c word
  obtain ⟨front, rest, whole, rfl⟩ := (occursAt_iff some).1 occurs
  have chars := congrArg pieces whole
  rw [pieces_encode, pieces_append_ascii ascii, lossyChars] at chars
  obtain ⟨before, others, cut, spelt, others'⟩ := List.map_eq_append_iff.1 chars
  obtain ⟨found, after, rfl, same, -⟩ := List.map_eq_append_iff.1 others'
  obtain rfl : found = c :: word := (List.map_inj_right fun _ _ => Piece.char.inj).1 same
  obtain ⟨first, more, cut', rfl, more'⟩ := List.map_eq_append_iff.1 cut
  obtain ⟨middle, last, rfl, shows, -⟩ := List.map_eq_append_iff.1 more'
  obtain rfl := eq_map_char sound shows
  refine ⟨_, ⟨first, _, cut', rfl, ?_⟩, ?_⟩
  · rw [← flatMap_octets_char, spelt, pieces_octets]
  · refine (occursAt_iff some).2 ⟨_, last.flatMap Piece.octets, ?_, rfl⟩
    rw [← pieces_octets octets, cut', List.flatMap_append, List.flatMap_append, flatMap_octets_char]

end SecretStore.Utf8
