import Mathlib.Data.List.Basic
import SecretStore.Text.Search

namespace SecretStore.Search

variable {α : Type} [BEq α] [LawfulBEq α]

theorem after?_eq_some_iff {front whole rest : List α} :
    after? front whole = some rest ↔ whole = front ++ rest := by
  fun_induction after? front whole with
  | case1 whole => simp
  | case2 a front => simp
  | case3 a front b whole same ih =>
      rw [ih, eq_of_beq same]
      simp
  | case4 a front b whole other =>
      have different : b ≠ a := fun same => other (by simp [same])
      simp [different]

theorem after?_append (front rest : List α) : after? front (front ++ rest) = some rest :=
  after?_eq_some_iff.mpr rfl

omit [BEq α] [LawfulBEq α]

def OccursAt (wanted whole : List α) (place : Nat) : Prop := wanted <+: whole.drop place

variable {wanted whole : List α} {place : Nat}

theorem occursAt_cons {a : α} : OccursAt wanted (a :: whole) (place + 1) ↔ OccursAt wanted whole place := Iff.rfl

theorem occursAt_nil : OccursAt wanted [] place ↔ wanted = [] := by
  rw [OccursAt, List.drop_nil, List.prefix_nil]

theorem occursAt_drop {start : Nat} :
    OccursAt wanted (whole.drop start) place ↔ OccursAt wanted whole (start + place) := by
  rw [OccursAt, List.drop_drop, OccursAt]

theorem occursAt_iff (some : wanted ≠ []) :
    OccursAt wanted whole place ↔ ∃ front rest, whole = front ++ (wanted ++ rest) ∧ place = front.length := by
  constructor
  · rintro ⟨rest, same⟩
    have inside : place ≤ whole.length := by
      refine Nat.le_of_lt (Nat.lt_of_not_le fun beyond => some ?_)
      rw [List.drop_of_length_le beyond] at same
      exact (List.append_eq_nil_iff.1 same).1
    exact ⟨whole.take place, rest, by rw [same, List.take_append_drop], (List.length_take_of_le inside).symm⟩
  · rintro ⟨front, rest, rfl, rfl⟩
    rw [OccursAt, List.drop_left]
    exact List.prefix_append _ _

variable [BEq α] [LawfulBEq α]

theorem after?_isSome_iff : (after? wanted whole).isSome = true ↔ OccursAt wanted whole 0 := by
  rw [Option.isSome_iff_exists]
  exact exists_congr fun rest => after?_eq_some_iff.trans eq_comm

theorem after?_eq_none_iff : after? wanted whole = none ↔ ¬ OccursAt wanted whole 0 := by
  rw [← after?_isSome_iff, Bool.not_eq_true, Option.isSome_eq_false_iff, Option.isNone_iff_eq_none]

theorem offset?_eq_some_iff : offset? wanted whole = some place ↔
    OccursAt wanted whole place ∧ ∀ earlier < place, ¬ OccursAt wanted whole earlier := by
  induction whole generalizing place with
  | nil =>
      simp only [offset?, occursAt_nil]
      cases wanted with
      | nil =>
          cases place with
          | zero => simp [after?]
          | succ place => exact iff_of_false (by simp [after?]) fun none => none.2 0 (Nat.succ_pos place) rfl
      | cons a wanted => simp [after?]
  | cons a whole ih =>
      simp only [offset?]
      split
      next rest first =>
        have here : OccursAt wanted (a :: whole) 0 := after?_isSome_iff.1 (by rw [first]; rfl)
        cases place with
        | zero => simp [here]
        | succ place => exact iff_of_false (by simp) fun none => none.2 0 (Nat.succ_pos place) here
      next first =>
        have absent := after?_eq_none_iff.1 first
        cases place with
        | zero => simp [absent]
        | succ place =>
            have none : (∀ earlier < place + 1, ¬ OccursAt wanted (a :: whole) earlier) ↔
                ∀ earlier < place, ¬ OccursAt wanted whole earlier := by
              rw [Nat.forall_lt_succ_left, and_iff_right absent]
              simp only [occursAt_cons]
            rw [none, occursAt_cons, ← ih]
            simp

theorem offset?_isSome (occurs : OccursAt wanted whole place) : ∃ first ≤ place, offset? wanted whole = some first := by
  induction place using Nat.strongRecOn with
  | ind place ih =>
      by_cases before : ∃ earlier < place, OccursAt wanted whole earlier
      · obtain ⟨earlier, lt, occurs⟩ := before
        obtain ⟨first, le, found⟩ := ih earlier lt occurs
        exact ⟨first, by omega, found⟩
      · refine ⟨place, Nat.le_refl _, offset?_eq_some_iff.2 ⟨occurs, fun earlier lt occurs => before ?_⟩⟩
        exact ⟨earlier, lt, occurs⟩

theorem occursIn_iff : occursIn wanted whole = true ↔ ∃ place, OccursAt wanted whole place := by
  rw [occursIn]
  induction whole with
  | nil => simp [afterFirst?, after?_isSome_iff, occursAt_nil]
  | cons a whole ih =>
      simp only [afterFirst?]
      split
      next rest first => exact iff_of_true rfl ⟨0, after?_isSome_iff.1 (by rw [first]; rfl)⟩
      next first =>
        rw [ih]
        constructor
        · rintro ⟨place, occurs⟩
          exact ⟨place + 1, occurs⟩
        · rintro ⟨place, occurs⟩
          cases place with
          | zero => exact absurd occurs (after?_eq_none_iff.1 first)
          | succ place => exact ⟨place, occurs⟩

end SecretStore.Search
