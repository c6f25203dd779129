import SecretStore.KeyCursor

namespace SecretStore.KeyCursor

theorem left_ofKeys (keys : List String) : (ofKeys keys).left = keys := rfl

theorem next_of_left_nil {cursor : KeyCursor} (none : cursor.left = []) :
    cursor.next = (.none, cursor) := by
  have spent : cursor.keys.length ≤ cursor.index := List.drop_eq_nil_iff.1 none
  rw [next, dif_neg (Nat.not_lt.2 spent)]

theorem next_of_left_cons {cursor : KeyCursor} {key : String} {keys : List String}
    (more : cursor.left = key :: keys) :
    ∃ after, cursor.next = (some key, after) ∧ after.left = keys := by
  have inside : cursor.index < cursor.keys.length := by
    refine Nat.lt_of_not_le fun spent => ?_
    rw [left, List.drop_of_length_le spent] at more
    cases more
  rw [left, List.drop_eq_getElem_cons inside, List.cons.injEq] at more
  obtain ⟨rfl, rest⟩ := more
  exact ⟨_, dif_pos inside, rest⟩

inductive Yields : KeyCursor → List String → Prop where
  | none {cursor : KeyCursor} : cursor.next = (.none, cursor) → Yields cursor []
  | key {cursor after : KeyCursor} {key : String} {keys : List String} :
      cursor.next = (some key, after) → Yields after keys → Yields cursor (key :: keys)

theorem yields_left {cursor : KeyCursor} {keys : List String} (left : cursor.left = keys) :
    cursor.Yields keys := by
  induction keys generalizing cursor with
  | nil => exact .none (next_of_left_nil left)
  | cons key keys ih =>
      obtain ⟨after, next, rest⟩ := next_of_left_cons left
      exact .key next (ih rest)

theorem yields_ofKeys (keys : List String) : (ofKeys keys).Yields keys :=
  yields_left (left_ofKeys keys)

end SecretStore.KeyCursor
