import Mathlib.Data.List.Forall2

namespace SecretStore

variable {α β : Type} {related : α → α → Prop} {first second : List α}

theorem map_related {related' : β → β → Prop} {found found' : Option α} {f g : α → β}
    (pair : Option.Rel related found found') (onward : ∀ a b, related a b → related' (f a) (g b)) :
    Option.Rel related' (found.map f) (found'.map g) := by
  cases pair with
  | none => exact .none
  | some pair => exact .some (onward _ _ pair)

theorem map_eq_of_related {f : α → β} (pairs : List.Forall₂ related first second)
    (same : ∀ a b, related a b → f a = f b) : first.map f = second.map f := by
  induction pairs with
  | nil => rfl
  | cons pair _ ih => rw [List.map_cons, List.map_cons, same _ _ pair, ih]

theorem getElem?_related (pairs : List.Forall₂ related first second) (i : Nat) :
    Option.Rel related first[i]? second[i]? := by
  induction pairs generalizing i with
  | nil => exact .none
  | cons pair _ ih =>
      cases i with
      | zero => exact .some pair
      | succ i => exact ih i

theorem modify_related {f g : α → α} (pairs : List.Forall₂ related first second)
    (onward : ∀ a b, related a b → related (f a) (g b)) (i : Nat) :
    List.Forall₂ related (first.modify i f) (second.modify i g) := by
  induction pairs generalizing i with
  | nil => simp
  | cons pair pairs ih =>
      cases i with
      | zero => exact .cons (onward _ _ pair) pairs
      | succ i => exact .cons pair (ih i)

section

variable {p q : α → Bool} (same : ∀ a b, related a b → p a = q b)

include same

theorem find?_related (pairs : List.Forall₂ related first second) :
    Option.Rel related (first.find? p) (second.find? q) := by
  induction pairs with
  | nil => exact .none
  | @cons a b _ _ pair _ ih =>
      rw [List.find?_cons, List.find?_cons, same a b pair]
      cases q b with
      | true => exact .some pair
      | false => exact ih

theorem eraseP_related (pairs : List.Forall₂ related first second) :
    List.Forall₂ related (first.eraseP p) (second.eraseP q) := by
  induction pairs with
  | nil => exact .nil
  | @cons a b _ _ pair pairs ih =>
      rw [List.eraseP_cons, List.eraseP_cons, same a b pair]
      cases q b with
      | true => exact pairs
      | false => exact .cons pair ih

end

end SecretStore
