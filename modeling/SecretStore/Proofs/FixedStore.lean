import Mathlib.Data.List.Induction
import SecretStore.FixedStore
import SecretStore.Proofs.Text.Order

namespace SecretStore.Entries

theorem before_trans {a b c : String} (first : before a b = true) (second : before b c = true) :
    before a c = true :=
  decide_eq_true (List.lt_trans (of_decide_eq_true first) (of_decide_eq_true second))

theorem before_irrefl (a : String) : before a a = false :=
  decide_eq_false (List.lt_irrefl a.toList)

theorem before_asymm {a b : String} (first : before a b = true) : before b a = false :=
  Bool.eq_false_iff.2 fun second => by
    have same := before_trans first second
    rw [before_irrefl] at same
    cases same

theorem before_of_not {a b : String} (other : a ≠ b) (later : before b a = false) : before a b = true := by
  refine decide_eq_true (Decidable.byContradiction fun earlier => other ?_)
  exact String.toList_inj.1 (List.le_antisymm (List.not_lt.1 (of_decide_eq_false later)) (List.not_lt.1 earlier))

def Sorted (entries : Entries) : Prop :=
  entries.Pairwise fun entry other => before entry.1 other.1 = true

theorem mem_insert {key text : String} {entries : Entries} {entry : String × String}
    (mem : entry ∈ insert key text entries) : entry = (key, text) ∨ entry ∈ entries := by
  induction entries with
  | nil => exact .inl (List.mem_singleton.1 mem)
  | cons first entries ih =>
      rw [insert] at mem
      split at mem
      · rcases List.mem_cons.1 mem with same | mem
        · exact .inl same
        · exact .inr (List.mem_cons_of_mem _ mem)
      · split at mem
        · exact List.mem_cons.1 mem
        · rcases List.mem_cons.1 mem with same | mem
          · exact .inr (same ▸ List.mem_cons_self)
          · exact (ih mem).imp_right (List.mem_cons_of_mem _)

theorem Sorted.insert {entries : Entries} (sorted : Sorted entries) (key text : String) :
    Sorted (insert key text entries) := by
  induction entries with
  | nil => exact List.pairwise_singleton _ _
  | cons first entries ih =>
      obtain ⟨least, rest⟩ := List.pairwise_cons.1 sorted
      rw [Entries.insert]
      split
      · rename_i same
        exact List.pairwise_cons.2 ⟨fun entry mem => same ▸ least entry mem, rest⟩
      · rename_i other
        split
        · rename_i earlier
          refine List.pairwise_cons.2 ⟨fun entry mem => ?_, sorted⟩
          rcases List.mem_cons.1 mem with rfl | mem
          · exact earlier
          · exact before_trans earlier (least entry mem)
        · rename_i later
          refine List.pairwise_cons.2 ⟨fun entry mem => ?_, ih rest⟩
          rcases mem_insert mem with rfl | mem
          · exact before_of_not other (Bool.eq_false_iff.2 later)
          · exact least entry mem

theorem ofList_sorted (pairs : List (String × String)) : Sorted (ofList pairs) := by
  suffices taken : ∀ entries : Entries, Sorted entries →
      Sorted (pairs.foldl (fun entries pair => insert pair.1 pair.2 entries) entries) from
    taken [] List.Pairwise.nil
  induction pairs with
  | nil => exact fun _ sorted => sorted
  | cons pair pairs ih => exact fun entries sorted => ih _ (sorted.insert pair.1 pair.2)

theorem insert_last {key : String} {entries : Entries}
    (last : ∀ entry ∈ entries, before entry.1 key = true) (text : String) :
    insert key text entries = entries ++ [(key, text)] := by
  induction entries with
  | nil => rfl
  | cons first entries ih =>
      have earlier := last first List.mem_cons_self
      have other : first.1 ≠ key := fun same => by
        rw [same, before_irrefl] at earlier
        cases earlier
      rw [insert, if_neg other, before_asymm earlier, if_neg Bool.false_ne_true,
        ih fun entry mem => last entry (List.mem_cons_of_mem _ mem), List.cons_append]

theorem ofList_of_sorted {entries : Entries} (sorted : Sorted entries) : ofList entries = entries := by
  suffices taken : ∀ front : Entries, Sorted (front ++ entries) →
      entries.foldl (fun entries pair => insert pair.1 pair.2 entries) front = front ++ entries from
    taken [] sorted
  clear sorted
  induction entries with
  | nil => exact fun front _ => (List.append_nil front).symm
  | cons entry entries ih =>
      intro front sorted
      have last : ∀ other ∈ front, before other.1 entry.1 = true := fun other mem =>
        (List.pairwise_append.1 sorted).2.2 other mem entry List.mem_cons_self
      rw [List.foldl_cons, insert_last last, ih (front ++ [entry]) (by simpa using sorted)]
      simp

theorem ofList_ofList (pairs : List (String × String)) : ofList (ofList pairs) = ofList pairs :=
  ofList_of_sorted (ofList_sorted pairs)

theorem get?_nil (key : String) : get? [] key = none := rfl

theorem get?_cons (entry : String × String) (entries : Entries) (key : String) :
    get? (entry :: entries) key = if entry.1 = key then some entry.2 else entries.get? key := by
  simp only [get?, List.find?_cons]
  by_cases same : entry.1 = key <;> simp [same]

theorem get?_insert (key text other : String) (entries : Entries) :
    (insert key text entries).get? other = if key = other then some text else entries.get? other := by
  induction entries with
  | nil => rw [insert, get?_cons]
  | cons entry entries ih =>
      rw [insert]
      split
      · rename_i same
        rw [get?_cons, get?_cons, same]
        by_cases found : key = other <;> simp [found]
      · rename_i different
        split
        · rw [get?_cons]
        · rw [get?_cons, get?_cons, ih]
          by_cases found : entry.1 = other
          · simp [found, show key ≠ other from fun same => different (found.trans same.symm)]
          · simp [found]

theorem get?_ofList (pairs : List (String × String)) (key : String) :
    (ofList pairs).get? key = pairs.reverse.lookup key := by
  induction pairs using List.reverseRecOn with
  | nil => rfl
  | append_singleton pairs pair ih =>
      rw [ofList, List.foldl_append, List.foldl_cons, List.foldl_nil, ← ofList, get?_insert, ih,
        List.reverse_append, List.reverse_singleton, List.singleton_append, List.lookup_cons]
      grind

theorem mem_keys_iff {entries : Entries} {key : String} :
    key ∈ entries.map (·.1) ↔ entries.get? key ≠ none := by
  induction entries with
  | nil => simp [get?_nil]
  | cons entry entries ih => grind [get?_cons]

theorem has_iff {entries : Entries} {key : String} : entries.has key = true ↔ entries.get? key ≠ none := by
  rw [has, Option.isSome_iff_ne_none]

theorem Sorted.keys {entries : Entries} (sorted : Sorted entries) :
    (entries.map (·.1)).Pairwise fun key other => Utf8.bytes key < Utf8.bytes other := by
  rw [List.pairwise_map]
  exact sorted.imp fun earlier => Utf8.encode_lt_encode (of_decide_eq_true earlier)

end SecretStore.Entries
