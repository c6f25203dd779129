import Mathlib.Data.List.Perm.Basic
import SecretStore.Proofs.Json.Gathering

namespace SecretStore.Json

variable {α : Type} {reader : Reader α} {form : Form α} {label : String} {related : Bytes → Bytes → Prop}

inductive Respaced : Bytes → Bytes → Prop where
  | value {s t value : Bytes} : Written .value value → Framed (· = value) s → Framed (· = value) t → Respaced s t

inductive RicherList (related : Bytes → Bytes → Prop) : Bytes → Bytes → Prop where
  | same {s t : Bytes} : Respaced s t → RicherList related s t
  | list {items items' : List Item} {s t : Bytes} : Framed (ListOf items) s → Framed (ListOf items') t →
      List.Forall₂ (fun item item' => related item.text item'.text) items items' → RicherList related s t

def Entry.Further (label : String) (entry : Entry) : Prop := ∃ key, key ≠ label ∧ Spells key.toList entry.name

/-- Entries of one name. Values under `label` may be related, and all others are the same. -/
inductive Counterpart (label : String) (related : Bytes → Bytes → Prop) (entry entry' : Entry) : Prop where
  | same : entry.name = entry'.name → Respaced entry.value.text entry'.value.text →
      Counterpart label related entry entry'
  | named : entry.name = entry'.name → Spells label.toList entry.name →
      related entry.value.text entry'.value.text → Counterpart label related entry entry'

/-- The same entries in any order and among further ones, or the same value. -/
inductive RicherObject (label : String) (related : Bytes → Bytes → Prop) : Bytes → Bytes → Prop where
  | same {s t : Bytes} : Respaced s t → RicherObject label related s t
  | object {entries entries' again further : List Entry} {s t : Bytes} : Framed (ObjectOf entries) s →
      Framed (ObjectOf entries') t → List.Forall₂ (Counterpart label related) entries again →
      (∀ entry ∈ further, entry.Further label) → entries'.Perm (again ++ further) → RicherObject label related s t

def ReadsAlike (form : Form α) (related : Bytes → Bytes → Prop) : Prop :=
  ∀ ⦃s t : Bytes⦄, related s t → ∀ a, Whole form s a ↔ Whole form t a

theorem Written.respaced {s : Bytes} (written : Written .item s) : Respaced s s := by
  obtain ⟨blanks, value, blanks'⟩ := written_item_iff.1 written
  exact .value value (.framed blanks rfl blanks') (.framed blanks rfl blanks')

theorem Recognises.form_iff (known : Recognises reader form) {s : Bytes} {a : α} :
    form s a ↔ reader.read s = .ok (a, []) := by
  rw [known.reads]
  simp

theorem Recognises.blank_iff (known : Recognises reader form) {blank : Bytes} (blanks : Blank blank) {s : Bytes}
    {a : α} : form (blank ++ s) a ↔ form s a := by
  rw [known.form_iff, known.form_iff, known.blank blanks]

theorem whole_framed_iff (known : Recognises reader form) (values : OfValues form) {value s : Bytes}
    (written : Written .value value) (framed : Framed (· = value) s) {a : α} : Whole form s a ↔ form value a := by
  obtain ⟨blanks, rfl, blanks'⟩ := framed
  rename_i before value after
  -- A comma behind them ends both values, numbers too, so that each can be passed over.
  have ends : Ends [comma] := ⟨comma, [], rfl, List.mem_cons_self⟩
  constructor
  · rintro ⟨front, back, same, formed, blanksBack⟩
    obtain ⟨before', value', rfl, blanksFront, written'⟩ := values formed
    have passed := skipValue_value blanks written (.blank blanks' ends.stops)
    have passed' := skipValue_value blanksFront written' (.blank blanksBack ends.stops)
    have longer := congrArg (· ++ [comma]) same
    simp only [List.append_assoc] at longer
    rw [longer, passed', Except.ok.injEq] at passed
    obtain rfl := List.append_cancel_right passed
    rw [← List.append_assoc, List.append_cancel_right_eq] at same
    rw [← known.blank_iff blanks, same]
    exact formed
  · intro formed
    exact ⟨_, _, (List.append_assoc ..).symm, (known.blank_iff blanks).2 formed, blanks'⟩

theorem readsAlike_respaced (known : Recognises reader form) (values : OfValues form) : ReadsAlike form Respaced := by
  rintro s t ⟨written, framed, framed'⟩ a
  rw [whole_framed_iff known values written framed, whole_framed_iff known values written framed']

theorem each_alike (alike : ReadsAlike form related) {items items' : List Item} {found : List α}
    (all : List.Forall₂ (fun item item' => related item.text item'.text) items items') :
    Each form items found ↔ Each form items' found := by
  induction all generalizing found with
  | nil => rfl
  | cons first _ ih =>
      constructor
      · rintro (_ | ⟨read, others⟩)
        exact .cons ((alike first _).1 read) (ih.1 others)
      · rintro (_ | ⟨read, others⟩)
        exact .cons ((alike first _).2 read) (ih.2 others)

theorem readsAlike_list (known : Recognises reader form) (values : OfValues form) (alike : ReadsAlike form related) :
    ReadsAlike (ListForm form) (RicherList related) := by
  intro s t richer found
  cases richer with
  | same respaced => exact readsAlike_respaced (recognises_list known) (ofValues_list values) respaced found
  | list isList isList' all =>
      rw [whole_list_iff values isList, whole_list_iff values isList', each_alike alike all]

theorem spells_unique {first second : String} {s : Bytes} (spells : Spells first.toList s)
    (spells' : Spells second.toList s) : first = second := by
  have read := readText_spells spells []
  rw [readText_spells spells', String.ofList_toList, String.ofList_toList, Except.ok.injEq, Prod.mk.injEq] at read
  exact read.1.symm

theorem Entry.Further.not_label {entry : Entry} (further : entry.Further label) :
    ¬ Spells label.toList entry.name := by
  obtain ⟨key, different, spells⟩ := further
  exact fun spells' => different (spells_unique spells spells')

theorem gathers_cons_iff {entry : Entry} {entries : List Entry} {found : List α} :
    Gathers label form (entry :: entries) found ↔
      (∃ a others, found = a :: others ∧ Spells label.toList entry.name ∧ Whole form entry.value.text a ∧
        Gathers label form entries others) ∨ (entry.Further label ∧ Gathers label form entries found) := by
  constructor
  · rintro (_ | ⟨spells, whole, gathers⟩ | ⟨different, spells, gathers⟩)
    · exact .inl ⟨_, _, rfl, spells, whole, gathers⟩
    · exact .inr ⟨⟨_, different, spells⟩, gathers⟩
  · rintro (⟨a, others, rfl, spells, whole, gathers⟩ | ⟨⟨key, different, spells⟩, gathers⟩)
    · exact .named spells whole gathers
    · exact .other different spells gathers

theorem gathers_further {entries further : List Entry} (others : ∀ entry ∈ further, entry.Further label)
    {found : List α} : Gathers label form (entries ++ further) found ↔ Gathers label form entries found := by
  induction entries generalizing found with
  | cons entry entries ih => simp only [List.cons_append, gathers_cons_iff, ih]
  | nil =>
      rw [List.nil_append]
      induction further with
      | nil => rfl
      | cons entry further ih =>
          obtain ⟨first, others⟩ := List.forall_mem_cons.1 others
          rw [gathers_cons_iff, ih others]
          simp only [first.not_label, first, false_and, and_false, exists_false, false_or, true_and]

theorem gathers_counterpart (same : ReadsAlike form Respaced) (alike : ReadsAlike form related)
    {entries again : List Entry} (agree : List.Forall₂ (Counterpart label related) entries again) {found : List α} :
    Gathers label form entries found ↔ Gathers label form again found := by
  induction agree generalizing found with
  | nil => rfl
  | @cons entry entry' _ _ first _ ih =>
      have names : entry.name = entry'.name := by cases first <;> assumption
      have values (a : α) : Whole form entry.value.text a ↔ Whole form entry'.value.text a := by
        cases first with
        | same _ respaced => exact same respaced a
        | named _ _ related => exact alike related a
      simp only [gathers_cons_iff, Entry.Further, names, values, ih]

theorem Gathers.perm {entries entries' : List Entry} (order : entries.Perm entries') {found : List α}
    (gathers : Gathers label form entries found) :
    ∃ found', found.Perm found' ∧ Gathers label form entries' found' := by
  induction order generalizing found with
  | nil => exact ⟨found, .rfl, gathers⟩
  | cons entry _ ih =>
      cases gathers with
      | named spells whole gathers =>
          obtain ⟨found', order, gathers⟩ := ih gathers
          exact ⟨_, order.cons _, .named spells whole gathers⟩
      | other different spells gathers =>
          obtain ⟨found', order, gathers⟩ := ih gathers
          exact ⟨found', order, .other different spells gathers⟩
  | swap first second entries =>
      cases gathers with
      | named spells whole gathers =>
          cases gathers with
          | named spells' whole' gathers =>
              exact ⟨_, .swap _ _ _, .named spells' whole' (.named spells whole gathers)⟩
          | other different spells' gathers => exact ⟨_, .rfl, .other different spells' (.named spells whole gathers)⟩
      | other different spells gathers =>
          cases gathers with
          | named spells' whole gathers => exact ⟨_, .rfl, .named spells' whole (.other different spells gathers)⟩
          | other different' spells' gathers =>
              exact ⟨_, .rfl, .other different' spells' (.other different spells gathers)⟩
  | trans _ _ ih ih' =>
      obtain ⟨middle, order, gathers⟩ := ih gathers
      obtain ⟨found', order', gathers⟩ := ih' gathers
      exact ⟨found', order.trans order', gathers⟩

theorem gathers_perm {entries entries' : List Entry} (order : entries.Perm entries') (found : Option α) :
    Gathers label form entries found.toList ↔ Gathers label form entries' found.toList := by
  have along {entries entries' : List Entry} (order : entries.Perm entries')
      (gathers : Gathers label form entries found.toList) : Gathers label form entries' found.toList := by
    obtain ⟨found', reordered, gathers'⟩ := gathers.perm order
    -- Two values could come in the other order; none or one cannot.
    cases found with
    | none => rwa [← reordered.nil_eq] at gathers'
    | some a => rwa [← List.singleton_perm.1 reordered] at gathers'
  exact ⟨along order, along order.symm⟩

theorem readsAlike_record (known : Recognises reader form) (values : OfValues form) (alike : ReadsAlike form related)
    (field : Field α) :
    ReadsAlike (RecordForm field.name field.absent form) (RicherObject field.name related) := by
  intro s t richer a
  cases richer with
  | same respaced => exact readsAlike_respaced (recognises_record known field) (ofValues_record values _) respaced a
  | object isObject isObject' agree others order =>
      have gathers (found : Option α) := (gathers_counterpart (readsAlike_respaced known values) alike agree).trans
        ((gathers_further others).symm.trans (gathers_perm order.symm found))
      rw [whole_record_iff values isObject, whole_record_iff values isObject', ← Option.toList_some,
        ← Option.toList_none, gathers (some a), gathers none]

end SecretStore.Json
