import SecretStore.Proofs.Json.Entries

namespace SecretStore.Json

open Utf8

variable {α : Type} {form : Form α} {label : String}

theorem Unquoted.append {s t : Bytes} (first : Unquoted s) (second : Unquoted t) : Unquoted (s ++ t) := by
  induction first with
  | nil => exact second
  | raw notQuote notBackslash shown _ ih => exact .raw notQuote notBackslash shown ih
  | short known _ ih => exact .short known ih
  | unit hex _ ih =>
      rw [List.cons_append, List.cons_append, List.append_assoc]
      exact .unit hex ih

theorem HexUnit.unquoted {digits : Bytes} {unit : Nat} (written : HexUnit digits unit) :
    Unquoted (backslash :: octet 'u' :: digits) := by
  have escape := Unquoted.unit written .nil
  rwa [List.append_nil] at escape

theorem SpellsChar.unquoted {c : Char} {s : Bytes} (spelled : SpellsChar c s) : Unquoted s := by
  cases spelled with
  | raw notQuote notBackslash shown =>
      exact unquoted_of_plain fun _ => encodeChar_plain notQuote notBackslash shown
  | short known => exact .short (by rw [known]; rfl) .nil
  | unit written => exact written.unquoted
  | pair first second _ _ _ _ _ => exact first.unquoted.append second.unquoted

theorem Spells.unquoted {chars : List Char} {s : Bytes} (spelled : Spells chars s) : Unquoted s := by
  induction spelled with
  | nil => exact .nil
  | cons first _ ih => exact first.unquoted.append ih

def OfValues (form : Form α) : Prop :=
  ∀ ⦃s : Bytes⦄ ⦃a : α⦄, form s a → ∃ before value, s = before ++ value ∧ Blank before ∧ Written .value value

theorem OfValues.item (values : OfValues form) {s back : Bytes} {a : α} (formed : form s a) (blanks : Blank back) :
    Written .item (s ++ back) := by
  obtain ⟨before, value, rfl, blanks', written⟩ := values formed
  rw [List.append_assoc]
  exact .item blanks' written blanks

theorem ofValues_text : OfValues TextForm := by
  rintro _ _ ⟨blanks, spelled⟩
  exact ⟨_, _, rfl, blanks, .text spelled.unquoted⟩

abbrev Each (form : Form α) : List Item → List α → Prop := List.Forall₂ fun item => Whole form item.text

/-- The values of the entries with this name. The names of all entries have to be readable. -/
inductive Gathers (label : String) (form : Form α) : List Entry → List α → Prop where
  | nil : Gathers label form [] []
  | named {entry : Entry} {entries : List Entry} {a : α} {found : List α} : Spells label.toList entry.name →
      Whole form entry.value.text a → Gathers label form entries found →
      Gathers label form (entry :: entries) (a :: found)
  | other {entry : Entry} {entries : List Entry} {key : String} {found : List α} : key ≠ label →
      Spells key.toList entry.name → Gathers label form entries found →
      Gathers label form (entry :: entries) found

theorem ItemsForm.items (values : OfValues form) {s : Bytes} {found : List α} (formed : ItemsForm form s found) :
    ∃ (blank : Bytes) (items : List Item),
      s = blank ++ ((items.map Item.text).flatMap (comma :: ·) ++ [octet ']']) ∧ Blank blank ∧
        Each form items found := by
  induction formed with
  | closed blanks => exact ⟨_, [], rfl, blanks, .nil⟩
  | @item blank s rest a others blanks formed _ ih =>
      obtain ⟨back, items, rfl, blanks', each⟩ := ih
      refine ⟨blank, ⟨s ++ back, values.item formed blanks'⟩ :: items, ?_, blanks,
        .cons ⟨s, back, rfl, formed, blanks'⟩ each⟩
      simp [Item.text]

theorem ListForm.listOf (values : OfValues form) {s : Bytes} {found : List α} (formed : ListForm form s found) :
    ∃ before value items, s = before ++ value ∧ Blank before ∧ ListOf items value ∧ Each form items found := by
  cases formed with
  | empty blanks blanks' => exact ⟨_, _, [], rfl, blanks, .empty blanks', .nil⟩
  | @filled before s rest a others blanks formed formed' =>
      obtain ⟨back, items, rfl, blanks', each⟩ := formed'.items values
      let item : Item := ⟨s ++ back, values.item formed blanks'⟩
      refine ⟨before, _, item :: items, ?_, blanks, .filled item items, .cons ⟨s, back, rfl, formed, blanks'⟩ each⟩
      simp [item, Item.text]

theorem Each.itemsForm {items : List Item} {found : List α} (each : Each form items found) {blank : Bytes}
    (blanks : Blank blank) :
    ItemsForm form (blank ++ ((items.map Item.text).flatMap (comma :: ·) ++ [octet ']'])) found := by
  induction each generalizing blank with
  | nil => exact .closed blanks
  | @cons item a items found first _ ih =>
      obtain ⟨front, back, same, formed, blanks'⟩ := first
      have whole := ItemsForm.item blanks formed (ih blanks')
      rw [List.map_cons, List.flatMap_cons, same]
      simpa only [List.append_assoc, List.cons_append] using whole

theorem Each.listForm {items : List Item} {s before : Bytes} {found : List α} (each : Each form items found)
    (isList : ListOf items s) (blanks : Blank before) : ListForm form (before ++ s) found := by
  cases isList with
  | empty blanks' =>
      cases each
      exact .empty blanks blanks'
  | filled item items =>
      cases each with
      | cons first others =>
          obtain ⟨front, back, same, formed, blanks'⟩ := first
          rw [same, List.append_assoc]
          exact .filled blanks formed (Each.itemsForm others blanks')

theorem whole_list_iff (values : OfValues form) {items : List Item} {s : Bytes} (isList : Framed (ListOf items) s)
    {found : List α} : Whole (ListForm form) s found ↔ Each form items found := by
  constructor
  · rintro ⟨front, back, rfl, formed, blanks⟩
    obtain ⟨before, value, items', rfl, blanks', isList', each⟩ := formed.listOf values
    have framed : Framed (ListOf items') (before ++ value ++ back) := by
      rw [List.append_assoc]
      exact .framed blanks' isList' blanks
    -- The items that have been read are those of the text, since it is written in one way only.
    rwa [Enclosed.inj separable_item (by decide) (by decide) isList framed]
  · intro each
    obtain ⟨blanks, isList, blanks'⟩ := isList
    exact ⟨_, _, (List.append_assoc ..).symm, each.listForm isList blanks, blanks'⟩

theorem ofValues_list (values : OfValues form) : OfValues (ListForm form) := by
  intro s found formed
  obtain ⟨before, value, items, rfl, blanks, isList, -⟩ := formed.listOf values
  exact ⟨before, value, rfl, blanks, isList.written_list⟩

theorem MemberForm.entry (values : OfValues form) {s front back : Bytes} {found : List α}
    (formed : MemberForm label form s found) (blanks : Blank front) (blanks' : Blank back) :
    ∃ entry : Entry, entry.text = front ++ (s ++ back) ∧ ∀ {entries : List Entry} {others : List α},
      Gathers label form entries others → Gathers label form (entry :: entries) (found ++ others) := by
  cases formed with
  | @named spelling blank s a spells blankAfter formed =>
      refine ⟨⟨front, spelling, blank, ⟨s ++ back, values.item formed blanks'⟩, blanks, spells.unquoted, blankAfter⟩,
        by simp [Entry.text, Item.text], fun gathers => ?_⟩
      exact .named spells ⟨s, back, rfl, formed, blanks'⟩ gathers
  | @other key spelling blank before s different spells blankAfter blankFront written =>
      refine ⟨⟨front, spelling, blank, ⟨before ++ (s ++ back), .item blankFront written blanks'⟩, blanks,
        spells.unquoted, blankAfter⟩, by simp [Entry.text, Item.text], fun gathers => ?_⟩
      exact .other different spells gathers

theorem MembersForm.entries (values : OfValues form) {s : Bytes} {found : List α}
    (formed : MembersForm label form s found) :
    ∃ (blank : Bytes) (entries : List Entry),
      s = blank ++ ((entries.map Entry.text).flatMap (comma :: ·) ++ [octet '\x7d']) ∧ Blank blank ∧
        Gathers label form entries found := by
  induction formed with
  | closed blanks => exact ⟨_, [], rfl, blanks, .nil⟩
  | @member blank front s rest found others blanks blanksFront formed _ ih =>
      obtain ⟨back, entries, rfl, blanks', gathers⟩ := ih
      obtain ⟨entry, text, adds⟩ := formed.entry values blanksFront blanks'
      refine ⟨blank, entry :: entries, ?_, blanks, adds gathers⟩
      simp [text]

theorem ObjectForm.objectOf (values : OfValues form) {s : Bytes} {found : List α}
    (formed : ObjectForm label form s found) :
    ∃ before value entries, s = before ++ value ∧ Blank before ∧ ObjectOf entries value ∧
      Gathers label form entries found := by
  cases formed with
  | empty blanks blanks' => exact ⟨_, _, [], rfl, blanks, .empty blanks', .nil⟩
  | @filled before front s rest found others blanks blanksFront formed formed' =>
      obtain ⟨back, entries, rfl, blanks', gathers⟩ := formed'.entries values
      obtain ⟨entry, text, adds⟩ := formed.entry values blanksFront blanks'
      refine ⟨before, _, entry :: entries, ?_, blanks, .filled entry entries, adds gathers⟩
      simp [text]

theorem Gathers.uncons {entry : Entry} {entries : List Entry} {found : List α}
    (gathers : Gathers label form (entry :: entries) found) :
    ∃ s back front others, entry.text = entry.before ++ (s ++ back) ∧ Blank back ∧ MemberForm label form s front ∧
      found = front ++ others ∧ Gathers label form entries others := by
  obtain ⟨before, name, after, value, _, _, blankAfter⟩ := entry
  cases gathers with
  | named spells whole gathers =>
      obtain ⟨s, back, same, formed, blanks⟩ := whole
      refine ⟨_, back, _, _, ?_, blanks, .named spells blankAfter formed, rfl, gathers⟩
      simp [Entry.text, same]
  | other different spells gathers =>
      obtain ⟨value, written⟩ := value
      cases written with
      | item blankFront written blanks =>
          refine ⟨_, _, _, _, ?_, blanks, .other different spells blankAfter blankFront written, rfl, gathers⟩
          simp [Entry.text, Item.text]

theorem Gathers.membersForm {entries : List Entry} {found : List α} (gathers : Gathers label form entries found)
    {blank : Bytes} (blanks : Blank blank) :
    MembersForm label form (blank ++ ((entries.map Entry.text).flatMap (comma :: ·) ++ [octet '\x7d'])) found := by
  induction entries generalizing blank found with
  | nil =>
      cases gathers
      exact .closed blanks
  | cons entry entries ih =>
      obtain ⟨s, back, front, others, text, blanks', formed, rfl, rest⟩ := gathers.uncons
      have whole := MembersForm.member blanks entry.blankBefore formed (ih rest blanks')
      rw [List.map_cons, List.flatMap_cons, text]
      simpa only [List.append_assoc, List.cons_append] using whole

theorem Gathers.objectForm {entries : List Entry} {s before : Bytes} {found : List α}
    (gathers : Gathers label form entries found) (isObject : ObjectOf entries s) (blanks : Blank before) :
    ObjectForm label form (before ++ s) found := by
  cases isObject with
  | empty blanks' =>
      cases gathers
      exact .empty blanks blanks'
  | filled entry entries =>
      obtain ⟨s, back, front, others, text, blanks', formed, rfl, rest⟩ := gathers.uncons
      have whole := ObjectForm.filled blanks entry.blankBefore formed (rest.membersForm blanks')
      rw [text]
      simpa only [List.append_assoc, List.cons_append] using whole

theorem framed_disjoint {items : List Item} {entries : List Entry} {s : Bytes} (isList : Framed (ListOf items) s)
    (isObject : Framed (ObjectOf entries) s) : False := by
  generalize same : s = t at isObject
  obtain ⟨blanks, isList, -⟩ := isList
  obtain ⟨blanks', isObject, -⟩ := isObject
  obtain ⟨inside, rfl⟩ := isList.head
  obtain ⟨inside', rfl⟩ := isObject.head
  have heads := (blank_append_inj blanks blanks' (skipBlank_solid (by decide) _) (skipBlank_solid (by decide) _) same).2
  exact absurd (List.head_eq_of_cons_eq heads) (by decide)

theorem ObjectForm.gathers (values : OfValues form) {entries : List Entry} {front back : Bytes} {found : List α}
    (formed : ObjectForm label form front found) (blanks : Blank back)
    (isObject : Framed (ObjectOf entries) (front ++ back)) : Gathers label form entries found := by
  obtain ⟨before, value, entries', rfl, blanks', isObject', gathers⟩ := formed.objectOf values
  have framed : Framed (ObjectOf entries') (before ++ value ++ back) := by
    rw [List.append_assoc]
    exact .framed blanks' isObject' blanks
  rwa [Enclosed.inj separable_entry (by decide) (by decide) isObject framed]

theorem ListForm.not_object (values : OfValues form) {entries : List Entry} {front back : Bytes} {found : List α}
    (formed : ListForm form front found) (blanks : Blank back)
    (isObject : Framed (ObjectOf entries) (front ++ back)) : False := by
  obtain ⟨before, value, items, rfl, blanks', isList, -⟩ := formed.listOf values
  rw [List.append_assoc] at isObject
  exact framed_disjoint (.framed blanks' isList blanks) isObject

theorem whole_record_iff (values : OfValues form) {absent : Option α} {entries : List Entry} {s : Bytes}
    (isObject : Framed (ObjectOf entries) s) {a : α} :
    Whole (RecordForm label absent form) s a ↔
      Gathers label form entries [a] ∨ (Gathers label form entries [] ∧ absent = some a) := by
  constructor
  · rintro ⟨front, back, rfl, formed, blanks⟩
    cases formed with
    | object formed => exact .inl (formed.gathers values blanks isObject)
    | bareObject formed isAbsent => exact .inr ⟨formed.gathers values blanks isObject, isAbsent⟩
    | list formed => exact (formed.not_object values blanks isObject).elim
    | bareList formed _ => exact (formed.not_object values blanks isObject).elim
  · obtain ⟨blanks, isObject, blanks'⟩ := isObject
    rintro (gathers | ⟨gathers, isAbsent⟩)
    · exact ⟨_, _, (List.append_assoc ..).symm, .object (gathers.objectForm isObject blanks), blanks'⟩
    · exact ⟨_, _, (List.append_assoc ..).symm, .bareObject (gathers.objectForm isObject blanks) isAbsent, blanks'⟩

theorem ofValues_record (values : OfValues form) (absent : Option α) : OfValues (RecordForm label absent form) := by
  have object {s : Bytes} {found : List α} (formed : ObjectForm label form s found) :
      ∃ before value, s = before ++ value ∧ Blank before ∧ Written .value value := by
    obtain ⟨before, value, entries, rfl, blanks, isObject, -⟩ := formed.objectOf values
    exact ⟨before, value, rfl, blanks, isObject.written_object⟩
  intro s a formed
  cases formed with
  | object formed => exact object formed
  | bareObject formed _ => exact object formed
  | list formed => exact ofValues_list values formed
  | bareList formed _ => exact ofValues_list values formed

end SecretStore.Json
