import SecretStore.Proofs.Json.Members
import SecretStore.Proofs.Json.Passed

namespace SecretStore.Json

variable {α : Type}

abbrev Form (α : Type) := Bytes → α → Prop

inductive TextForm : Form String where
  | text {blank spelling : Bytes} {text : String} : Blank blank → Spells text.toList spelling →
      TextForm (blank ++ quoted spelling) text

inductive ItemsForm (item : Form α) : Form (List α) where
  | closed {blank : Bytes} : Blank blank → ItemsForm item (blank ++ [octet ']']) []
  | item {blank s rest : Bytes} {a : α} {others : List α} : Blank blank → item s a → ItemsForm item rest others →
      ItemsForm item (blank ++ comma :: (s ++ rest)) (a :: others)

inductive ListForm (item : Form α) : Form (List α) where
  | empty {before blank : Bytes} : Blank before → Blank blank →
      ListForm item (before ++ octet '[' :: (blank ++ [octet ']'])) []
  | filled {before s rest : Bytes} {a : α} {others : List α} : Blank before → item s a → ItemsForm item rest others →
      ListForm item (before ++ octet '[' :: (s ++ rest)) (a :: others)

/-- Members of other names may have any well-formed value. -/
inductive MemberForm (label : String) (value : Form α) : Form (List α) where
  | named {spelling blank s : Bytes} {a : α} : Spells label.toList spelling → Blank blank → value s a →
      MemberForm label value (quoted spelling ++ (blank ++ colon :: s)) [a]
  | other {key : String} {spelling blank front s : Bytes} : key ≠ label → Spells key.toList spelling →
      Blank blank → Blank front → Written .value s →
      MemberForm label value (quoted spelling ++ (blank ++ colon :: (front ++ s))) []

inductive MembersForm (label : String) (value : Form α) : Form (List α) where
  | closed {blank : Bytes} : Blank blank → MembersForm label value (blank ++ [octet '\x7d']) []
  | member {blank front s rest : Bytes} {found others : List α} : Blank blank → Blank front →
      MemberForm label value s found → MembersForm label value rest others →
      MembersForm label value (blank ++ comma :: (front ++ (s ++ rest))) (found ++ others)

inductive ObjectForm (label : String) (value : Form α) : Form (List α) where
  | empty {before blank : Bytes} : Blank before → Blank blank →
      ObjectForm label value (before ++ octet '\x7b' :: (blank ++ [octet '\x7d'])) []
  | filled {before front s rest : Bytes} {found others : List α} : Blank before → Blank front →
      MemberForm label value s found → MembersForm label value rest others →
      ObjectForm label value (before ++ octet '\x7b' :: (front ++ (s ++ rest))) (found ++ others)

/-- A record with one member is an object that has it once, or a list of its value alone. `absent` stands for a
missing member. -/
inductive RecordForm (label : String) (absent : Option α) (value : Form α) : Form α where
  | object {s : Bytes} {a : α} : ObjectForm label value s [a] → RecordForm label absent value s a
  | bareObject {s : Bytes} {a : α} : ObjectForm label value s [] → absent = some a →
      RecordForm label absent value s a
  | list {s : Bytes} {a : α} : ListForm value s [a] → RecordForm label absent value s a
  | bareList {s : Bytes} {a : α} : ListForm value s [] → absent = some a → RecordForm label absent value s a

def Whole (form : Form α) (s : Bytes) (a : α) : Prop := ∃ front back, s = front ++ back ∧ form front a ∧ Blank back

structure Recognises (reader : Reader α) (form : Form α) : Prop where
  blank {blank : Bytes} : Blank blank → ∀ s, reader.read (blank ++ s) = reader.read s
  reads {s rest : Bytes} {a : α} : reader.read s = .ok (a, rest) ↔ ∃ front, s = front ++ rest ∧ form front a
  starts {s : Bytes} {a : α} : form s a → Starts s

variable {reader item value : Reader α} {form : Form α}

theorem Recognises.read_skipBlank (known : Recognises reader form) (s : Bytes) :
    reader.read (skipBlank s) = reader.read s := by
  obtain ⟨blank, blanks, same⟩ := blank_append_skipBlank s
  nth_rewrite 2 [same]
  exact (known.blank blanks _).symm

theorem Recognises.read_append (known : Recognises reader form) {front : Bytes} {a : α} (formed : form front a)
    (rest : Bytes) : reader.read (front ++ rest) = .ok (a, rest) :=
  known.reads.2 ⟨front, rfl, formed⟩

theorem Recognises.whole_eq_ok_iff (known : Recognises reader form) {s : Bytes} {a : α} :
    reader.whole s = .ok a ↔ Whole form s a := by
  rw [Reader.whole]
  constructor
  · intro whole
    split at whole
    · cases whole
    · rename_i found rest read
      obtain ⟨front, same, formed⟩ := known.reads.1 read
      obtain ⟨blank, blanks, left⟩ := blank_append_skipBlank rest
      split at whole
      · rename_i none
        cases whole
        rw [none, List.append_nil] at left
        exact ⟨front, rest, same, formed, left ▸ blanks⟩
      · cases whole
  · rintro ⟨front, back, rfl, formed, blanks⟩
    have passed := skipBlank_append blanks []
    rw [List.append_nil] at passed
    rw [known.read_append formed]
    simp only [passed]
    rfl

theorem Starts.of_solid {before : Bytes} (blanks : Blank before) {a : UInt8}
    (solid : isBlank a = false ∧ a ≠ octet ']' ∧ a ≠ octet '\x7d') (rest : Bytes) : Starts (before ++ a :: rest) :=
  ⟨before, a :: rest, rfl, blanks, a, rest, rfl, solid⟩

theorem readString_blank {blank : Bytes} (blanks : Blank blank) (s : Bytes) :
    readString (blank ++ s) = readString s := by
  rw [readString, readString, skipBlank_append blanks]

theorem recognises_text : Recognises .text TextForm where
  blank := readString_blank
  starts := by
    rintro _ _ ⟨blanks, -⟩
    exact .of_solid blanks (by decide) _
  reads := by
    intro s rest text
    change readString s = _ ↔ _
    constructor
    · intro read
      obtain ⟨blank, blanks, same⟩ := blank_append_skipBlank s
      rw [readString] at read
      split at read
      · cases read
      · rename_i a tail found
        split at read
        · rename_i isQuote
          obtain ⟨spelling, rfl, spells⟩ := readText_eq_ok_iff.1 read
          exact ⟨blank ++ quoted spelling, by rw [same, found, isQuote]; simp [quoted], .text blanks spells⟩
        · cases read
    · rintro ⟨_, rfl, blanks, spells⟩
      have read := (reads_text spells).reads rest
      rw [String.ofList_toList] at read
      rw [List.append_assoc, readString_blank blanks]
      exact read

theorem moreItems_eq (item : Reader α) (s : Bytes) :
    moreItems item s = match skipBlank s with
      | [] => .error ⟨.endOfList, 0⟩
      | a :: rest =>
        if a = octet ']' then .ok ([], rest)
        else if a = comma then
          match skipBlank rest with
          | [] => .error ⟨.endOfValue, 0⟩
          | b :: after =>
            if b = octet ']' then .error (ahead .trailingComma (b :: after))
            else match item.read (b :: after) with
              | .error fault => .error fault
              | .ok (value, left) =>
                match moreItems item left with
                | .error fault => .error fault
                | .ok (values, left) => .ok (value :: values, left)
        else .error (ahead .listEndExpected (a :: rest)) := by
  generalize same : moreItems item s = step
  rw [moreItems.eq_def] at same
  split at same
  · simp_all
  · split at same
    · simp_all
    · split at same
      · split at same
        · simp_all
        · split at same
          · simp_all
          · split at same
            · simp_all
            · rename_i value left _
              cases more : moreItems item left <;> rw [more] at same <;> subst same <;> simp_all
      · simp_all

theorem moreItems_eq_ok_iff (known : Recognises item form) {s rest : Bytes} {values : List α} :
    moreItems item s = .ok (values, rest) ↔ ∃ front, s = front ++ rest ∧ ItemsForm form front values := by
  constructor
  · intro read
    -- An item and the comma before it take octets, so the induction is on their number.
    induction length : s.length using Nat.strongRecOn generalizing s values with
    | ind n ih =>
        subst length
        obtain ⟨blank, blanks, same⟩ := blank_append_skipBlank s
        have outer := skipBlank_length s
        rw [moreItems_eq] at read
        split at read
        · cases read
        · rename_i a tail found
          rw [found] at same outer
          simp only [List.length_cons] at outer
          split at read
          · rename_i closed
            cases read
            exact ⟨blank ++ [octet ']'], by rw [same, closed]; simp, .closed blanks⟩
          · split at read
            · rename_i isComma
              have inner := skipBlank_length tail
              split at read
              · cases read
              · rename_i b after found'
                split at read
                · cases read
                · split at read
                  · cases read
                  · rename_i first left taken
                    have shorter := item.shrinks taken
                    rw [← found', known.read_skipBlank] at taken
                    rw [found'] at inner
                    obtain ⟨front, same', formed⟩ := known.reads.1 taken
                    split at read
                    · cases read
                    · rename_i others left' more
                      cases read
                      obtain ⟨rest', same'', formed'⟩ := ih left.length (by omega) more rfl
                      refine ⟨blank ++ comma :: (front ++ rest'), ?_, .item blanks formed formed'⟩
                      rw [same, isComma, same', same'']
                      simp
            · cases read
  · rintro ⟨front, rfl, formed⟩
    induction formed with
    | closed blanks =>
        rw [moreItems_eq, List.append_assoc, skipBlank_append blanks, List.cons_append,
          skipBlank_solid (by decide)]
        exact if_pos rfl
    | @item blank s others a values blanks formed _ ih =>
        obtain ⟨b, after, found, -, open', -⟩ := ((known.starts formed).append (others ++ rest)).skipBlank
        have taken := known.read_append formed (others ++ rest)
        rw [← known.read_skipBlank, found] at taken
        rw [moreItems_eq, List.append_assoc, skipBlank_append blanks, List.cons_append,
          skipBlank_solid (by decide), List.append_assoc]
        simp only [show comma ≠ octet ']' by decide, ↓reduceIte, found, open', taken, ih]

theorem items_eq_ok {s rest before : Bytes} {values : List α} (known : Recognises item form) (blanks : Blank before)
    (read : items item s = .ok (values, rest)) :
    ∃ front, before ++ octet '[' :: s = front ++ rest ∧ ListForm form front values := by
  obtain ⟨blank, blanks', same⟩ := blank_append_skipBlank s
  rw [items] at read
  split at read
  · cases read
  · rename_i a tail found
    rw [found] at same
    split at read
    · rename_i closed
      cases read
      exact ⟨before ++ octet '[' :: (blank ++ [octet ']']), by rw [same, closed]; simp, .empty blanks blanks'⟩
    · split at read
      · cases read
      · rename_i first left taken
        rw [← found, known.read_skipBlank] at taken
        obtain ⟨front, rfl, formed⟩ := known.reads.1 taken
        split at read
        · cases read
        · rename_i others left' more
          cases read
          obtain ⟨rest', rfl, formed'⟩ := (moreItems_eq_ok_iff known).1 more
          exact ⟨before ++ octet '[' :: (front ++ rest'), by simp, .filled blanks formed formed'⟩

theorem ListForm.reads {front : Bytes} {values : List α} (known : Recognises item form)
    (formed : ListForm form front values) :
    ∃ before inside, front = before ++ octet '[' :: inside ∧ Blank before ∧
      ∀ rest, items item (inside ++ rest) = .ok (values, rest) := by
  cases formed with
  | @empty before blank blanks blanks' =>
      refine ⟨before, blank ++ [octet ']'], rfl, blanks, fun rest => ?_⟩
      rw [items, List.append_assoc, skipBlank_append blanks', List.cons_append, skipBlank_solid (by decide)]
      exact if_pos rfl
  | @filled before s others a values blanks formed formed' =>
      refine ⟨before, s ++ others, rfl, blanks, fun rest => ?_⟩
      obtain ⟨b, after, found, -, open', -⟩ := ((known.starts formed).append (others ++ rest)).skipBlank
      have taken := known.read_append formed (others ++ rest)
      rw [← known.read_skipBlank, found] at taken
      have more : moreItems item (others ++ rest) = .ok (values, rest) :=
        (moreItems_eq_ok_iff known).2 ⟨others, rfl, formed'⟩
      rw [items, List.append_assoc]
      simp only [found, open', ↓reduceIte, taken, more]

theorem ListForm.starts {s : Bytes} {values : List α} (formed : ListForm form s values) : Starts s := by
  cases formed with
  | empty blanks _ => exact .of_solid blanks (by decide) _
  | filled blanks _ _ => exact .of_solid blanks (by decide) _

theorem recognises_list (known : Recognises item form) : Recognises (.list item) (ListForm form) where
  blank := by
    intro blank blanks s
    change readList item _ = readList item s
    rw [readList, readList, skipBlank_append blanks]
  starts := ListForm.starts
  reads := by
    intro s rest values
    change readList item s = _ ↔ _
    constructor
    · intro read
      obtain ⟨blank, blanks, same⟩ := blank_append_skipBlank s
      rw [readList] at read
      split at read
      · cases read
      · rename_i a tail found
        split at read
        · rename_i opened
          rw [same, found, opened]
          exact items_eq_ok known blanks read
        · cases read
    · rintro ⟨_, rfl, formed⟩
      obtain ⟨before, inside, rfl, blanks, reads⟩ := formed.reads known
      rw [List.append_assoc, List.cons_append, readList_bracket item blanks]
      exact reads rest

end SecretStore.Json
