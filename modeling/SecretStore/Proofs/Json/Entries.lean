import SecretStore.Proofs.Json.Records

namespace SecretStore.Json

variable {β : Type}

def Ends (rest : Bytes) : Prop := ∃ a tail, rest = a :: tail ∧ a ∈ [comma, octet ']', octet '\x7d']

abbrev Item := {s : Bytes // Written .item s}

def Item.text (item : Item) : Bytes := item.1

structure Entry where
  before : Bytes
  name : Bytes
  after : Bytes
  value : Item
  blankBefore : Blank before
  unquoted : Unquoted name
  blankAfter : Blank after

def Entry.text (entry : Entry) : Bytes :=
  entry.before ++ (quoted entry.name ++ (entry.after ++ colon :: entry.value.text))

inductive Enclosed (opening closing : UInt8) (text : β → Bytes) : List β → Bytes → Prop where
  | empty {inner : Bytes} : Blank inner → Enclosed opening closing text [] (opening :: (inner ++ [closing]))
  | filled (part : β) (parts : List β) :
      Enclosed opening closing text (part :: parts)
        (opening :: (text part ++ ((parts.map text).flatMap (comma :: ·) ++ [closing])))

inductive Framed (value : Bytes → Prop) : Bytes → Prop where
  | framed {before s after : Bytes} : Blank before → value s → Blank after → Framed value (before ++ (s ++ after))

abbrev ListOf : List Item → Bytes → Prop := Enclosed (octet '[') (octet ']') Item.text

abbrev ObjectOf : List Entry → Bytes → Prop := Enclosed (octet '\x7b') (octet '\x7d') Entry.text

theorem Ends.stops {rest : Bytes} (ends : Ends rest) : Stops rest := by
  obtain ⟨a, tail, rfl, member⟩ := ends
  simp only [List.mem_cons, List.not_mem_nil, or_false] at member
  rcases member with rfl | rfl | rfl <;> exact .of_solid (by decide) _

theorem Ends.solid {rest : Bytes} (ends : Ends rest) : skipBlank rest = rest := by
  obtain ⟨a, tail, rfl, member⟩ := ends
  simp only [List.mem_cons, List.not_mem_nil, or_false] at member
  rcases member with rfl | rfl | rfl <;> exact skipBlank_solid (by decide) _

theorem blank_append_inj {blank blank' s t : Bytes} (blanks : Blank blank) (blanks' : Blank blank')
    (solid : skipBlank s = s) (solid' : skipBlank t = t) (same : blank ++ s = blank' ++ t) :
    blank = blank' ∧ s = t := by
  have rests : s = t := by
    rw [← solid, ← solid', ← skipBlank_append blanks s, same, skipBlank_append blanks']
  subst rests
  exact ⟨List.append_cancel_right same, rfl⟩

structure Separable (text : β → Bytes) : Prop where
  starts (part : β) : Starts (text part)
  inj {first second : β} {rest rest' : Bytes} : Ends rest → Ends rest' →
    text first ++ rest = text second ++ rest' → first = second ∧ rest = rest'

theorem Written.item_inj {s t rest rest' : Bytes} (first : Written .item s) (second : Written .item t)
    (ends : Ends rest) (ends' : Ends rest') (same : s ++ rest = t ++ rest') : s = t ∧ rest = rest' := by
  cases first with
  | @item before s after blanks written blanks' =>
      cases second with
      | @item before' t after' blanksT writtenT blanksT' =>
          -- Passing over the value leaves the same behind it, however the text has been written.
          have passed := skipValue_value blanks written (.blank blanks' ends.stops)
          have passed' := skipValue_value blanksT writtenT (.blank blanksT' ends'.stops)
          simp only [List.append_assoc] at same
          rw [same, passed', Except.ok.injEq] at passed
          obtain ⟨-, rfl⟩ := blank_append_inj blanksT' blanks' ends'.solid ends.solid passed
          refine ⟨(List.append_left_inj rest').1 ?_, rfl⟩
          simpa only [List.append_assoc] using same

theorem separable_item : Separable Item.text where
  starts item := item.2.skips.1
  inj ends ends' same := by
    obtain ⟨texts, rests⟩ := Written.item_inj (Subtype.property _) (Subtype.property _) ends ends' same
    exact ⟨Subtype.ext texts, rests⟩

theorem Entry.written (entry : Entry) : Written .member entry.text :=
  .member entry.blankBefore entry.unquoted entry.blankAfter entry.value.2

theorem skipBlank_quoted (name rest : Bytes) : skipBlank (quoted name ++ rest) = quoted name ++ rest :=
  skipBlank_solid (by decide) _

theorem quoted_inj {name name' rest rest' : Bytes} (contents : Unquoted name) (contents' : Unquoted name')
    (same : quoted name ++ rest = quoted name' ++ rest') : name = name' ∧ rest = rest' := by
  simp only [quoted, List.cons_append, List.cons.injEq, true_and, List.append_assoc, List.nil_append] at same
  have passed := skipText_unquoted contents rest
  rw [same, skipText_unquoted contents' rest', Except.ok.injEq] at passed
  subst passed
  exact ⟨List.append_cancel_right same, rfl⟩

theorem separable_entry : Separable Entry.text where
  starts entry := entry.written.skips.1
  inj := by
    intro first second rest rest' ends ends' same
    obtain ⟨before, name, after, value, blanks, contents, blanks'⟩ := first
    obtain ⟨before', name', after', value', blanksT, contentsT, blanksT'⟩ := second
    simp only [Entry.text, List.append_assoc, List.cons_append] at same
    have solid (s : Bytes) : skipBlank (colon :: s) = colon :: s := skipBlank_solid (by decide) s
    obtain ⟨rfl, fromName⟩ := blank_append_inj blanks blanksT (skipBlank_quoted ..) (skipBlank_quoted ..) same
    obtain ⟨rfl, fromBlank⟩ := quoted_inj contents contentsT fromName
    obtain ⟨rfl, fromColon⟩ := blank_append_inj blanks' blanksT' (solid _) (solid _) fromBlank
    obtain ⟨rfl, rfl⟩ := separable_item.inj ends ends' (List.tail_eq_of_cons_eq fromColon)
    exact ⟨rfl, rfl⟩

section

variable {text : β → Bytes} {opening closing : UInt8}

theorem ends_of_parts {parts : List β} (closes : closing ∈ [octet ']', octet '\x7d']) (rest : Bytes) :
    Ends ((parts.map text).flatMap (comma :: ·) ++ closing :: rest) := by
  cases parts with
  | nil => exact ⟨closing, rest, rfl, List.mem_cons_of_mem _ closes⟩
  | cons part parts => exact ⟨comma, _, rfl, List.mem_cons_self⟩

theorem Separable.parts_inj (separable : Separable text) (closes : closing ∈ [octet ']', octet '\x7d'])
    {parts parts' : List β} {rest rest' : Bytes}
    (same : (parts.map text).flatMap (comma :: ·) ++ closing :: rest =
      (parts'.map text).flatMap (comma :: ·) ++ closing :: rest') : parts = parts' := by
  -- A comma tells of a further part and the closing bracket of none.
  have notComma : comma ≠ closing := by
    rintro rfl
    exact absurd closes (by decide)
  induction parts generalizing parts' with
  | nil =>
      cases parts' with
      | nil => rfl
      | cons part' parts' => exact absurd (List.head_eq_of_cons_eq same).symm notComma
  | cons part parts ih =>
      cases parts' with
      | nil => exact absurd (List.head_eq_of_cons_eq same) notComma
      | cons part' parts' =>
          rw [List.map_cons, List.flatMap_cons, List.map_cons, List.flatMap_cons, List.cons_append, List.cons_append,
            List.cons_append, List.cons_append, List.append_assoc, List.append_assoc, List.cons.injEq] at same
          obtain ⟨rfl, others⟩ := separable.inj (ends_of_parts closes _) (ends_of_parts closes _) same.2
          rw [ih others]

theorem Separable.not_empty (separable : Separable text) (closes : closing ∈ [octet ']', octet '\x7d'])
    {blank rest rest' : Bytes} {part : β} (blanks : Blank blank)
    (same : blank ++ closing :: rest = text part ++ rest') :
    False := by
  obtain ⟨a, tail, found, -, notList, notObject⟩ := ((separable.starts part).append rest').skipBlank
  simp only [List.mem_cons, List.not_mem_nil, or_false] at closes
  have solid : isBlank closing = false := by rcases closes with rfl | rfl <;> decide
  rw [← same, skipBlank_append blanks, skipBlank_solid solid] at found
  obtain rfl := List.head_eq_of_cons_eq found
  exact closes.elim notList notObject

theorem Enclosed.head {parts : List β} {s : Bytes} (enclosed : Enclosed opening closing text parts s) :
    ∃ inside, s = opening :: inside := by
  cases enclosed <;> exact ⟨_, rfl⟩

theorem Enclosed.append_inj (separable : Separable text) (closes : closing ∈ [octet ']', octet '\x7d'])
    {parts parts' : List β} {s s' rest rest' : Bytes} (enclosed : Enclosed opening closing text parts s)
    (enclosed' : Enclosed opening closing text parts' s') (same : s ++ rest = s' ++ rest') : parts = parts' := by
  cases enclosed with
  | empty blanks =>
      cases enclosed' with
      | empty _ => rfl
      | filled part' parts' =>
          simp only [List.cons_append, List.append_assoc, List.nil_append, List.cons.injEq, true_and] at same
          exact (separable.not_empty closes blanks same).elim
  | filled part parts =>
      cases enclosed' with
      | empty blanks =>
          simp only [List.cons_append, List.append_assoc, List.nil_append, List.cons.injEq, true_and] at same
          exact (separable.not_empty closes blanks same.symm).elim
      | filled part' parts' =>
          simp only [List.cons_append, List.append_assoc, List.nil_append, List.cons.injEq, true_and] at same
          obtain ⟨rfl, others⟩ := separable.inj (ends_of_parts closes _) (ends_of_parts closes _) same
          rw [separable.parts_inj closes others]

theorem Enclosed.inj (separable : Separable text) (opens : isBlank opening = false)
    (closes : closing ∈ [octet ']', octet '\x7d']) {parts parts' : List β} {s : Bytes}
    (framed : Framed (Enclosed opening closing text parts) s)
    (framed' : Framed (Enclosed opening closing text parts') s) : parts = parts' := by
  generalize same : s = s' at framed'
  obtain ⟨blanks, enclosed, -⟩ := framed
  obtain ⟨blanks', enclosed', -⟩ := framed'
  obtain ⟨inside, rfl⟩ := enclosed.head
  obtain ⟨inside', rfl⟩ := enclosed'.head
  exact enclosed.append_inj separable closes enclosed'
    (blank_append_inj blanks blanks' (skipBlank_solid opens _) (skipBlank_solid opens _) same).2

end

theorem Framed.append {value : Bytes → Prop} {s back : Bytes} (framed : Framed value s) (blanks : Blank back) :
    Framed value (s ++ back) := by
  obtain ⟨blankBefore, holds, blankAfter⟩ := framed
  rw [List.append_assoc, List.append_assoc]
  exact .framed blankBefore holds (blankAfter.append blanks)

theorem written_item_iff {s : Bytes} : Written .item s ↔ Framed (Written .value) s := by
  constructor
  · rintro ⟨⟩
    exact .framed ‹_› ‹_› ‹_›
  · rintro ⟨blanks, written, blanks'⟩
    exact .item blanks written blanks'

theorem written_of_passed {s : Bytes} (passed : skipValue s = .ok []) : Written .item s := by
  obtain ⟨before, value, rfl, blanks, written⟩ := skipValue_eq_ok passed
  exact .item blanks written blank_nil

theorem Item.written_items (item : Item) (items : List Item) :
    Written .items (item.text ++ (items.map Item.text).flatMap (comma :: ·)) := by
  induction items generalizing item with
  | nil =>
      rw [List.map_nil, List.flatMap_nil, List.append_nil]
      exact .lastItem item.2
  | cons second items ih => exact .items item.2 (ih second)

theorem Entry.written_members (entry : Entry) (entries : List Entry) :
    Written .members (entry.text ++ (entries.map Entry.text).flatMap (comma :: ·)) := by
  induction entries generalizing entry with
  | nil =>
      rw [List.map_nil, List.flatMap_nil, List.append_nil]
      exact .lastMember entry.written
  | cons second entries ih => exact .members entry.written (ih second)

theorem Enclosed.written_list {items : List Item} {s : Bytes} (enclosed : ListOf items s) : Written .value s := by
  cases enclosed with
  | empty blanks => exact .noItems blanks
  | filled item items =>
      rw [← List.append_assoc]
      exact .list (item.written_items items)

theorem Enclosed.written_object {entries : List Entry} {s : Bytes} (enclosed : ObjectOf entries s) :
    Written .value s := by
  cases enclosed with
  | empty blanks => exact .noMembers blanks
  | filled entry entries =>
      rw [← List.append_assoc]
      exact .object (entry.written_members entries)

theorem Written.entry {s : Bytes} (written : Written .member s) : ∃ entry : Entry, s = entry.text := by
  cases written with
  | @member before name after s blanks contents blanks' written =>
      exact ⟨⟨before, name, after, ⟨s, written⟩, blanks, contents, blanks'⟩, rfl⟩

theorem Written.members_split {part : Part} {s : Bytes} (written : Written part s) (isMembers : part = .members) :
    ∃ (entry : Entry) (entries : List Entry),
      s = entry.text ++ (entries.map Entry.text).flatMap (comma :: ·) := by
  induction written with
  | lastMember written _ =>
      obtain ⟨entry, rfl⟩ := written.entry
      exact ⟨entry, [], (List.append_nil _).symm⟩
  | members written _ _ ih =>
      obtain ⟨first, rfl⟩ := written.entry
      obtain ⟨entry, entries, rfl⟩ := ih rfl
      exact ⟨first, entry :: entries, rfl⟩
  | _ => cases isMembers

theorem IsNumber.first {s : Bytes} (number : IsNumber s) :
    ∃ a tail, s = a :: tail ∧ (a = octet '-' ∨ (digit? a).isSome = true) := by
  obtain ⟨signs, isWhole, -, -⟩ := number
  simp only [List.mem_cons, List.not_mem_nil, or_false] at signs
  rcases signs with rfl | rfl
  · obtain ⟨a, tail, same, digit⟩ := isWhole.first _
    exact ⟨a, tail, same, .inr digit⟩
  · exact ⟨octet '-', _, rfl, .inl rfl⟩

theorem Written.objectOf {tail : Bytes} (written : Written .value (octet '\x7b' :: tail)) :
    ∃ entries, ObjectOf entries (octet '\x7b' :: tail) := by
  generalize same : octet '\x7b' :: tail = s at written
  cases written with
  | noMembers blanks => exact ⟨[], .empty blanks⟩
  | object members =>
      obtain ⟨entry, entries, rfl⟩ := members.members_split rfl
      rw [List.append_assoc]
      exact ⟨entry :: entries, .filled entry entries⟩
  | word member =>
      simp only [words, List.map_cons, List.map_nil, List.mem_cons, List.not_mem_nil, or_false] at member
      rcases member with rfl | rfl | rfl <;> exact absurd (List.head_eq_of_cons_eq same) (by decide)
  | number number =>
      obtain ⟨a, others, rfl, starts⟩ := number.first
      obtain rfl := List.head_eq_of_cons_eq same
      exact absurd starts (by decide)
  | text _ => exact absurd (List.head_eq_of_cons_eq same) (by decide)
  | noItems _ => exact absurd (List.head_eq_of_cons_eq same) (by decide)
  | list _ => exact absurd (List.head_eq_of_cons_eq same) (by decide)

theorem Written.framed_objectOf {s : Bytes} (written : Written .item s)
    (opens : (skipBlank s).head? = some (octet '\x7b')) : ∃ entries, Framed (ObjectOf entries) s := by
  obtain ⟨blanks, value, blanks'⟩ := written_item_iff.1 written
  obtain ⟨a, tail, rfl, solid, -⟩ := value.skips.1
  rw [skipBlank_append blanks, List.cons_append, skipBlank_solid solid, List.head?_cons, Option.some.injEq] at opens
  subst opens
  obtain ⟨entries, isObject⟩ := value.objectOf
  exact ⟨entries, .framed blanks isObject blanks'⟩

end SecretStore.Json
