import SecretStore.Proofs.Json.Forms

namespace SecretStore.Json

variable {α : Type} {value : Reader α} {form : Form α} {label : String}

theorem MembersForm.stops {s : Bytes} {found : List α} (formed : MembersForm label form s found) (rest : Bytes) :
    Stops (s ++ rest) := by
  cases formed with
  | closed blanks =>
      rw [List.append_assoc]
      exact .blank blanks (.of_solid (by decide) _)
  | member blanks _ _ _ =>
      rw [List.append_assoc]
      exact .blank blanks (.of_solid (by decide) _)

theorem toList_append_singleton {seen next : Option α} {a : α} (same : seen.toList ++ [a] = next.toList) :
    seen = none ∧ next = some a := by
  cases seen <;> cases next <;> simp_all

theorem toList_append_nil {seen next : Option α} (same : seen.toList ++ [] = next.toList) : seen = next := by
  cases seen <;> cases next <;> simp_all

theorem exists_toList {front others : List α} {next : Option α} (same : front ++ others = next.toList) :
    ∃ middle : Option α, front = middle.toList := by
  cases front with
  | nil => exact ⟨none, rfl⟩
  | cons a front =>
      cases next with
      | none => cases same
      | some b =>
          rw [Option.toList_some, List.cons_append, List.cons.injEq, List.append_eq_nil_iff] at same
          exact ⟨some a, by rw [same.2.1]; rfl⟩

theorem skipColon_blank {blank : Bytes} (blanks : Blank blank) (s : Bytes) :
    skipColon (blank ++ colon :: s) = .ok s := by
  rw [skipColon, skipBlank_append blanks, skipBlank_solid (by decide)]
  rfl

theorem pick_eq_ok {seen next : Option α} {key : String} {s rest : Bytes}
    (picked : pick label value seen key s = .ok (next, rest)) : ∃ left, skipColon s = .ok left := by
  cases passed : skipColon s with
  | ok left => exact ⟨left, rfl⟩
  | error fault =>
      rw [pick] at picked
      split_ifs at picked
      all_goals simp [readValueAfterColon, passed] at picked

theorem readMember_eq_ok (known : Recognises value form) {seen next : Option α} {s rest : Bytes}
    (read : readMember ⟨pick label value, pick_length⟩ seen s = .ok (next, rest)) :
    ∃ front found, quote :: s = front ++ rest ∧ MemberForm label form front found ∧
      seen.toList ++ found = next.toList := by
  rw [readMember] at read
  split at read
  · cases read
  · rename_i key after text
    obtain ⟨spelling, rfl, spells⟩ := readText_eq_ok_iff.1 text
    obtain ⟨left, passed⟩ := pick_eq_ok read
    obtain ⟨blank, rfl, blanks⟩ := skipColon_eq_ok passed
    rcases pick_cases blanks read with ⟨rfl, rfl, a, taken, rfl⟩ | ⟨other, skipped, rfl⟩
    · obtain ⟨front, rfl, formed⟩ := known.reads.1 taken
      exact ⟨quoted spelling ++ (blank ++ colon :: front), [a], by simp [quoted], .named spells blanks formed, rfl⟩
    · obtain ⟨before, s, rfl, blanks', written⟩ := skipValue_eq_ok skipped
      exact ⟨quoted spelling ++ (blank ++ colon :: (before ++ s)), [], by simp [quoted],
        .other other spells blanks blanks' written, List.append_nil _⟩

theorem MemberForm.reads (known : Recognises value form) {front : Bytes} {found : List α}
    (formed : MemberForm label form front found) :
    ∃ inside, front = quote :: inside ∧ ∀ {seen next : Option α} {rest : Bytes}, Stops rest →
      seen.toList ++ found = next.toList →
      readMember ⟨pick label value, pick_length⟩ seen (inside ++ rest) = .ok (next, rest) := by
  cases formed with
  | @named spelling blank s a spells blanks formed =>
      refine ⟨spelling ++ [quote] ++ (blank ++ colon :: s), rfl, fun {seen next rest} _ same => ?_⟩
      obtain ⟨rfl, rfl⟩ := toList_append_singleton same
      rw [List.append_assoc, readMember, readText_quoted spells, String.ofList_toList]
      simp only [pick, ↓reduceIte, Option.isSome_none, Bool.false_eq_true, readValueAfterColon, List.append_assoc,
        List.cons_append, skipColon_blank blanks, known.read_append formed rest]
  | @other key spelling blank before s different spells blanks blanks' written =>
      refine ⟨spelling ++ [quote] ++ (blank ++ colon :: (before ++ s)), rfl, fun {seen next rest} stops same => ?_⟩
      obtain rfl := toList_append_nil same
      have passed := skipValue_value blanks' written stops
      rw [List.append_assoc, readMember, readText_quoted spells, String.ofList_toList]
      simp only [pick, different, ↓reduceIte, List.append_assoc, List.cons_append, skipColon_blank blanks, passed]

theorem moreMembers_eq_ok (known : Recognises value form) {seen next : Option α} {s rest : Bytes}
    (read : moreMembers ⟨pick label value, pick_length⟩ seen s = .ok (next, rest)) :
    ∃ front found, s = front ++ rest ∧ MembersForm label form front found ∧ seen.toList ++ found = next.toList := by
  induction length : s.length using Nat.strongRecOn generalizing s seen with
  | ind n ih =>
      subst length
      obtain ⟨blank, blanks, same⟩ := blank_append_skipBlank s
      have outer := skipBlank_length s
      rw [moreMembers_eq] at read
      split at read
      · cases read
      · rename_i a tail found
        rw [found] at same outer
        simp only [List.length_cons] at outer
        split at read
        · rename_i closed
          cases read
          exact ⟨blank ++ [octet '\x7d'], [], by rw [same, closed]; simp, .closed blanks, List.append_nil _⟩
        · split at read
          · rename_i isComma
            obtain ⟨before, blanks', same'⟩ := blank_append_skipBlank tail
            have inner := skipBlank_length tail
            split at read
            · cases read
            · rename_i b after found'
              rw [found'] at same' inner
              simp only [List.length_cons] at inner
              split at read
              · rename_i isQuote
                rw [onward] at read
                split at read
                · cases read
                · rename_i middle left member
                  have shorter := readMember_length member
                  obtain ⟨front, found, same'', formed, picked⟩ := readMember_eq_ok known member
                  obtain ⟨more, others, rfl, formed', picked'⟩ := ih left.length (by omega) read rfl
                  refine ⟨blank ++ comma :: (before ++ (front ++ more)), found ++ others, ?_,
                    .member blanks blanks' formed formed', by rw [← List.append_assoc, picked, picked']⟩
                  rw [same, isComma, same', isQuote, same'']
                  simp
              · split at read <;> cases read
          · cases read

theorem MembersForm.reads (known : Recognises value form) {seen next : Option α} {front : Bytes} {found : List α}
    (formed : MembersForm label form front found) (same : seen.toList ++ found = next.toList) (rest : Bytes) :
    moreMembers ⟨pick label value, pick_length⟩ seen (front ++ rest) = .ok (next, rest) := by
  induction formed generalizing seen with
  | closed blanks =>
      obtain rfl := toList_append_nil same
      rw [moreMembers_eq, List.append_assoc, skipBlank_append blanks, List.cons_append, skipBlank_solid (by decide)]
      exact if_pos rfl
  | @member blank before s more found others blanks blanks' formed formed' ih =>
      rw [← List.append_assoc] at same
      obtain ⟨middle, same'⟩ := exists_toList same
      rw [same'] at same
      obtain ⟨inside, rfl, reads⟩ := formed.reads known
      have taken := reads (formed'.stops rest) same'
      have moved : blank ++ comma :: (before ++ (quote :: inside ++ more)) ++ rest =
          blank ++ comma :: (before ++ quote :: (inside ++ (more ++ rest))) := by simp
      rw [moved, moreMembers_quote blanks blanks', onward, taken]
      exact ih same

theorem members_eq_ok (known : Recognises value form) {next : Option α} {s rest before : Bytes}
    (blanks : Blank before)
    (read : members ⟨pick label value, pick_length⟩ none s = .ok (next, rest)) :
    ∃ front, before ++ octet '\x7b' :: s = front ++ rest ∧ ObjectForm label form front next.toList := by
  obtain ⟨blank, blanks', same⟩ := blank_append_skipBlank s
  rw [members] at read
  split at read
  · cases read
  · rename_i a tail found
    rw [found] at same
    split at read
    · rename_i closed
      cases read
      exact ⟨before ++ octet '\x7b' :: (blank ++ [octet '\x7d']), by rw [same, closed]; simp, .empty blanks blanks'⟩
    · split at read
      · rename_i isQuote
        split at read
        · cases read
        · rename_i middle left member
          obtain ⟨front, found, same', formed, picked⟩ := readMember_eq_ok known member
          obtain ⟨more, others, rfl, formed', picked'⟩ := moreMembers_eq_ok known read
          obtain rfl : found = middle.toList := picked
          refine ⟨before ++ octet '\x7b' :: (blank ++ (front ++ more)), ?_,
            picked' ▸ .filled blanks blanks' formed formed'⟩
          rw [same, isQuote, same']
          simp
      · cases read

theorem ObjectForm.reads (known : Recognises value form) {front : Bytes} (next : Option α)
    (formed : ObjectForm label form front next.toList) :
    ∃ before inside, front = before ++ octet '\x7b' :: inside ∧ Blank before ∧
      ∀ rest, members ⟨pick label value, pick_length⟩ none (inside ++ rest) = .ok (next, rest) := by
  generalize all : next.toList = found at formed
  cases formed with
  | @empty before blank blanks blanks' =>
      refine ⟨before, blank ++ [octet '\x7d'], rfl, blanks, fun rest => ?_⟩
      obtain rfl : none = next := toList_append_nil all.symm
      rw [members, List.append_assoc, skipBlank_append blanks', List.cons_append, skipBlank_solid (by decide)]
      exact if_pos rfl
  | @filled before blank s more found others blanks blanks' formed formed' =>
      refine ⟨before, blank ++ (s ++ more), rfl, blanks, fun rest => ?_⟩
      obtain ⟨middle, rfl⟩ := exists_toList all.symm
      obtain ⟨inside, rfl, reads⟩ := formed.reads known
      have taken : readMember _ none (inside ++ (more ++ rest)) = .ok (middle, more ++ rest) :=
        reads (formed'.stops rest) rfl
      have moved : blank ++ (quote :: inside ++ more) ++ rest = blank ++ quote :: (inside ++ (more ++ rest)) := by simp
      rw [moved, members_quote blanks', onward, taken]
      exact formed'.reads known all.symm rest

theorem ObjectForm.starts {s : Bytes} {found : List α} (formed : ObjectForm label form s found) : Starts s := by
  cases formed with
  | empty blanks _ => exact .of_solid blanks (by decide) _
  | filled blanks _ _ _ => exact .of_solid blanks (by decide) _

theorem closeList_eq_ok_iff (item : Reader α) {s rest : Bytes} :
    closeList s = .ok rest ↔ moreItems item s = .ok ([], rest) := by
  rw [closeList, moreItems_eq]
  cases skipBlank s with
  | nil => simp
  | cons a tail => grind

theorem readBare_eq_ok_iff {field : Field α} {s rest : Bytes} {a : α} :
    field.readBare value s = .ok (a, rest) ↔
      items value s = .ok ([a], rest) ∨ (items value s = .ok ([], rest) ∧ field.absent = some a) := by
  rw [Field.readBare, items]
  cases skipBlank s with
  | nil => simp
  | cons b tail =>
      by_cases closed : b = octet ']'
      · cases absent : field.absent <;> grind
      · simp only [closed, ↓reduceIte]
        cases value.read (b :: tail) with
        | error fault => simp
        | ok taken =>
            have closes : closeList taken.2 = .ok rest ↔ _ := closeList_eq_ok_iff value
            simp only
            cases close : closeList taken.2 <;> cases more : moreItems value taken.2 <;> grind

theorem RecordForm.starts {field : Field α} {s : Bytes} {a : α}
    (formed : RecordForm field.name field.absent form s a) : Starts s := by
  cases formed with
  | object formed => exact formed.starts
  | bareObject formed _ => exact formed.starts
  | list formed => exact formed.starts
  | bareList formed _ => exact formed.starts

theorem readRecord_eq_ok (known : Recognises value form) {field : Field α} {s rest : Bytes} {a : α}
    (read : readRecord field value s = .ok (a, rest)) :
    ∃ front, s = front ++ rest ∧ RecordForm field.name field.absent form front a := by
  obtain ⟨blank, blanks, same⟩ := blank_append_skipBlank s
  rw [readRecord] at read
  split at read
  · cases read
  · rename_i b tail found
    rw [found] at same
    split at read
    · rename_i isObject
      rw [same, isObject]
      rw [Field.read] at read
      split at read
      · cases read
      · rename_i b left taken
        cases read
        obtain ⟨front, same, formed⟩ := members_eq_ok known blanks taken
        exact ⟨front, same, .object formed⟩
      · rename_i left taken
        obtain ⟨front, same, formed⟩ := members_eq_ok known blanks taken
        split at read
        · rename_i b absent
          cases read
          exact ⟨front, same, .bareObject formed absent⟩
        · cases read
    · split at read
      · rename_i isList
        rw [same, isList]
        rcases readBare_eq_ok_iff.1 read with taken | ⟨taken, absent⟩
        · obtain ⟨front, same, formed⟩ := items_eq_ok known blanks taken
          exact ⟨front, same, .list formed⟩
        · obtain ⟨front, same, formed⟩ := items_eq_ok known blanks taken
          exact ⟨front, same, .bareList formed absent⟩
      · cases read

theorem readRecord_object {field : Field α} {blank : Bytes} (blanks : Blank blank) (s : Bytes) :
    readRecord field value (blank ++ octet '\x7b' :: s) = field.read value s := by
  rw [readRecord, skipBlank_append blanks, skipBlank_solid (by decide)]
  exact if_pos rfl

theorem readRecord_list {field : Field α} {blank : Bytes} (blanks : Blank blank) (s : Bytes) :
    readRecord field value (blank ++ octet '[' :: s) = field.readBare value s := by
  rw [readRecord, skipBlank_append blanks, skipBlank_solid (by decide)]
  exact (if_neg (by decide)).trans (if_pos rfl)

theorem RecordForm.reads (known : Recognises value form) {field : Field α} {front : Bytes} {a : α}
    (formed : RecordForm field.name field.absent form front a) (rest : Bytes) :
    readRecord field value (front ++ rest) = .ok (a, rest) := by
  cases formed with
  | object formed =>
      obtain ⟨before, inside, rfl, blanks, reads⟩ := ObjectForm.reads known (some a) formed
      rw [List.append_assoc, List.cons_append, readRecord_object blanks, Field.read, reads rest]
  | bareObject formed absent =>
      obtain ⟨before, inside, rfl, blanks, reads⟩ := ObjectForm.reads known none formed
      rw [List.append_assoc, List.cons_append, readRecord_object blanks, Field.read, reads rest]
      simp only [absent]
  | list formed =>
      obtain ⟨before, inside, rfl, blanks, reads⟩ := formed.reads known
      rw [List.append_assoc, List.cons_append, readRecord_list blanks]
      exact readBare_eq_ok_iff.2 (.inl (reads rest))
  | bareList formed absent =>
      obtain ⟨before, inside, rfl, blanks, reads⟩ := formed.reads known
      rw [List.append_assoc, List.cons_append, readRecord_list blanks]
      exact readBare_eq_ok_iff.2 (.inr ⟨reads rest, absent⟩)

theorem recognises_record (known : Recognises value form) (field : Field α) :
    Recognises (.record field value) (RecordForm field.name field.absent form) where
  blank := by
    intro blank blanks s
    change readRecord field value _ = readRecord field value s
    rw [readRecord, readRecord, skipBlank_append blanks]
  starts := RecordForm.starts
  reads := by
    intro s rest a
    constructor
    · exact readRecord_eq_ok known
    · rintro ⟨front, rfl, formed⟩
      exact formed.reads known rest

end SecretStore.Json
