import SecretStore.Proofs.Json.Grammar

namespace SecretStore.Json

variable {α σ : Type}

def onward (member : Member σ) (seen : σ) (s : Bytes) : Step σ :=
  match readMember member seen s with
  | .error fault => .error fault
  | .ok (next, rest) => moreMembers member next rest

theorem moreMembers_eq (member : Member σ) (seen : σ) (s : Bytes) :
    moreMembers member seen s = match skipBlank s with
      | [] => .error ⟨.endOfObject, 0⟩
      | a :: rest =>
        if a = octet '\x7d' then .ok (seen, rest)
        else if a = comma then
          match skipBlank rest with
          | [] => .error ⟨.endOfValue, 0⟩
          | b :: after =>
            if b = quote then onward member seen after
            else if b = octet '\x7d' then .error (ahead .trailingComma (b :: after))
            else .error (ahead .keyExpected (b :: after))
        else .error (ahead .objectEndExpected (a :: rest)) := by
  generalize same : moreMembers member seen s = step
  rw [moreMembers.eq_def] at same
  split at same
  · simp_all
  · split at same
    · simp_all
    · split at same
      · split at same
        · simp_all
        · split at same
          · split at same <;> subst same <;> simp_all [onward]
          · simp_all
      · simp_all

theorem members_quote {before : Bytes} (blanks : Blank before) (member : Member σ) (seen : σ) (s : Bytes) :
    members member seen (before ++ quote :: s) = onward member seen s := by
  rw [members, skipBlank_append blanks, skipBlank_solid (by decide)]
  simp only [show quote ≠ octet '\x7d' by decide, ↓reduceIte]
  cases read : readMember member seen s <;> simp only [onward, read]

theorem moreMembers_quote {after before : Bytes} (blanks : Blank after) (blanks' : Blank before)
    (member : Member σ) (seen : σ) (s : Bytes) :
    moreMembers member seen (after ++ comma :: (before ++ quote :: s)) = onward member seen s := by
  rw [moreMembers_eq, skipBlank_append blanks, skipBlank_solid (by decide)]
  simp only [show comma ≠ octet '\x7d' by decide, ↓reduceIte]
  rw [skipBlank_append blanks', skipBlank_solid (by decide)]
  exact if_pos rfl

theorem pick_keeps {name key : String} {value : Reader α} {a : α} {next : Option α} {s rest : Bytes}
    (picked : pick name value (some a) key s = .ok (next, rest)) : next = some a := by
  rw [pick] at picked
  split at picked
  · simp at picked
  · split at picked
    · cases picked
    · split at picked
      · cases picked
      · cases picked
        rfl

theorem readMember_keeps {name : String} {value : Reader α} {a : α} {next : Option α} {s rest : Bytes}
    (read : readMember ⟨pick name value, pick_length⟩ (some a) s = .ok (next, rest)) : next = some a := by
  rw [readMember] at read
  split at read
  · cases read
  · exact pick_keeps read

theorem moreMembers_keeps {name : String} {value : Reader α} {a : α} {next : Option α} {s rest : Bytes}
    (read : moreMembers ⟨pick name value, pick_length⟩ (some a) s = .ok (next, rest)) : next = some a := by
  induction length : s.length using Nat.strongRecOn generalizing s with
  | ind n ih =>
      subst length
      rw [moreMembers_eq] at read
      split at read
      · cases read
      · rename_i a tail found
        split at read
        · cases read
          rfl
        · split at read
          · split at read
            · cases read
            · rename_i b after inner
              split at read
              · rw [onward] at read
                split at read
                · cases read
                · rename_i later left member
                  obtain rfl := readMember_keeps member
                  refine ih left.length ?_ read rfl
                  have outer := skipBlank_length s
                  have inside := skipBlank_length tail
                  have shorter := readMember_length member
                  rw [found] at outer
                  rw [inner] at inside
                  simp only [List.length_cons] at outer inside
                  omega
              · split at read <;> cases read
          · cases read

theorem lowHalf_unquoted {s rest after : Bytes} {high : Nat} {c : Char} (contents : Unquoted s)
    (read : lowHalf high (s ++ quote :: rest) = .ok (c, after)) :
    ∃ left, Unquoted left ∧ left.length < s.length ∧ after = left ++ quote :: rest := by
  cases contents with
  | nil => simp [lowHalf, show quote ≠ backslash by decide] at read
  | raw notQuote notBackslash plain others => simp [lowHalf, notBackslash] at read
  | @short a left known others =>
      have notUnit : a ≠ octet 'u' := by
        rintro rfl
        exact absurd known (by decide)
      rw [List.cons_append, List.cons_append, lowHalf, if_neg (not_not_intro rfl)] at read
      rw [if_pos notUnit] at read
      cases read
  | @unit digits left unit hex others =>
      rw [List.cons_append, List.cons_append, List.append_assoc, lowHalf, if_neg (not_not_intro rfl)] at read
      rw [if_neg (not_not_intro rfl), hexUnit_append hex] at read
      dsimp only at read
      split at read
      · simp only [Except.ok.injEq, Prod.mk.injEq] at read
        exact ⟨left, others, by simp only [List.length_cons, List.length_append]; omega, read.2.symm⟩
      · cases read

theorem escape_unquoted {s rest after : Bytes} {c : Char} (contents : Unquoted (backslash :: s))
    (read : escape (s ++ quote :: rest) = .ok (c, after)) :
    ∃ left, Unquoted left ∧ left.length < s.length ∧ after = left ++ quote :: rest := by
  cases contents with
  | raw notQuote notBackslash plain others => exact absurd rfl notBackslash
  | @short a left known others =>
      obtain ⟨meant, found⟩ := Option.isSome_iff_exists.1 known
      rw [List.cons_append, escape_short found] at read
      cases read
      exact ⟨left, others, by simp, rfl⟩
  | @unit digits left unit hex others =>
      simp only [List.cons_append, List.append_assoc, escape, ↓reduceIte, unicodeEscape,
        hexUnit_append hex] at read
      split at read
      · cases read
      · split at read
        · obtain ⟨left', others', shorter, same⟩ := lowHalf_unquoted others read
          exact ⟨left', others', by simp only [List.length_cons, List.length_append]; omega, same⟩
        · cases read
          exact ⟨left, others, by simp only [List.length_cons, List.length_append]; omega, rfl⟩

theorem spellings_backslash {s left : Bytes} {found : List Spelled}
    (read : spellings (backslash :: s) = .ok (found, left)) :
    ∃ c after more, escape s = .ok (c, after) ∧ spellings after = .ok (more, left) := by
  rw [spellings, if_neg (by decide), if_pos rfl] at read
  split at read
  · cases read
  · rename_i c after escaped
    dsimp only at read
    split at read
    · cases read
    · rename_i more rest again
      cases read
      exact ⟨c, after, more, escaped, again⟩

theorem spellings_unquoted {s rest : Bytes} (contents : Unquoted s) {found : List Spelled} {left : Bytes}
    (read : spellings (s ++ quote :: rest) = .ok (found, left)) : left = rest := by
  -- An escape may take up two units at once, so the induction is on the length.
  induction length : s.length using Nat.strongRecOn generalizing s found left with
  | ind n ih =>
      subst length
      have escaped {tail : Bytes} (whole : Unquoted (backslash :: tail)) (shorter : tail.length < s.length)
          (read : spellings (backslash :: (tail ++ quote :: rest)) = .ok (found, left)) : left = rest := by
        obtain ⟨c, after, more, escapes, again⟩ := spellings_backslash read
        obtain ⟨others, contents', less, rfl⟩ := escape_unquoted whole escapes
        exact ih others.length (by omega) contents' again rfl
      cases contents with
      | nil =>
          rw [List.nil_append, spellings, if_pos rfl] at read
          cases read
          rfl
      | @raw a s notQuote notBackslash plain others =>
          rw [List.cons_append, spellings, if_neg notQuote, if_neg notBackslash, if_neg plain] at read
          split at read
          · cases read
          · rename_i more after again
            cases read
            exact ih s.length (by simp) others again rfl
      | short known others => exact escaped (.short known others) (by simp) read
      | unit hex others => exact escaped (.unit hex others) (by simp) read

theorem readText_unquoted {s rest : Bytes} (contents : Unquoted s) {text : String} {left : Bytes}
    (read : readText (s ++ quote :: rest) = .ok (text, left)) : left = rest := by
  rw [readText] at read
  split at read
  · cases read
  · rename_i found middle spelled
    obtain rfl := spellings_unquoted contents spelled
    dsimp only at read
    split at read
    · cases read
      rfl
    · cases read

theorem items_ne_nil {item : Reader α} {s left : Bytes} {values : List α} (starts : Starts s)
    (read : items item s = .ok (values, left)) : values ≠ [] := by
  obtain ⟨a, rest, found, -, open', -⟩ := starts.skipBlank
  rw [items, found] at read
  simp only [open', ↓reduceIte] at read
  split at read
  · cases read
  · split at read
    · cases read
    · cases read
      exact List.cons_ne_nil _ _

theorem readList_bracket (item : Reader α) {blank : Bytes} (blanks : Blank blank) (s : Bytes) :
    readList item (blank ++ octet '[' :: s) = items item s := by
  rw [readList, skipBlank_append blanks, skipBlank_solid (by decide)]
  exact if_pos rfl

theorem Written.value_cases {s : Bytes} (written : Written .value s) :
    (∃ blank, Blank blank ∧ s = octet '[' :: (blank ++ [octet ']'])) ∨
      (∃ inside, Starts inside ∧ s = octet '[' :: inside) ∨
      ∃ a rest, s = a :: rest ∧ isBlank a = false ∧ a ≠ octet '[' := by
  cases written with
  | word member =>
      simp only [words, List.map_cons, List.map_nil, List.mem_cons, List.not_mem_nil, or_false] at member
      rcases member with rfl | rfl | rfl
      all_goals exact .inr (.inr ⟨_, _, rfl, by decide, by decide⟩)
  | number number =>
      obtain ⟨signs, isWhole, -, -⟩ := number
      simp only [List.mem_cons, List.not_mem_nil, or_false] at signs
      rcases signs with rfl | rfl
      · obtain ⟨a, rest, same, digit⟩ := isWhole.first _
        obtain ⟨opens, solid, -⟩ := opens_digit digit
        refine .inr (.inr ⟨a, rest, same, solid, ?_⟩)
        rintro rfl
        exact absurd opens (by decide)
      · exact .inr (.inr ⟨octet '-', _, rfl, by decide, by decide⟩)
  | text contents => exact .inr (.inr ⟨_, _, rfl, by decide, by decide⟩)
  | noItems blanks => exact .inl ⟨_, blanks, rfl⟩
  | list written => exact .inr (.inl ⟨_, written.skips.1.append _, rfl⟩)
  | noMembers blanks => exact .inr (.inr ⟨_, _, rfl, by decide, by decide⟩)
  | object written => exact .inr (.inr ⟨_, _, rfl, by decide, by decide⟩)

theorem readList_written {item : Reader α} {blank s rest left : Bytes} {values : List α} (blanks : Blank blank)
    (written : Written .value s) (read : readList item (blank ++ (s ++ rest)) = .ok (values, left)) :
    values ≠ [] ∨ left = rest := by
  rcases written.value_cases with ⟨inside, blanks', rfl⟩ | ⟨inside, starts, rfl⟩ | ⟨a, tail, rfl, solid, other⟩
  · rw [List.cons_append, readList_bracket item blanks, List.append_assoc, items, skipBlank_append blanks',
      List.cons_append, skipBlank_solid (by decide)] at read
    simp only [↓reduceIte, Except.ok.injEq, Prod.mk.injEq] at read
    exact .inr read.2.symm
  · rw [List.cons_append, readList_bracket item blanks] at read
    exact .inl (items_ne_nil (starts.append rest) read)
  · rw [readList, skipBlank_append blanks, List.cons_append, skipBlank_solid solid] at read
    simp [other] at read

inductive Earlier (part : Part) : Bytes → Prop where
  | nil : Earlier part []
  | cons {s rest : Bytes} : Written part s → Earlier part rest → Earlier part (s ++ comma :: rest)

inductive Heads (label : String) : Bytes → Prop where
  | head {before name after blank : Bytes} : Blank before → Spells label.toList name → Blank after → Blank blank →
      Heads label (before ++ (quoted name ++ (after ++ colon :: blank)))

theorem pick_cases {label key : String} {value : Reader α} {seen next : Option α} {blank s left : Bytes}
    (blanks : Blank blank) (picked : pick label value seen key (blank ++ colon :: s) = .ok (next, left)) :
    (key = label ∧ seen = none ∧ ∃ a, value.read s = .ok (a, left) ∧ next = some a) ∨
      (key ≠ label ∧ skipValue s = .ok left ∧ next = seen) := by
  have passed : skipColon (blank ++ colon :: s) = .ok s := by
    rw [skipColon, skipBlank_append blanks, skipBlank_solid (by decide)]
    rfl
  rw [pick] at picked
  split at picked
  · rename_i same
    split at picked
    · cases picked
    · rename_i fresh
      rw [readValueAfterColon, passed] at picked
      dsimp only at picked
      split at picked
      · cases picked
      · rename_i a rest read
        cases picked
        exact .inl ⟨same, by simpa using fresh, a, read, rfl⟩
  · rename_i other
    rw [passed] at picked
    dsimp only at picked
    split at picked
    · cases picked
    · rename_i rest skipped
      cases picked
      exact .inr ⟨other, skipped, rfl⟩

theorem onward_cases {label : String} {value : Reader α} {seen next : Option α} {name blank s left : Bytes}
    (contents : Unquoted name) (blanks : Blank blank)
    (read : onward ⟨pick label value, pick_length⟩ seen (name ++ quote :: (blank ++ colon :: s)) =
      .ok (next, left)) :
    ∃ later rest, moreMembers ⟨pick label value, pick_length⟩ later rest = .ok (next, left) ∧
      ((seen = none ∧ ∃ a, value.read s = .ok (a, rest) ∧ later = some a) ∨
        (skipValue s = .ok rest ∧ later = seen)) := by
  rw [onward] at read
  split at read
  · cases read
  · rename_i later rest member
    refine ⟨later, rest, read, ?_⟩
    rw [readMember] at member
    split at member
    · cases member
    · rename_i key after named
      obtain rfl := readText_unquoted contents named
      rcases pick_cases blanks member with ⟨-, fresh, found⟩ | ⟨-, skipped, same⟩
      · exact .inl ⟨fresh, found⟩
      · exact .inr ⟨skipped, same⟩

section

variable {label : String} {item : Reader α}

def Fills (label : String) (item : Reader α) (s : Bytes) : Prop :=
  ∃ blank inside, s = blank ++ quote :: inside ∧ Blank blank ∧ ∀ seen next left,
    onward ⟨pick label (.list item), pick_length⟩ seen inside = .ok (next, left) → next ≠ none ∧ next ≠ some []

theorem Heads.fills {head s : Bytes} (heads : Heads label head) (starts : Starts s) :
    Fills label item (head ++ octet '[' :: s) := by
  cases heads with
  | @head before name after blank blanks spelled blanks' blanks'' =>
      refine ⟨before, name ++ quote :: (after ++ colon :: (blank ++ octet '[' :: s)), by simp [quoted], blanks,
        fun seen next left read => ?_⟩
      rw [onward, readMember, readText_spells spelled, String.ofList_toList] at read
      dsimp only at read
      split at read
      · cases read
      · rename_i later rest picked
        rcases pick_cases blanks' picked with ⟨-, -, values, found, rfl⟩ | ⟨other, -⟩
        · have some : values ≠ [] := items_ne_nil starts ((readList_bracket item blanks'' s).symm.trans found)
          obtain rfl := moreMembers_keeps read
          exact ⟨Option.some_ne_none _, fun same => some (Option.some.inj same)⟩
        · exact absurd rfl other

theorem Fills.behind {member s : Bytes} (written : Written .member member) (fills : Fills label item s) :
    Fills label item (member ++ comma :: s) := by
  obtain ⟨outer, inside, rfl, blanks, filled⟩ := fills
  cases written with
  | @member before name after _ blanks' contents blanks'' written =>
      cases written with
      | @item front value back blanksFront written blanksBack =>
          refine ⟨before, name ++ quote :: (after ++ colon ::
            (front ++ (value ++ (back ++ comma :: (outer ++ quote :: inside))))), by simp [quoted], blanks',
            fun seen next left read => ?_⟩
          obtain ⟨later, rest, more, found⟩ := onward_cases contents blanks'' read
          -- Either the reader has passed the value exactly, or it has taken in a list that has items.
          have aligned (same : rest = back ++ comma :: (outer ++ quote :: inside)) :
              next ≠ none ∧ next ≠ some [] := by
            rw [same, moreMembers_quote blanksBack blanks] at more
            exact filled _ _ _ more
          rcases found with ⟨-, values, read', rfl⟩ | ⟨skipped, -⟩
          · rcases readList_written blanksFront written read' with some | same
            · obtain rfl := moreMembers_keeps more
              exact ⟨Option.some_ne_none _, fun same => some (Option.some.inj same)⟩
            · exact aligned same
          · have stops : Stops (back ++ comma :: (outer ++ quote :: inside)) :=
              .blank blanksBack (.of_solid (by decide) _)
            rw [skipValue_value blanksFront written stops] at skipped
            exact aligned (Except.ok.inj skipped).symm

theorem Earlier.fills {earlier s : Bytes} (before : Earlier .member earlier) (fills : Fills label item s) :
    Fills label item (earlier ++ s) := by
  induction before with
  | nil => exact fills
  | cons written _ ih =>
      rw [List.append_assoc, List.cons_append]
      exact ih.behind written

end

theorem read_behind {field : Field (List α)} {item : Reader α} {blank earlier head s : Bytes}
    (blanks : Blank blank) (before : Earlier .member earlier) (heads : Heads field.name head)
    (starts : Starts s) :
    (Reader.record field (.list item)).whole
      (blank ++ octet '\x7b' :: (earlier ++ (head ++ octet '[' :: s))) ≠ .ok [] := by
  obtain ⟨outer, inside, same, blanks', filled⟩ := before.fills (Heads.fills heads starts)
  intro whole
  rw [Reader.whole] at whole
  split at whole
  · cases whole
  · rename_i values rest read
    have empty : values = [] := by
      split at whole
      · exact Except.ok.inj whole
      · cases whole
    subst empty
    change readRecord field (.list item) _ = _ at read
    rw [readRecord, skipBlank_append blanks, skipBlank_solid (by decide)] at read
    simp only [↓reduceIte] at read
    rw [Field.read, same, members_quote blanks'] at read
    split at read
    · cases read
    · rename_i found left onward
      cases read
      exact (filled _ _ _ onward).2 rfl
    · rename_i left onward
      exact (filled _ _ _ onward).1 rfl

end SecretStore.Json
