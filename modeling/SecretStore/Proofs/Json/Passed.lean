import SecretStore.Proofs.Json.Grammar
import SecretStore.Proofs.Json.Spelt

namespace SecretStore.Json

/-! ## Words and strings -/

theorem skipWord_eq_ok {word : List Char} {s rest : Bytes} (passed : skipWord word s = .ok rest) :
    s = word.map octet ++ rest := by
  fun_induction skipWord word s with
  | case1 s =>
      cases passed
      rfl
  | case2 => cases passed
  | case3 c word s ih => rw [ih passed, List.map_cons, List.cons_append]
  | case4 => cases passed

theorem skipEscape_eq_ok {s rest : Bytes} (passed : skipEscape s = .ok rest) {contents : Bytes}
    (others : Unquoted contents) {tail : Bytes} (more : rest = contents ++ tail) :
    ∃ front, s = front ++ tail ∧ Unquoted (backslash :: front) := by
  rw [skipEscape.eq_def] at passed
  split at passed
  · cases passed
  · split at passed
    · rename_i isUnit
      cases found : hexUnit _ with
      | error fault =>
          rw [found] at passed
          cases passed
      | ok unit =>
          rw [found] at passed
          cases passed
          obtain ⟨digits, rfl, written⟩ := hexUnit_eq_ok found
          exact ⟨octet 'u' :: (digits ++ contents), by simp [isUnit, more], .unit written others⟩
    · split at passed
      · rename_i known
        cases passed
        exact ⟨_ :: contents, by rw [more]; rfl, .short known others⟩
      · cases passed

theorem skipText_eq_ok {s rest : Bytes} (passed : skipText s = .ok rest) :
    ∃ contents, s = contents ++ quote :: rest ∧ Unquoted contents := by
  induction length : s.length using Nat.strongRecOn generalizing s with
  | ind n ih =>
      subst length
      rw [skipText.eq_def] at passed
      split at passed
      · cases passed
      · rename_i a tail
        split at passed
        · rename_i isQuote
          cases passed
          exact ⟨[], by rw [isQuote]; rfl, .nil⟩
        · rename_i notQuote
          split at passed
          · rename_i isBackslash
            split at passed
            · cases passed
            · rename_i after escaped
              have shorter := skipEscape_length escaped
              obtain ⟨contents, same, others⟩ :=
                ih after.length (by simp only [List.length_cons]; omega) passed rfl
              obtain ⟨front, rfl, written⟩ := skipEscape_eq_ok escaped others same
              exact ⟨backslash :: front, by rw [isBackslash]; rfl, written⟩
          · rename_i notBackslash
            split at passed
            · cases passed
            · rename_i shown
              obtain ⟨contents, rfl, others⟩ := ih tail.length (by simp) passed rfl
              exact ⟨a :: contents, rfl, .raw notQuote notBackslash shown others⟩

/-! ## Numbers -/

theorem takeDigits_split (s : Bytes) :
    ∃ front, s = front ++ (takeDigits s).2 ∧ (∀ a ∈ front, (digit? a).isSome = true) ∧
      front.length = (takeDigits s).1.length := by
  induction s with
  | nil => exact ⟨[], rfl, List.forall_mem_nil _, rfl⟩
  | cons a s ih =>
      cases digit : digit? a with
      | none => exact ⟨[], by simp [takeDigits, digit], List.forall_mem_nil _, by simp [takeDigits, digit]⟩
      | some d =>
          obtain ⟨front, same, digits, length⟩ := ih
          refine ⟨a :: front, ?_, List.forall_mem_cons.2 ⟨by rw [digit]; rfl, digits⟩, ?_⟩
          · simpa [takeDigits, digit] using same
          · simpa [takeDigits, digit] using length

theorem takeDigits_isDigits {s rest : Bytes} {digits : List Nat} (taken : takeDigits s = (digits, rest))
    (some : digits ≠ []) : ∃ front, s = front ++ rest ∧ IsDigits front := by
  obtain ⟨front, same, isDigits, length⟩ := takeDigits_split s
  rw [taken] at same length
  refine ⟨front, same, ?_, isDigits⟩
  rintro rfl
  exact some (List.length_eq_zero_iff.1 length.symm)

theorem digit?_zero {a : UInt8} (zero : digit? a = some 0) : a = 48 := by
  simp only [digit?, Option.ite_none_right_eq_some, Option.some.injEq] at zero
  obtain ⟨⟨least, -⟩, number⟩ := zero
  have least : 48 ≤ a.toNat := UInt8.le_iff_toNat_le.1 least
  exact UInt8.toNat_inj.1 (show a.toNat = 48 by omega)

theorem skipWhole_eq_ok {s rest : Bytes} (passed : skipWhole s = .ok rest) :
    ∃ whole, s = whole ++ rest ∧ IsWhole whole := by
  rw [skipWhole.eq_def] at passed
  split at passed
  · cases passed
  · rename_i a tail
    split at passed
    · cases passed
    · rename_i zero
      have passed : tail = rest := by
        split at passed
        · split at passed
          · cases passed
          · exact Except.ok.inj passed
        · exact Except.ok.inj passed
      exact ⟨[48], by rw [digit?_zero zero, passed]; rfl, .zero⟩
    · rename_i d other digit
      obtain ⟨front, same, digits, -⟩ := takeDigits_split tail
      cases passed
      cases d with
      | zero => exact absurd rfl other
      | succ d => exact ⟨a :: front, congrArg (a :: ·) same, .digits digit digits⟩

theorem skipFraction_eq_ok {s rest : Bytes} (passed : skipFraction s = .ok rest) :
    ∃ fraction, s = fraction ++ rest ∧ IsFraction fraction := by
  rw [skipFraction.eq_def] at passed
  split at passed
  · split at passed
    · cases passed
    · rename_i some taken
      cases passed
      obtain ⟨front, rfl, digits⟩ := takeDigits_isDigits taken some
      exact ⟨46 :: front, rfl, .point digits⟩
  · cases passed
    exact ⟨[], rfl, .none⟩

theorem takeSign_split (s : Bytes) :
    ∃ sign, s = sign ++ (takeSign s).2 ∧ sign ∈ [[], [43], [45]] := by
  rw [takeSign.eq_def]
  split
  · exact ⟨[43], rfl, by simp⟩
  · exact ⟨[45], rfl, by simp⟩
  · exact ⟨[], rfl, by simp⟩

theorem skipExponent_eq_ok {s rest : Bytes} (passed : skipExponent s = .ok rest) :
    ∃ exponent, s = exponent ++ rest ∧ IsExponent exponent := by
  rw [skipExponent.eq_def] at passed
  split at passed
  · cases passed
    exact ⟨[], rfl, .none⟩
  · rename_i a tail
    split at passed
    · cases passed
      exact ⟨[], rfl, .none⟩
    · rename_i marks
      obtain ⟨sign, same, signs⟩ := takeSign_split tail
      split at passed
      · cases passed
      · rename_i some taken
        cases passed
        obtain ⟨front, found, digits⟩ := takeDigits_isDigits taken some
        rw [found] at same
        exact ⟨a :: (sign ++ front), by simp [same], .mark (by simpa using marks) signs digits⟩

theorem skipNumber_eq_ok {s rest : Bytes} (passed : skipNumber s = .ok rest) (minus : Bytes)
    (sign : minus ∈ [[], [octet '-']]) : ∃ number, minus ++ s = number ++ rest ∧ IsNumber number := by
  rw [skipNumber] at passed
  cases wholePassed : skipWhole s with
  | error => simp [wholePassed, bind, Except.bind] at passed
  | ok first =>
      cases fractionPassed : skipFraction first with
      | error => simp [wholePassed, fractionPassed, bind, Except.bind] at passed
      | ok second =>
          simp only [wholePassed, fractionPassed, bind, Except.bind] at passed
          obtain ⟨whole, rfl, isWhole⟩ := skipWhole_eq_ok wholePassed
          obtain ⟨fraction, rfl, isFraction⟩ := skipFraction_eq_ok fractionPassed
          obtain ⟨exponent, rfl, isExponent⟩ := skipExponent_eq_ok passed
          exact ⟨_, by simp, .number sign isWhole isFraction isExponent⟩

/-! ## Scalars and names -/

def Opening.Heads (a : UInt8) : Opening → Prop
  | .null => a = octet 'n'
  | .yes => a = octet 't'
  | .no => a = octet 'f'
  | .minus => a = octet '-'
  | .digit => (digit? a).isSome = true
  | .text => a = quote
  | .list => a = octet '['
  | .object => a = octet '\x7b'

theorem heads_of_opening? {a : UInt8} {first : Opening} (opens : opening? a = some first) : first.Heads a := by
  rw [opening?] at opens
  split_ifs at opens <;> cases opens <;> assumption

theorem skipScalar_eq_ok {a : UInt8} {first : Opening} {s rest : Bytes} (opens : opening? a = some first)
    (scalar : first ∉ [.list, .object, .digit]) (passed : skipScalar first s = .ok rest) :
    ∃ value, a :: s = value ++ rest ∧ Written .value value := by
  have heads := heads_of_opening? opens
  cases first with
  | null =>
      cases heads
      exact ⟨"null".toList.map octet, congrArg (octet 'n' :: ·) (skipWord_eq_ok passed), .word (by decide)⟩
  | yes =>
      cases heads
      exact ⟨"true".toList.map octet, congrArg (octet 't' :: ·) (skipWord_eq_ok passed), .word (by decide)⟩
  | no =>
      cases heads
      exact ⟨"false".toList.map octet, congrArg (octet 'f' :: ·) (skipWord_eq_ok passed), .word (by decide)⟩
  | minus =>
      cases heads
      obtain ⟨number, same, isNumber⟩ := skipNumber_eq_ok passed [octet '-'] (by simp)
      exact ⟨number, same, .number isNumber⟩
  | text =>
      cases heads
      obtain ⟨contents, rfl, unquoted⟩ := skipText_eq_ok passed
      exact ⟨quoted contents, by simp [quoted], .text unquoted⟩
  | digit => simp at scalar
  | list => simp at scalar
  | object => simp at scalar

theorem skipColon_eq_ok {s rest : Bytes} (passed : skipColon s = .ok rest) :
    ∃ blank, s = blank ++ colon :: rest ∧ Blank blank := by
  obtain ⟨blank, blanks, same⟩ := blank_append_skipBlank s
  rw [skipColon] at passed
  split at passed
  · cases passed
  · rename_i a tail found
    split at passed
    · rename_i isColon
      cases passed
      exact ⟨blank, by rw [same, found, isColon], blanks⟩
    · cases passed

theorem skipName_eq_ok {s rest : Bytes} (passed : skipName s = .ok rest) :
    ∃ before name after, s = before ++ (quoted name ++ (after ++ colon :: rest)) ∧ Blank before ∧
      Unquoted name ∧ Blank after := by
  obtain ⟨before, blanks, same⟩ := blank_append_skipBlank s
  rw [skipName] at passed
  split at passed
  · cases passed
  · rename_i a tail found
    split at passed
    · rename_i isQuote
      split at passed
      · rename_i middle text
        obtain ⟨name, rfl, contents⟩ := skipText_eq_ok text
        obtain ⟨after, rfl, blanks'⟩ := skipColon_eq_ok passed
        exact ⟨before, name, after, by rw [same, found, isQuote]; simp [quoted], blanks, contents, blanks'⟩
      · cases passed
    · cases passed

/-! ## Open brackets -/

inductive Remains : Bracket → Bytes → Prop where
  | blank {bracket : Bracket} {s : Bytes} : Blank s → Remains bracket s
  | items {blank s : Bytes} : Blank blank → Written .items s → Remains .list (blank ++ comma :: s)
  | members {blank s : Bytes} : Blank blank → Written .members s → Remains .object (blank ++ comma :: s)

inductive Closes : List Bracket → Bytes → Prop where
  | nil : Closes [] []
  | cons {bracket : Bracket} {around : List Bracket} {s rest : Bytes} : Remains bracket s → Closes around rest →
      Closes (bracket :: around) (s ++ bracket.closing :: rest)

theorem Remains.behind_value {s before value : Bytes} (remains : Remains .list s) (blanks : Blank before)
    (written : Written .value value) : Written .items (before ++ (value ++ s)) := by
  cases remains with
  | blank blanks' => exact .lastItem (.item blanks written blanks')
  | items blanks' others =>
      have whole := Written.items (.item blanks written blanks') others
      simpa only [List.append_assoc] using whole

theorem Remains.behind_member {s before name after front value : Bytes} (remains : Remains .object s)
    (blanks : Blank before) (contents : Unquoted name) (blanks' : Blank after) (blanksFront : Blank front)
    (written : Written .value value) :
    Written .members (before ++ (quoted name ++ (after ++ colon :: (front ++ (value ++ s))))) := by
  cases remains with
  | blank blanksBack => exact .lastMember (.member blanks contents blanks' (.item blanksFront written blanksBack))
  | members blanksBack others =>
      have whole := Written.members (.member blanks contents blanks' (.item blanksFront written blanksBack)) others
      simpa only [List.append_assoc, List.cons_append] using whole

theorem Blank.append {first second : Bytes} (blanks : Blank first) (blanks' : Blank second) :
    Blank (first ++ second) := by
  intro a member
  exact (List.mem_append.1 member).elim (blanks a) (blanks' a)

def SoundWithin (s : Bytes) : Prop :=
  ∀ around rest, skipWithin around s = .ok rest →
    ∃ before value more, s = before ++ (value ++ (more ++ rest)) ∧ Blank before ∧ Written .value value ∧
      Closes around more

def SoundAfter (s : Bytes) : Prop :=
  ∀ around rest, skipAfter around s = .ok rest → ∃ more, s = more ++ rest ∧ Closes around more

def Passes (around : List Bracket) (s rest : Bytes) : Prop :=
  ∃ value more, s = value ++ (more ++ rest) ∧ Written .value value ∧ Closes around more

section

variable {around : List Bracket} {s before rest : Bytes}

theorem SoundAfter.passes {after value : Bytes} (sound : SoundAfter after) (whole : s = value ++ after)
    (written : Written .value value) (passed : skipAfter around after = .ok rest) : Passes around s rest := by
  obtain ⟨more, rfl, closes⟩ := sound _ _ passed
  exact ⟨value, more, whole, written, closes⟩

theorem SoundWithin.passes_list (sound : SoundWithin s) (blanks : Blank before)
    (passed : skipWithin (.list :: around) s = .ok rest) : Passes around (octet '[' :: (before ++ s)) rest := by
  obtain ⟨front, value, more, rfl, blanksFront, written, closes⟩ := sound _ _ passed
  cases closes with
  | @cons _ _ remains more holds closes =>
      have items := holds.behind_value (blanks.append blanksFront) written
      exact ⟨_, more, by simp [Bracket.closing], .list items, closes⟩

theorem SoundWithin.passes_object {named : Bytes} (sound : SoundWithin s) (blanks : Blank before)
    (name : skipName named = .ok s) (passed : skipWithin (.object :: around) s = .ok rest) :
    Passes around (octet '\x7b' :: (before ++ named)) rest := by
  obtain ⟨front, name, back, rfl, blanksName, contents, blanksColon⟩ := skipName_eq_ok name
  obtain ⟨front', value, more, rfl, blanksFront, written, closes⟩ := sound _ _ passed
  cases closes with
  | @cons _ _ remains more holds closes =>
      have members := holds.behind_member (blanks.append blanksName) contents blanksColon blanksFront written
      exact ⟨_, more, by simp [Bracket.closing], .object members, closes⟩

end

section

variable {s : Bytes} (shorter : ∀ t : Bytes, t.length < s.length → SoundWithin t ∧ SoundAfter t)

include shorter

theorem soundWithin_of_shorter : SoundWithin s := by
  intro around rest passed
  obtain ⟨before, blanks, same⟩ := blank_append_skipBlank s
  have outer := skipBlank_length s
  rw [skipWithin_eq] at passed
  split at passed
  · cases passed
  · rename_i a tail found
    rw [found] at same outer
    simp only [List.length_cons] at outer
    obtain ⟨front, blanks', same'⟩ := blank_append_skipBlank tail
    have inner := skipBlank_length tail
    -- The blanks in front are set apart, and what is left is split by the octet that opens the value.
    suffices passes : Passes around (a :: tail) rest by
      obtain ⟨value, more, whole, written, closes⟩ := passes
      exact ⟨before, value, more, by rw [same, whole], blanks, written, closes⟩
    split at passed
    · cases passed
    · rename_i opens
      obtain rfl := heads_of_opening? opens
      split at passed
      · cases passed
      · rename_i b after found'
        rw [found'] at same' inner
        simp only [List.length_cons] at inner
        split at passed
        · rename_i closed
          exact (shorter after (by omega)).2.passes (by simp [same', closed]) (.noItems blanks') passed
        · rw [same']
          exact (shorter (b :: after) (by simp only [List.length_cons]; omega)).1.passes_list blanks' passed
    · rename_i opens
      obtain rfl := heads_of_opening? opens
      split at passed
      · cases passed
      · rename_i b after found'
        rw [found'] at same' inner
        simp only [List.length_cons] at inner
        split at passed
        · rename_i closed
          exact (shorter after (by omega)).2.passes (by simp [same', closed]) (.noMembers blanks') passed
        · cases named : skipName (b :: after) with
          | error fault =>
              rw [named] at passed
              cases passed
          | ok middle =>
              rw [named] at passed
              have less := skipName_length named
              simp only [List.length_cons] at less
              rw [same']
              exact (shorter middle (by omega)).1.passes_object blanks' named passed
    · cases number : skipNumber (a :: tail) with
      | error fault =>
          rw [number] at passed
          cases passed
      | ok after =>
          rw [number] at passed
          have less := skipNumber_length number
          simp only [List.length_cons] at less
          obtain ⟨digits, whole, isNumber⟩ := skipNumber_eq_ok number [] (by simp)
          exact (shorter after (by omega)).2.passes whole (.number isNumber) passed
    · rename_i first notList notObject notDigit opens
      cases scalar : skipScalar first tail with
      | error fault =>
          rw [scalar] at passed
          cases passed
      | ok after =>
          rw [scalar] at passed
          have less := skipScalar_length scalar
          have known : first ∉ [.list, .object, .digit] := by
            simp only [List.mem_cons, List.not_mem_nil, or_false, not_or]
            exact ⟨notList, notObject, notDigit⟩
          obtain ⟨value, whole, written⟩ := skipScalar_eq_ok opens known scalar
          exact (shorter after (by omega)).2.passes whole written passed

theorem soundAfter_of_shorter : SoundAfter s := by
  intro around rest passed
  obtain ⟨blank, blanks, same⟩ := blank_append_skipBlank s
  have outer := skipBlank_length s
  cases around with
  | nil =>
      rw [skipAfter.eq_def] at passed
      cases passed
      exact ⟨[], rfl, .nil⟩
  | cons bracket around =>
      rw [skipAfter_bracket] at passed
      split at passed
      · cases passed
      · rename_i a tail found
        rw [found] at same outer
        simp only [List.length_cons] at outer
        split at passed
        · rename_i closed
          obtain ⟨more, rfl, closes⟩ := (shorter tail (by omega)).2 _ _ passed
          exact ⟨blank ++ bracket.closing :: more, by rw [same, closed]; simp, .cons (.blank blanks) closes⟩
        · split at passed
          · rename_i isComma
            cases bracket with
            | list =>
                obtain ⟨front, value, more, rfl, blanksFront, written, closes⟩ :=
                  (shorter tail (by omega)).1 _ _ passed
                cases closes with
                | @cons _ _ remains rest' holds closes =>
                    have items := holds.behind_value blanksFront written
                    refine ⟨_, ?_, .cons (.items blanks items) closes⟩
                    simp [same, isComma]
            | object =>
                cases named : skipName tail with
                | error fault =>
                    rw [named] at passed
                    cases passed
                | ok middle =>
                    rw [named] at passed
                    have less := skipName_length named
                    obtain ⟨before, name, after, rfl, blanksName, contents, blanksColon⟩ := skipName_eq_ok named
                    obtain ⟨front, value, more, rfl, blanksFront, written, closes⟩ :=
                      (shorter middle (by omega)).1 _ _ passed
                    cases closes with
                    | @cons _ _ remains rest' holds closes =>
                        have members := holds.behind_member blanksName contents blanksColon blanksFront written
                        refine ⟨_, ?_, .cons (.members blanks members) closes⟩
                        simp [same, isComma]
          · cases passed

end

theorem sound_skip (s : Bytes) : SoundWithin s ∧ SoundAfter s := by
  induction length : s.length using Nat.strongRecOn generalizing s with
  | ind n ih =>
      subst length
      have shorter (t : Bytes) (less : t.length < s.length) : SoundWithin t ∧ SoundAfter t := ih _ less t rfl
      exact ⟨soundWithin_of_shorter shorter, soundAfter_of_shorter shorter⟩

theorem skipValue_eq_ok {s rest : Bytes} (passed : skipValue s = .ok rest) :
    ∃ before value, s = before ++ (value ++ rest) ∧ Blank before ∧ Written .value value := by
  obtain ⟨before, value, more, same, blanks, written, closes⟩ := (sound_skip s).1 _ _ passed
  cases closes with
  | nil => exact ⟨before, value, same, blanks, written⟩

end SecretStore.Json
