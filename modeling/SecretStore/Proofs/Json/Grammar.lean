import Mathlib.Data.List.Basic
import SecretStore.Proofs.Json.Written

namespace SecretStore.Json

/-! ## The grammar -/

def Blank (s : Bytes) : Prop := ∀ a ∈ s, isBlank a = true

/-- The contents of a string. The octets need not be UTF-8, and escapes of surrogates need not be paired. -/
inductive Unquoted : Bytes → Prop where
  | nil : Unquoted []
  | raw {a : UInt8} {s : Bytes} : a ≠ quote → a ≠ backslash → ¬ a < 0x20 → Unquoted s → Unquoted (a :: s)
  | short {a : UInt8} {s : Bytes} : (shortEscape? a).isSome = true → Unquoted s →
      Unquoted (backslash :: a :: s)
  | unit {digits s : Bytes} {unit : Nat} : HexUnit digits unit → Unquoted s →
      Unquoted (backslash :: octet 'u' :: (digits ++ s))

structure IsDigits (s : Bytes) : Prop where
  nonempty : s ≠ []
  digits : ∀ a ∈ s, (digit? a).isSome = true

inductive IsWhole : Bytes → Prop where
  | zero : IsWhole [48]
  | digits {a : UInt8} {d : Nat} {s : Bytes} : digit? a = some (d + 1) → (∀ b ∈ s, (digit? b).isSome = true) →
      IsWhole (a :: s)

inductive IsFraction : Bytes → Prop where
  | none : IsFraction []
  | point {s : Bytes} : IsDigits s → IsFraction (46 :: s)

inductive IsExponent : Bytes → Prop where
  | none : IsExponent []
  | mark {a : UInt8} {sign s : Bytes} : isExponentMark a = true → sign ∈ [[], [43], [45]] → IsDigits s →
      IsExponent (a :: (sign ++ s))

inductive IsNumber : Bytes → Prop where
  | number {minus whole fraction exponent : Bytes} : minus ∈ [[], [octet '-']] → IsWhole whole →
      IsFraction fraction → IsExponent exponent → IsNumber (minus ++ (whole ++ (fraction ++ exponent)))

def words : List Bytes := ["null", "true", "false"].map fun word => word.toList.map octet

inductive Part where
  | value
  | item
  | items
  | member
  | members

inductive Written : Part → Bytes → Prop where
  | word {s : Bytes} : s ∈ words → Written .value s
  | number {s : Bytes} : IsNumber s → Written .value s
  | text {s : Bytes} : Unquoted s → Written .value (quoted s)
  | noItems {s : Bytes} : Blank s → Written .value (octet '[' :: (s ++ [octet ']']))
  | list {s : Bytes} : Written .items s → Written .value (octet '[' :: (s ++ [octet ']']))
  | noMembers {s : Bytes} : Blank s → Written .value (octet '\x7b' :: (s ++ [octet '\x7d']))
  | object {s : Bytes} : Written .members s → Written .value (octet '\x7b' :: (s ++ [octet '\x7d']))
  | item {before s after : Bytes} : Blank before → Written .value s → Blank after →
      Written .item (before ++ (s ++ after))
  | lastItem {s : Bytes} : Written .item s → Written .items s
  | items {s rest : Bytes} : Written .item s → Written .items rest → Written .items (s ++ comma :: rest)
  | member {before name after s : Bytes} : Blank before → Unquoted name → Blank after → Written .item s →
      Written .member (before ++ (quoted name ++ (after ++ colon :: s)))
  | lastMember {s : Bytes} : Written .member s → Written .members s
  | members {s rest : Bytes} : Written .member s → Written .members rest →
      Written .members (s ++ comma :: rest)

/-! ## Blanks -/

theorem blank_nil : Blank [] := List.forall_mem_nil _

theorem skipBlank_append {blank : Bytes} (blanks : Blank blank) (s : Bytes) :
    skipBlank (blank ++ s) = skipBlank s :=
  List.dropWhile_append_of_pos blanks

/-! ## Strings -/

theorem unquoted_of_plain {s : Bytes} (plain : ∀ a ∈ s, a ≠ quote ∧ a ≠ backslash ∧ ¬ a < 0x20) : Unquoted s := by
  induction s with
  | nil => exact .nil
  | cons a s ih =>
      obtain ⟨⟨notQuote, notBackslash, shown⟩, others⟩ := List.forall_mem_cons.1 plain
      exact .raw notQuote notBackslash shown (ih others)

theorem skipText_escape {s after : Bytes} (escaped : skipEscape s = .ok after) :
    skipText (backslash :: s) = skipText after := by
  rw [skipText, if_neg (by decide), if_pos rfl]
  split
  · rename_i failed
    rw [escaped] at failed
    cases failed
  · rename_i other found
    rw [escaped] at found
    cases found
    rfl

theorem skipText_unquoted {s : Bytes} (contents : Unquoted s) (rest : Bytes) :
    skipText (s ++ quote :: rest) = .ok rest := by
  induction contents with
  | nil => rw [List.nil_append, skipText, if_pos rfl]
  | raw notQuote notBackslash plain _ ih =>
      rw [List.cons_append, skipText, if_neg notQuote, if_neg notBackslash, if_neg plain, ih]
  | @short a s known _ ih =>
      have notUnit : a ≠ octet 'u' := by
        rintro rfl
        exact absurd known (by decide)
      have escaped : skipEscape (a :: (s ++ quote :: rest)) = .ok (s ++ quote :: rest) := by
        rw [skipEscape, if_neg notUnit, if_pos known]
      exact (skipText_escape escaped).trans ih
  | @unit digits s unit hex _ ih =>
      have escaped : skipEscape (octet 'u' :: (digits ++ s ++ quote :: rest)) = .ok (s ++ quote :: rest) := by
        rw [skipEscape, if_pos rfl, List.append_assoc, hexUnit_append hex]
        rfl
      exact (skipText_escape escaped).trans ih

/-! ## Numbers -/

def Stops (rest : Bytes) : Prop :=
  ∀ a ∈ rest.head?, (digit? a).isSome = false ∧ a ≠ 46 ∧ isExponentMark a = false

theorem takeDigits_append {s rest : Bytes} (digits : ∀ a ∈ s, (digit? a).isSome = true)
    (stops : ∀ a ∈ rest.head?, (digit? a).isSome = false) :
    (takeDigits (s ++ rest)).1.length = s.length ∧ (takeDigits (s ++ rest)).2 = rest := by
  induction s with
  | nil =>
      cases rest with
      | nil => exact ⟨rfl, rfl⟩
      | cons a rest =>
          have none : digit? a = none := by simpa using stops a rfl
          simp [takeDigits, none]
  | cons a s ih =>
      obtain ⟨d, found⟩ := Option.isSome_iff_exists.1 (digits a List.mem_cons_self)
      obtain ⟨length, left⟩ := ih fun b member => digits b (List.mem_cons_of_mem _ member)
      simp [takeDigits, found, length, left]

theorem skipWhole_append {whole rest : Bytes} (isWhole : IsWhole whole)
    (stops : ∀ a ∈ rest.head?, (digit? a).isSome = false) : skipWhole (whole ++ rest) = .ok rest := by
  cases isWhole with
  | zero =>
      have zero : digit? 48 = some 0 := by decide
      cases rest with
      | nil => simp [skipWhole, zero]
      | cons b rest => simp [skipWhole, zero, stops b rfl]
  | digits first others => simp [skipWhole, first, (takeDigits_append others stops).2]

theorem skipFraction_append {fraction rest : Bytes} (isFraction : IsFraction fraction)
    (stops : ∀ a ∈ rest.head?, (digit? a).isSome = false ∧ a ≠ 46) :
    skipFraction (fraction ++ rest) = .ok rest := by
  cases isFraction with
  | none =>
      rw [List.nil_append, skipFraction.eq_def]
      split
      · exact absurd rfl (stops 46 rfl).2
      · rfl
  | @point s digits =>
      obtain ⟨length, left⟩ := takeDigits_append digits.digits fun a head => (stops a head).1
      have nonempty := digits.nonempty
      rw [List.cons_append, skipFraction]
      split
      · rename_i empty
        rw [empty] at length
        exact absurd (List.length_eq_zero_iff.1 length.symm) nonempty
      · rename_i found
        rw [found] at left
        rw [← left]

theorem skipExponent_append {exponent rest : Bytes} (isExponent : IsExponent exponent) (stops : Stops rest) :
    skipExponent (exponent ++ rest) = .ok rest := by
  cases isExponent with
  | none =>
      cases rest with
      | nil => rfl
      | cons a rest => simp [skipExponent, (stops a rfl).2.2]
  | @mark a sign s marks signs digits =>
      have unsigned : (takeSign (sign ++ s ++ rest)).2 = s ++ rest := by
        obtain ⟨b, tail, rfl⟩ := List.exists_cons_of_ne_nil digits.nonempty
        have first := digits.digits b List.mem_cons_self
        simp only [List.mem_cons, List.not_mem_nil, or_false] at signs
        rcases signs with rfl | rfl | rfl
        · rw [List.nil_append, List.cons_append, takeSign.eq_def]
          split
          · rename_i same
            cases same
            exact absurd first (by decide)
          · rename_i same
            cases same
            exact absurd first (by decide)
          · rfl
        · rfl
        · rfl
      obtain ⟨length, left⟩ := takeDigits_append digits.digits fun a head => (stops a head).1
      have nonempty := digits.nonempty
      simp only [List.cons_append, skipExponent, marks, Bool.not_true, Bool.false_eq_true, ↓reduceIte,
        unsigned]
      split
      · rename_i empty
        rw [empty] at length
        exact absurd (List.length_eq_zero_iff.1 length.symm) nonempty
      · rename_i found
        rw [found] at left
        rw [← left]

theorem skipNumber_append {whole fraction exponent rest : Bytes} (isWhole : IsWhole whole)
    (isFraction : IsFraction fraction) (isExponent : IsExponent exponent) (stops : Stops rest) :
    skipNumber (whole ++ (fraction ++ (exponent ++ rest))) = .ok rest := by
  have afterFraction : ∀ a ∈ (exponent ++ rest).head?, (digit? a).isSome = false ∧ a ≠ 46 := by
    cases isExponent with
    | none => exact fun a head => ⟨(stops a head).1, (stops a head).2.1⟩
    | mark marks _ _ =>
        rintro a ⟨⟩
        simp only [isExponentMark, Bool.or_eq_true, decide_eq_true_eq] at marks
        rcases marks with rfl | rfl <;> decide
  have afterWhole : ∀ a ∈ (fraction ++ (exponent ++ rest)).head?, (digit? a).isSome = false := by
    cases isFraction with
    | none => exact fun a head => (afterFraction a head).1
    | point _ =>
        rintro a ⟨⟩
        decide
  simp only [skipNumber, skipWhole_append isWhole afterWhole, skipFraction_append isFraction afterFraction,
    bind, Except.bind]
  exact skipExponent_append isExponent stops

/-! ## Steps -/

section

variable {around : List Bracket} {bracket : Bracket} {s rest left : Bytes} {a : UInt8}

theorem skipWithin_eq (around : List Bracket) (s : Bytes) :
    skipWithin around s = match skipBlank s with
      | [] => .error ⟨.endOfValue, 0⟩
      | a :: rest =>
        match opening? a with
        | none => .error (ahead .valueExpected (a :: rest))
        | some .list =>
          match skipBlank rest with
          | [] => .error ⟨.endOfList, 0⟩
          | b :: after =>
            if b = octet ']' then skipAfter around after else skipWithin (.list :: around) (b :: after)
        | some .object =>
          match skipBlank rest with
          | [] => .error ⟨.endOfObject, 0⟩
          | b :: after =>
            if b = octet '\x7d' then skipAfter around after
            else skipName (b :: after) >>= skipWithin (.object :: around)
        | some .digit => skipNumber (a :: rest) >>= skipAfter around
        | some first => skipScalar first rest >>= skipAfter around := by
  -- The two sides are matched apart, so that each case leaves equations for both.
  generalize same : skipWithin around s = step
  rw [skipWithin.eq_def] at same
  split at same
  · simp_all
  · split at same
    · simp_all
    · split at same <;> simp_all
    · split at same
      · simp_all
      · split at same
        · simp_all
        · split at same <;> subst same <;> simp_all [bind, Except.bind]
    · split at same <;> subst same <;> simp_all [bind, Except.bind]
    · split at same <;> subst same <;> simp_all [bind, Except.bind]

theorem skipAfter_bracket (bracket : Bracket) (around : List Bracket) (s : Bytes) :
    skipAfter (bracket :: around) s = match skipBlank s with
      | [] => .error ⟨bracket.unclosed, 0⟩
      | a :: rest =>
        if a = bracket.closing then skipAfter around rest
        else if a = comma then
          match bracket with
          | .list => skipWithin (.list :: around) rest
          | .object => skipName rest >>= skipWithin (.object :: around)
        else .error (ahead bracket.endExpected (a :: rest)) := by
  rw [skipAfter.eq_def]
  dsimp only
  split
  · simp_all
  · rename_i b tail found
    simp only [found]
    cases bracket with
    | list => rfl
    | object =>
        split
        · rfl
        · split
          · dsimp only
            split <;> simp_all [bind, Except.bind]
          · rfl

theorem skipAfter_blank {blank : Bytes} (blanks : Blank blank) (s : Bytes) :
    skipAfter (bracket :: around) (blank ++ s) = skipAfter (bracket :: around) s := by
  rw [skipAfter_bracket, skipAfter_bracket, skipBlank_append blanks]

theorem skipAfter_closing (bracket : Bracket) (around : List Bracket) (rest : Bytes) :
    skipAfter (bracket :: around) (bracket.closing :: rest) = skipAfter around rest := by
  have solid : isBlank bracket.closing = false := by cases bracket <;> decide
  rw [skipAfter_bracket, skipBlank_solid solid]
  exact if_pos rfl

theorem skipAfter_comma_list (around : List Bracket) (rest : Bytes) :
    skipAfter (.list :: around) (comma :: rest) = skipWithin (.list :: around) rest := by
  rw [skipAfter_bracket, skipBlank_solid (by decide)]
  rfl

theorem skipAfter_comma_object (around : List Bracket) (rest : Bytes) :
    skipAfter (.object :: around) (comma :: rest) = skipName rest >>= skipWithin (.object :: around) := by
  rw [skipAfter_bracket, skipBlank_solid (by decide)]
  rfl

theorem skipWithin_blank {blank : Bytes} (blanks : Blank blank) (around : List Bracket) (s : Bytes) :
    skipWithin around (blank ++ s) = skipWithin around s := by
  rw [skipWithin_eq, skipWithin_eq around s, skipBlank_append blanks]

theorem skipWithin_scalar (first : Opening) (solid : isBlank a = false) (opens : opening? a = some first)
    (scalar : first ∉ [.list, .object, .digit]) (skips : skipScalar first rest = .ok left) :
    skipWithin around (a :: rest) = skipAfter around left := by
  rw [skipWithin_eq, skipBlank_solid solid]
  simp only [opens]
  split
  · rename_i same
    cases same
  · rename_i same
    cases same
    simp at scalar
  · rename_i same
    cases same
    simp at scalar
  · rename_i same
    cases same
    simp at scalar
  · rename_i same
    cases same
    rw [skips]
    rfl

end

theorem skipName_written {before name after : Bytes} (blanks : Blank before) (contents : Unquoted name)
    (blanks' : Blank after) (s : Bytes) :
    skipName (before ++ (quoted name ++ (after ++ colon :: s))) = .ok s := by
  have text : skipText (name ++ [quote] ++ (after ++ colon :: s)) = .ok (after ++ colon :: s) := by
    rw [List.append_assoc]
    exact skipText_unquoted contents _
  have passed : skipColon (after ++ colon :: s) = .ok s := by
    rw [skipColon, skipBlank_append blanks', skipBlank_solid (by decide)]
    rfl
  rw [skipName, skipBlank_append blanks, quoted, List.cons_append, skipBlank_solid (by decide)]
  simp only [↓reduceIte, text, passed]

/-! ## Values of any nesting -/

theorem Stops.of_solid {a : UInt8} (stops : (digit? a).isSome = false ∧ a ≠ 46 ∧ isExponentMark a = false)
    (rest : Bytes) : Stops (a :: rest) := by
  rintro b ⟨⟩
  exact stops

theorem Stops.blank {blank rest : Bytes} (blanks : Blank blank) (stops : Stops rest) : Stops (blank ++ rest) := by
  cases blank with
  | nil => exact stops
  | cons a blank =>
      refine .of_solid ?_ _
      have known := blanks a List.mem_cons_self
      simp only [isBlank, Bool.or_eq_true, decide_eq_true_eq] at known
      rcases known with ((rfl | rfl) | rfl) | rfl <;> decide

def Opens (s : Bytes) : Prop :=
  ∃ a rest, s = a :: rest ∧ isBlank a = false ∧ a ≠ octet ']' ∧ a ≠ octet '\x7d'

theorem opens_digit {a : UInt8} (digit : (digit? a).isSome = true) :
    opening? a = some .digit ∧ isBlank a = false ∧ a ≠ octet ']' ∧ a ≠ octet '\x7d' := by
  have all : ∀ n < 256, (digit? (UInt8.ofNat n)).isSome = true → opening? (UInt8.ofNat n) = some .digit ∧
      isBlank (UInt8.ofNat n) = false ∧ UInt8.ofNat n ≠ octet ']' ∧ UInt8.ofNat n ≠ octet '\x7d' := by
    decide +kernel
  have known := all a.toNat a.toNat_lt
  rw [UInt8.ofNat_toNat] at known
  exact known digit

def Starts (s : Bytes) : Prop := ∃ before rest, s = before ++ rest ∧ Blank before ∧ Opens rest

theorem Opens.append {s : Bytes} (opens : Opens s) (rest : Bytes) : Opens (s ++ rest) := by
  obtain ⟨a, tail, rfl, solid⟩ := opens
  exact ⟨a, tail ++ rest, rfl, solid⟩

theorem Starts.append {s : Bytes} (starts : Starts s) (rest : Bytes) : Starts (s ++ rest) := by
  obtain ⟨before, tail, rfl, blanks, opens⟩ := starts
  exact ⟨before, tail ++ rest, List.append_assoc .., blanks, opens.append rest⟩

theorem Starts.skipBlank {s : Bytes} (starts : Starts s) :
    ∃ a rest, skipBlank s = a :: rest ∧ isBlank a = false ∧ a ≠ octet ']' ∧ a ≠ octet '\x7d' := by
  obtain ⟨before, _, rfl, blanks, a, rest, rfl, solid, notList, notObject⟩ := starts
  exact ⟨a, rest, by rw [skipBlank_append blanks, skipBlank_solid solid], solid, notList, notObject⟩

theorem blank_append_skipBlank (s : Bytes) : ∃ blank, Blank blank ∧ s = blank ++ skipBlank s :=
  ⟨s.takeWhile isBlank, List.all_eq_true.1 List.all_takeWhile, (List.takeWhile_append_dropWhile ..).symm⟩

def Skips : Part → Bytes → Prop
  | .value, s => Opens s ∧ ∀ around rest, Stops rest → skipWithin around (s ++ rest) = skipAfter around rest
  | .item, s => Starts s ∧ ∀ bracket around rest, Stops rest →
      skipWithin (bracket :: around) (s ++ rest) = skipAfter (bracket :: around) rest
  | .items, s => Starts s ∧ ∀ around rest,
      skipWithin (.list :: around) (s ++ octet ']' :: rest) = skipAfter around rest
  | .member, s => Starts s ∧ ∀ around rest, Stops rest →
      skipName (s ++ rest) >>= skipWithin (.object :: around) = skipAfter (.object :: around) rest
  | .members, s => Starts s ∧ ∀ around rest,
      skipName (s ++ octet '\x7d' :: rest) >>= skipWithin (.object :: around) = skipAfter around rest

theorem skipWithin_list {s : Bytes} (starts : Starts s) (around : List Bracket) :
    skipWithin around (octet '[' :: s) = skipWithin (.list :: around) s := by
  obtain ⟨a, rest, found, -, open', -⟩ := starts.skipBlank
  obtain ⟨blank, blanks, whole⟩ := blank_append_skipBlank s
  rw [skipWithin_eq, skipBlank_solid (by decide)]
  simp only [show opening? (octet '[') = some .list by decide, found]
  rw [if_neg open', ← found]
  nth_rewrite 2 [whole]
  rw [skipWithin_blank blanks]

theorem skipWithin_object {s : Bytes} (starts : Starts s) (around : List Bracket) :
    skipWithin around (octet '\x7b' :: s) = skipName s >>= skipWithin (.object :: around) := by
  obtain ⟨a, rest, found, solid, -, open'⟩ := starts.skipBlank
  rw [skipWithin_eq, skipBlank_solid (by decide)]
  simp only [show opening? (octet '\x7b') = some .object by decide, found]
  rw [if_neg open']
  have same : skipName (a :: rest) = skipName s := by
    rw [skipName, skipName, found, skipBlank_solid solid]
  rw [same]

theorem skips_word {s : Bytes} (member : s ∈ words) : Skips .value s := by
  simp only [words, List.map_cons, List.map_nil, List.mem_cons, List.not_mem_nil, or_false] at member
  rcases member with rfl | rfl | rfl
  all_goals exact ⟨⟨_, _, rfl, by decide, by decide, by decide⟩, fun around rest _ =>
    skipWithin_scalar _ (by decide) rfl (by decide) rfl⟩

theorem IsWhole.first {whole : Bytes} (isWhole : IsWhole whole) (rest : Bytes) :
    ∃ a tail, whole ++ rest = a :: tail ∧ (digit? a).isSome = true := by
  cases isWhole with
  | zero => exact ⟨48, _, rfl, by decide⟩
  | digits first _ => exact ⟨_, _, rfl, by rw [first]; rfl⟩

theorem skips_number {s : Bytes} (number : IsNumber s) : Skips .value s := by
  obtain ⟨minus, isWhole, isFraction, isExponent⟩ := number
  rename_i sign whole fraction exponent
  have skips (rest : Bytes) (stops : Stops rest) :
      skipNumber (whole ++ (fraction ++ exponent) ++ rest) = .ok rest := by
    rw [List.append_assoc, List.append_assoc]
    exact skipNumber_append isWhole isFraction isExponent stops
  simp only [List.mem_cons, List.not_mem_nil, or_false] at minus
  rcases minus with rfl | rfl
  · obtain ⟨a, tail, same, digit⟩ := isWhole.first (fraction ++ exponent)
    rw [same] at skips
    obtain ⟨opens, solid⟩ := opens_digit digit
    rw [List.nil_append, same]
    refine ⟨⟨a, tail, rfl, solid⟩, fun around rest stops => ?_⟩
    rw [List.cons_append, skipWithin_eq, skipBlank_solid solid.1]
    simp only [opens]
    rw [← List.cons_append, skips rest stops]
    rfl
  · refine ⟨⟨octet '-', _, rfl, by decide, by decide, by decide⟩, fun around rest stops => ?_⟩
    exact skipWithin_scalar .minus (by decide) (by decide) (by decide) (skips rest stops)

theorem Written.skips {part : Part} {s : Bytes} (written : Written part s) : Skips part s := by
  induction written with
  | word member => exact skips_word member
  | number number => exact skips_number number
  | @text s contents =>
      refine ⟨⟨quote, _, rfl, by decide, by decide, by decide⟩, fun around rest _ => ?_⟩
      have text : skipText (s ++ [quote] ++ rest) = .ok rest := by
        rw [List.append_assoc]
        exact skipText_unquoted contents rest
      exact skipWithin_scalar .text (by decide) (by decide) (by decide) text
  | noItems blanks =>
      refine ⟨⟨octet '[', _, rfl, by decide, by decide, by decide⟩, fun around rest _ => ?_⟩
      rw [List.cons_append, List.append_assoc, skipWithin_eq, skipBlank_solid (by decide)]
      simp only [show opening? (octet '[') = some .list by decide, skipBlank_append blanks]
      rw [List.cons_append, List.nil_append, skipBlank_solid (by decide)]
      exact if_pos rfl
  | list written ih =>
      obtain ⟨starts, skips⟩ := ih
      refine ⟨⟨octet '[', _, rfl, by decide, by decide, by decide⟩, fun around rest _ => ?_⟩
      rw [List.cons_append, List.append_assoc, skipWithin_list (starts.append _)]
      exact skips around rest
  | noMembers blanks =>
      refine ⟨⟨octet '\x7b', _, rfl, by decide, by decide, by decide⟩, fun around rest _ => ?_⟩
      rw [List.cons_append, List.append_assoc, skipWithin_eq, skipBlank_solid (by decide)]
      simp only [show opening? (octet '\x7b') = some .object by decide, skipBlank_append blanks]
      rw [List.cons_append, List.nil_append, skipBlank_solid (by decide)]
      exact if_pos rfl
  | object written ih =>
      obtain ⟨starts, skips⟩ := ih
      refine ⟨⟨octet '\x7b', _, rfl, by decide, by decide, by decide⟩, fun around rest _ => ?_⟩
      rw [List.cons_append, List.append_assoc, skipWithin_object (starts.append _)]
      exact skips around rest
  | item before written after ih =>
      obtain ⟨opens, skips⟩ := ih
      refine ⟨⟨_, _, rfl, before, opens.append _⟩, fun bracket around rest stops => ?_⟩
      rw [List.append_assoc, List.append_assoc, skipWithin_blank before, skips _ _ (stops.blank after),
        skipAfter_blank after]
  | lastItem written ih =>
      obtain ⟨starts, skips⟩ := ih
      refine ⟨starts, fun around rest => ?_⟩
      rw [skips .list around _ (.of_solid (by decide) rest)]
      exact skipAfter_closing .list around rest
  | items first rest ih ih' =>
      obtain ⟨starts, skips⟩ := ih
      refine ⟨starts.append _, fun around rest => ?_⟩
      rw [List.append_assoc, List.cons_append, skips .list around _ (.of_solid (by decide) _),
        skipAfter_comma_list]
      exact ih'.2 around rest
  | member before name after written ih =>
      refine ⟨⟨_, _, rfl, before, quote, _, rfl, by decide, by decide, by decide⟩, fun around rest stops => ?_⟩
      rw [List.append_assoc, List.append_assoc, List.append_assoc, List.cons_append,
        skipName_written before name after]
      exact ih.2 .object around rest stops
  | lastMember written ih =>
      obtain ⟨starts, skips⟩ := ih
      refine ⟨starts, fun around rest => ?_⟩
      rw [skips around _ (.of_solid (by decide) rest)]
      exact skipAfter_closing .object around rest
  | members first rest ih ih' =>
      obtain ⟨starts, skips⟩ := ih
      refine ⟨starts.append _, fun around rest => ?_⟩
      rw [List.append_assoc, List.cons_append, skips around _ (.of_solid (by decide) _),
        skipAfter_comma_object]
      exact ih'.2 around rest

/-- Skipping a value takes exactly its octets. -/
theorem skipValue_written {s : Bytes} (written : Written .value s) {rest : Bytes} (stops : Stops rest) :
    skipValue (s ++ rest) = .ok rest := by
  rw [skipValue, written.skips.2 [] rest stops, skipAfter.eq_def]

theorem skipValue_value {before s : Bytes} (blanks : Blank before) (written : Written .value s) {rest : Bytes}
    (stops : Stops rest) : skipValue (before ++ (s ++ rest)) = .ok rest := by
  rw [skipValue, skipWithin_blank blanks, ← skipValue, skipValue_written written stops]

end SecretStore.Json
