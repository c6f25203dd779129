import Mathlib.Algebra.Group.Nat.Defs
import SecretStore.Proofs.Yaml.Passage

namespace SecretStore.Yaml

/-! ## Numbers of escapes -/

theorem hexNumber?_append {width : Nat} {digits : List Char} (whole : digits.length = width)
    (more value : Nat) (rest : List Char) :
    hexNumber? (width + more) value (digits ++ rest) =
      (hexNumber? width value digits).bind (hexNumber? more · rest) := by
  induction digits generalizing width value with
  | nil =>
      subst whole
      rw [List.length_nil, Nat.zero_add]
      rfl
  | cons c digits ih =>
      subst whole
      rw [List.length_cons, Nat.add_right_comm]
      simp only [List.cons_append, hexNumber?]
      split
      · exact ih rfl _
      · rfl

theorem hexNumber?_zeros (count : Nat) : hexNumber? count 0 (List.replicate count '0') = some 0 := by
  induction count with
  | zero => rfl
  | succ count ih => exact ih

theorem hexDigit?_digitChar : ∀ digit < 16, hexDigit? (Nat.digitChar digit).toUpper = some digit := by
  decide

theorem shows_digitChar :
    ∀ digit < 16, isPrintable (Nat.digitChar digit).toUpper = true ∧
      isBreak (Nat.digitChar digit).toUpper = false := by
  decide

theorem hexNumber?_toDigits (value : Nat) :
    hexNumber? (Nat.toDigits 16 value).length 0 ((Nat.toDigits 16 value).map Char.toUpper) =
      some value := by
  induction value using Nat.strongRecOn with
  | ind value ih =>
      by_cases small : value < 16
      · rw [Nat.toDigits_of_lt_base small]
        simp [hexNumber?, hexDigit?_digitChar value small]
      · rw [Nat.toDigits_of_base_le (by decide) (Nat.le_of_not_lt small), List.map_append,
          List.length_append, hexNumber?_append (List.length_map _), ih (value / 16) (by omega)]
        simp only [Option.bind_some, List.length_singleton, List.map_cons, List.map_nil, hexNumber?,
          hexDigit?_digitChar (value % 16) (Nat.mod_lt _ (by decide))]
        exact congrArg some (by omega)

theorem mem_toDigits {c : Char} {value : Nat} (mem : c ∈ Nat.toDigits 16 value) :
    ∃ digit < 16, c = Nat.digitChar digit := by
  induction value using Nat.strongRecOn with
  | ind value ih =>
      by_cases small : value < 16
      · rw [Nat.toDigits_of_lt_base small] at mem
        exact ⟨value, small, List.mem_singleton.1 mem⟩
      · rw [Nat.toDigits_of_base_le (by decide) (Nat.le_of_not_lt small), List.mem_append] at mem
        rcases mem with front | last
        · exact ih (value / 16) (by omega) front
        · exact ⟨value % 16, Nat.mod_lt _ (by decide), List.mem_singleton.1 last⟩

theorem mem_upperHex {c : Char} {width value : Nat} (mem : c ∈ upperHex width value) :
    ∃ digit < 16, c = (Nat.digitChar digit).toUpper := by
  simp only [upperHex, List.mem_append, List.mem_map] at mem
  rcases mem with zero | ⟨d, mem, rfl⟩
  · exact ⟨0, by decide, List.eq_of_mem_replicate zero⟩
  · obtain ⟨digit, small, rfl⟩ := mem_toDigits mem
    exact ⟨digit, small, rfl⟩

variable {width value : Nat}

theorem upperHex_length (fits : value < 16 ^ width) (wide : 0 < width) :
    (upperHex width value).length = width := by
  have := (Nat.length_toDigits_le_iff (by decide) wide).2 fits
  simp only [upperHex, List.length_append, List.length_replicate, List.length_map]
  omega

theorem hexNumber?_upperHex (fits : value < 16 ^ width) (wide : 0 < width) (rest : List Char) :
    hexNumber? width 0 (upperHex width value ++ rest) = some value := by
  have short := (Nat.length_toDigits_le_iff (by decide) wide).2 fits
  have whole : width = (width - (Nat.toDigits 16 value).length) + (Nat.toDigits 16 value).length := by
    omega
  have digits : hexNumber? (Nat.toDigits 16 value).length 0
      ((Nat.toDigits 16 value).map Char.toUpper ++ rest) = some value := by
    rw [← Nat.add_zero (Nat.toDigits 16 value).length, hexNumber?_append (List.length_map _),
      hexNumber?_toDigits]
    rfl
  rw [upperHex, List.length_map, List.append_assoc]
  conv => lhs; arg 1; rw [whole]
  rw [hexNumber?_append List.length_replicate, hexNumber?_zeros]
  exact digits

/-! ## Steps -/

variable {quote : Quote} {start mark : Mark} {text : List Char} {gap : Gap} {c : Char}
  {rest : List Char}

theorem quotedFrom_blank (blank : isBlank c = true) :
    quotedFrom quote start text gap ⟨c :: rest, mark⟩ =
      quotedFrom quote start text (gap.addBlank c) ⟨rest, mark.along 1⟩ := by
  rw [quotedFrom]
  simp [blank, Cursor.pass]

theorem quotedFrom_break (shows : isPrintable c = true) (ends : isBreak c = true) :
    quotedFrom quote start text gap ⟨c :: rest, mark⟩ =
      quotedFrom quote start text (gap.addBreak c) ⟨rest, mark.nextLine 1⟩ := by
  have written := break?_written shows ends rest
  rw [quotedFrom]
  simp only [not_isBlank_of_isBreak ends, Bool.false_eq_true, if_false]
  split
  · rename_i found
    rw [written] at found
    cases found
    rfl
  · rename_i missed
    rw [written] at missed
    cases missed

def Gap.Indented (gap : Gap) (mark : Mark) : Prop := gap.isBroken = true → 0 < mark.column

theorem Gap.Indented.inside {rest : List Char} (indented : gap.Indented mark) :
    ¬(gap.isBroken = true ∧ mark.column = 0 ∧ isAnyDocumentMark rest = true) := fun h => by
  have := indented h.1
  omega

theorem quotedFrom_single_word (word : isGap c = false) (indented : gap.Indented mark) :
    quotedFrom .single start text gap ⟨c :: rest, mark⟩ =
      if c = '\'' then
        if rest.head? = some '\'' then
          quotedFrom .single start ('\'' :: gap.close text) .empty ⟨rest.tail, mark.along 2⟩
        else .ok (gap.close text, ⟨rest, mark.along 1⟩)
      else quotedFrom .single start (c :: gap.close text) .empty ⟨rest, mark.along 1⟩ := by
  simp only [isGap, Bool.or_eq_false_iff] at word
  rw [quotedFrom]
  simp only [word.1, Bool.false_eq_true, if_false]
  split
  · rename_i found
    rw [break?_line word.2] at found
    cases found
  · rw [if_neg indented.inside]
    simp [Cursor.pass]

theorem quotedFrom_double_word (word : isGap c = false) (plain : c ≠ '\\') (indented : gap.Indented mark) :
    quotedFrom .double start text gap ⟨c :: rest, mark⟩ =
      if c = '"' then .ok (gap.close text, ⟨rest, mark.along 1⟩)
      else quotedFrom .double start (c :: gap.close text) .empty ⟨rest, mark.along 1⟩ := by
  simp only [isGap, Bool.or_eq_false_iff] at word
  rw [quotedFrom]
  simp only [word.1, Bool.false_eq_true, if_false]
  split
  · rename_i found
    rw [break?_line word.2] at found
    cases found
  · rw [if_neg indented.inside]
    simp [plain, Cursor.pass]

theorem quotedFrom_double_escape {more : Nat} {meant : Char} (line : isBreak c = false)
    (escaped : escape start ⟨'\\' :: c :: rest, mark⟩ = .ok (meant, more))
    (indented : gap.Indented mark) :
    quotedFrom .double start text gap ⟨'\\' :: c :: rest, mark⟩ =
      quotedFrom .double start (meant :: gap.close text) .empty
        (Cursor.pass (more + 1) ⟨'\\' :: c :: rest, mark⟩) := by
  rw [quotedFrom]
  simp only [show isBlank '\\' = false by decide, Bool.false_eq_true, if_false]
  split
  · rename_i found
    rw [break?_line (by decide)] at found
    cases found
  · rw [if_neg indented.inside]
    simp only [show ('\\' : Char) ≠ '"' by decide, if_false, ne_eq, not_true_eq_false]
    split
    · rename_i found
      rw [break?_line line] at found
      cases found
    · rw [escaped]

/-! ## Between single quotes -/

theorem Gap.close_addBlank (c : Char) (taken text : List Char) :
    ((Gap.blanks taken).addBlank c).close text = c :: (Gap.blanks taken).close text := by
  simp [Gap.addBlank, Gap.close, Gap.text]

theorem Gap.close_lines {first : Char} (kept : first ≠ '\n') (more text : List Char) :
    (Gap.lines (some first) more).close text = more ++ first :: text := by
  simp [Gap.close, Gap.text, kept]

/-- The gap in single-quoted text, and what cannot follow in it. -/
inductive SingleGap : (afterBreak : Bool) → Gap → List Char → Prop where
  | line {taken chars : List Char} (inner : taken ≠ [] → chars.head?.all (!isBreak ·) = true) :
      SingleGap false (.blanks taken) chars
  | lines {first : Char} {more chars : List Char} (kept : first ≠ '\n')
      (starts : chars.head?.all (!isSpace ·) = true) : SingleGap true (.lines (some first) more) chars

theorem singleGap_empty (chars : List Char) : SingleGap false .empty chars :=
  .line fun given => absurd rfl given

variable {afterBreak : Bool} {chars : List Char} {indent : Nat}

theorem quotedFrom_spaces {first : Option Char} {more : List Char} (count : Nat) :
    quotedFrom quote start text (.lines first more) ⟨spaces count ++ rest, mark⟩ =
      quotedFrom quote start text (.lines first more) ⟨rest, mark.along count⟩ := by
  induction count generalizing mark with
  | zero => rfl
  | succ count ih =>
      refine (quotedFrom_blank (show isBlank ' ' = true by decide)).trans (ih.trans ?_)
      simp only [Mark.along, Nat.add_assoc, Nat.add_comm 1]

def indentation (indent : Nat) (afterBreak : Bool) : List Char :=
  if afterBreak then spaces indent else []

theorem quotedFrom_indentation (indented : 0 < indent) (stands : SingleGap afterBreak gap chars) :
    quotedFrom quote start text gap ⟨indentation indent afterBreak ++ rest, mark⟩ =
        quotedFrom quote start text gap ⟨rest, mark.past (indentation indent afterBreak)⟩ ∧
      gap.Indented (mark.past (indentation indent afterBreak)) := by
  cases stands with
  | line => exact ⟨rfl, fun broken => by cases broken⟩
  | lines =>
      rw [indentation, if_pos rfl, Mark.past_spaces]
      exact ⟨quotedFrom_spaces indent, fun _ => Nat.add_pos_right _ indented⟩

theorem hasPair_cons {first second : Char → Bool} (apart : hasPair first second (c :: chars) = false) :
    hasPair first second chars = false ∧
      (first c = true → chars.head?.all (!second ·) = true) := by
  cases chars with
  | nil => exact ⟨rfl, fun _ => rfl⟩
  | cons d rest =>
      simp only [hasPair, Bool.or_eq_false_iff, Bool.and_eq_false_iff] at apart
      refine ⟨apart.2, fun found => ?_⟩
      simpa [found] using apart.1

structure FitsSingle (chars : List Char) : Prop where
  shows : ∀ c ∈ chars, isPrintable c = true
  kept : '\n' ∉ chars
  starts : hasPair isBreak isSpace chars = false
  ends : hasPair isSpace isBreak chars = false

theorem FitsSingle.tail (fits : FitsSingle (c :: chars)) : FitsSingle chars where
  shows d mem := fits.shows d (List.mem_cons_of_mem c mem)
  kept mem := fits.kept (List.mem_cons_of_mem c mem)
  starts := (hasPair_cons fits.starts).1
  ends := (hasPair_cons fits.ends).1

theorem FitsSingle.gap_break (fits : FitsSingle (c :: chars)) (ends : isBreak c = true)
    (stands : SingleGap afterBreak gap (c :: chars)) :
    SingleGap true (gap.addBreak c) chars ∧ (gap.addBreak c).close text = c :: gap.close text := by
  have starts := (hasPair_cons fits.starts).2 ends
  have kept : c ≠ '\n' := fun eq => fits.kept (by simp [eq])
  cases stands with
  | @line taken _ inner =>
      have none : taken = [] := by
        cases taken with
        | nil => rfl
        | cons => simp [ends] at inner
      subst none
      refine ⟨.lines kept starts, ?_⟩
      rw [Gap.addBreak, Gap.close_lines kept]
      rfl
  | lines first =>
      refine ⟨.lines first starts, ?_⟩
      rw [Gap.addBreak, Gap.close_lines first, Gap.close_lines first]
      rfl

theorem FitsSingle.gap_space (fits : FitsSingle (c :: chars)) (space : isSpace c = true)
    (stands : SingleGap afterBreak gap (c :: chars)) :
    afterBreak = false ∧ SingleGap false (gap.addBlank c) chars ∧
      (gap.addBlank c).close text = c :: gap.close text := by
  cases stands with
  | line => exact ⟨rfl, .line fun _ => (hasPair_cons fits.ends).2 space, Gap.close_addBlank ..⟩
  | lines _ starts => simp [space] at starts

theorem singleBody_break (ends : isBreak c = true) :
    singleBody indent afterBreak (c :: chars) = c :: singleBody indent true chars := by
  rw [singleBody, if_pos ends]

theorem singleBody_char (line : isBreak c = false) :
    singleBody indent afterBreak (c :: chars) = indentation indent afterBreak ++
      ((if c = '\'' then ['\'', '\''] else [c]) ++ singleBody indent false chars) := by
  rw [singleBody, line]
  simp only [Bool.false_eq_true, if_false, List.append_assoc, indentation]

theorem quotedFrom_single_char (word : isGap c = false) (indented : gap.Indented mark) :
    quotedFrom .single start text gap ⟨(if c = '\'' then ['\'', '\''] else [c]) ++ rest, mark⟩ =
      quotedFrom .single start (c :: gap.close text) .empty
        ⟨rest, mark.past (if c = '\'' then ['\'', '\''] else [c])⟩ := by
  by_cases sign : c = '\''
  · subst sign
    exact quotedFrom_single_word word indented
  · rw [if_neg sign, Mark.past_char mark (by simp_all [isGap])]
    exact (quotedFrom_single_word word indented).trans (if_neg sign)

theorem quotedFrom_single (fits : FitsSingle chars) (indented : 0 < indent)
    (stands : SingleGap afterBreak gap chars) (alone : rest.head? ≠ some '\'') :
    quotedFrom .single start text gap ⟨singleBody indent afterBreak chars ++ '\'' :: rest, mark⟩ =
      .ok (chars.reverseAux (gap.close text),
        ⟨rest, mark.past (singleBody indent afterBreak chars ++ ['\''])⟩) := by
  -- Breaks and spaces go into the gap, and the next word closes it with all of them in it.
  induction chars generalizing afterBreak gap text mark with
  | nil =>
      obtain ⟨passed, inside⟩ := quotedFrom_indentation indented stands
      rw [Mark.past_append]
      exact passed.trans ((quotedFrom_single_word (by decide) inside).trans (if_neg alone))
  | cons c chars ih =>
      by_cases ends : isBreak c = true
      · obtain ⟨next, close⟩ := fits.gap_break ends stands
        rw [singleBody_break ends, List.cons_append, List.cons_append, Mark.past_break mark ends,
          quotedFrom_break (fits.shows c (by simp)) ends, ih fits.tail next, close]
        rfl
      · rw [Bool.not_eq_true] at ends
        by_cases space : isSpace c = true
        · obtain ⟨rfl, next, close⟩ := fits.gap_space space stands
          have plain : c ≠ '\'' := by
            rintro rfl
            cases space
          rw [singleBody_char ends, if_neg plain]
          simp only [indentation, Bool.false_eq_true, if_false, List.nil_append, List.cons_append]
          rw [Mark.past_char mark ends, quotedFrom_blank (isBlank_eq_isSpace (fits.shows c (by simp)) ▸ space),
            ih fits.tail next, close]
          rfl
        · rw [Bool.not_eq_true] at space
          have word : isGap c = false := by
            rw [isGap, isBlank_eq_isSpace (fits.shows c (by simp)), space, ends]
            rfl
          obtain ⟨passed, inside⟩ := quotedFrom_indentation indented stands
          simp only [singleBody_char ends, List.append_assoc, Mark.past_append]
          rw [passed, quotedFrom_single_char word inside, ih fits.tail (singleGap_empty chars),
            Mark.past_append]
          rfl

theorem readQuoted_single (mark : Mark) (fits : FitsSingle chars) (indented : 0 < indent)
    (alone : rest.head? ≠ some '\'') :
    readQuoted .single ⟨'\'' :: singleBody indent false chars ++ '\'' :: rest, mark⟩ =
      .ok (⟨.scalar (String.ofList chars) .single, mark,
          mark.past ('\'' :: singleBody indent false chars ++ ['\''])⟩,
        ⟨rest, mark.past ('\'' :: singleBody indent false chars ++ ['\''])⟩) := by
  rw [readQuoted]
  simp only [Cursor.pass, List.cons_append, List.drop_succ_cons, List.drop_zero,
    quotedFrom_single fits indented (singleGap_empty chars) alone]
  rw [Mark.past_char mark (by decide)]
  simp [Gap.close, Gap.empty, Gap.text, Except.bind, bind, pure, Except.pure, Quote.style]

/-! ## Between double quotes -/

inductive DoubleSpelling (c : Char) : List Char → Prop where
  | letter {sign : Char} (meant : shortEscape? sign = some c) (line : isBreak sign = false)
      (shows : isPrintable sign = true) : DoubleSpelling c ['\\', sign]
  | shown (shows : isPrintable c = true) (line : isBreak c = false) (plain : c ≠ '"' ∧ c ≠ '\\') :
      DoubleSpelling c [c]
  | number {sign : Char} {width : Nat} (numbers : escapeWidth? sign = some width)
      (meant : shortEscape? sign = none) (line : isBreak sign = false)
      (shows : isPrintable sign = true) (wide : 0 < width) (fits : c.toNat < 16 ^ width)
      (short : width + 2 ≤ 4 * c.utf8Size) : DoubleSpelling c ('\\' :: sign :: upperHex width c.toNat)

theorem escapeLetter?_meant {sign : Char} (named : escapeLetter? c = some sign) :
    shortEscape? sign = some c ∧ isBreak sign = false ∧ isPrintable sign = true := by
  unfold escapeLetter? at named
  split at named <;> cases named <;> decide

theorem not_isBreak_of_no_letter (shows : isPrintable c = true) (nameless : escapeLetter? c = none) :
    isBreak c = false ∧ c ≠ '"' ∧ c ≠ '\\' := by
  refine ⟨Bool.eq_false_iff.2 fun ends => ?_, ?_, ?_⟩
  · simp only [isBreak, Bool.or_eq_true, decide_eq_true_eq] at ends
    rcases ends with (((rfl | rfl) | rfl) | rfl) | rfl <;> cases nameless
  · rintro rfl
    cases nameless
  · rintro rfl
    cases nameless

theorem two_le_utf8Size (large : ¬c.toNat ≤ 0xFF) : 2 ≤ c.utf8Size := by
  rw [Char.utf8Size]
  split
  · rename_i small
    exact absurd (Nat.le_trans (UInt32.le_iff_toNat_le.1 small) (by decide)) large
  · split
    · exact Nat.le_refl 2
    · split <;> decide

theorem four_le_utf8Size (large : ¬c.toNat ≤ 0xFFFF) : 4 ≤ c.utf8Size := by
  have above {bound : UInt32} (less : bound.toNat ≤ 0xFFFF) : ¬c.val ≤ bound := fun small =>
    large (Nat.le_trans (UInt32.le_iff_toNat_le.1 small) less)
  have size : c.utf8Size = 4 := by
    rw [Char.utf8Size, if_neg (above (by decide)), if_neg (above (by decide)), if_neg (above (by decide))]
  exact Nat.le_of_eq size.symm

theorem doubleSpelling (c : Char) : DoubleSpelling c (doubleCharacter c) := by
  unfold doubleCharacter
  split
  · rename_i sign named
    obtain ⟨meant, line, shows⟩ := escapeLetter?_meant named
    exact .letter meant line shows
  · rename_i nameless
    split
    · rename_i shows
      obtain ⟨line, plain⟩ := not_isBreak_of_no_letter shows nameless
      exact .shown shows line plain
    · split
      · rename_i small
        exact .number rfl rfl (by decide) (by decide) (by decide) (by omega)
          (by have := c.utf8Size_pos; omega)
      · split
        · rename_i large small
          exact .number rfl rfl (by decide) (by decide) (by decide) (by omega)
            (by have := two_le_utf8Size large; omega)
        · rename_i large
          have bound : c.toNat < 16 ^ 8 := c.val.toNat_lt
          exact .number rfl rfl (by decide) (by decide) (by decide) bound
            (by have := four_le_utf8Size large; omega)

variable {s : List Char}

theorem DoubleSpelling.shows_mem {d : Char} (spelt : DoubleSpelling c s) (mem : d ∈ s) :
    isPrintable d = true ∧ isBreak d = false := by
  cases spelt with
  | letter _ line shows =>
      simp only [List.mem_cons, List.not_mem_nil, or_false] at mem
      rcases mem with rfl | rfl
      · decide
      · exact ⟨shows, line⟩
  | shown shows line =>
      rw [List.mem_singleton.1 mem]
      exact ⟨shows, line⟩
  | number _ _ line shows =>
      rcases List.mem_cons.1 mem with rfl | mem
      · decide
      · rcases List.mem_cons.1 mem with rfl | mem
        · exact ⟨shows, line⟩
        · obtain ⟨digit, small, rfl⟩ := mem_upperHex mem
          exact shows_digitChar digit small

theorem DoubleSpelling.length_le (spelt : DoubleSpelling c s) : s.length ≤ 4 * c.utf8Size := by
  have := c.utf8Size_pos
  cases spelt with
  | letter => simp only [List.length_cons, List.length_nil]; omega
  | shown => simp only [List.length_cons, List.length_nil]; omega
  | number _ _ _ _ wide fits short =>
      simp only [List.length_cons, upperHex_length fits wide]
      exact short

theorem isValidChar_toNat (c : Char) : c.toNat.isValidChar := c.valid

theorem DoubleSpelling.past_eq (spelt : DoubleSpelling c s) : mark.past s = mark.along s.length :=
  Mark.past_line mark fun _ mem => (spelt.shows_mem mem).2

theorem DoubleSpelling.read (spelt : DoubleSpelling c s) (taken : List Char) :
    ∃ text' taken', (Gap.blanks taken').close text' = c :: (Gap.blanks taken).close text ∧
      quotedFrom .double start text (.blanks taken) ⟨s ++ rest, mark⟩ =
        quotedFrom .double start text' (.blanks taken') ⟨rest, mark.past s⟩ := by
  have indented : (Gap.blanks taken).Indented mark := fun broken => by cases broken
  rw [spelt.past_eq]
  cases spelt with
  | @letter sign meant line =>
      have escaped : escape start ⟨'\\' :: sign :: rest, mark⟩ = .ok (c, 1) := by
        simp only [escape, meant]
      exact ⟨_, [], rfl, quotedFrom_double_escape line escaped indented⟩
  | shown shows line plain =>
      by_cases space : isBlank c = true
      · exact ⟨text, c :: taken, Gap.close_addBlank .., quotedFrom_blank space⟩
      · rw [Bool.not_eq_true] at space
        have word : isGap c = false := by rw [isGap, space, line]; rfl
        exact ⟨_, [], rfl, (quotedFrom_double_word word plain.2 indented).trans (if_neg plain.1)⟩
  | @number sign width numbers meant line _ wide fits =>
      have escaped : escape start ⟨'\\' :: sign :: (upperHex width c.toNat ++ rest), mark⟩ =
          .ok (c, width + 1) := by
        simp only [escape, meant, numbers, hexNumber?_upperHex fits wide, isValidChar_toNat, if_true,
          Char.ofNat_toNat]
      have passed := Cursor.pass_append ('\\' :: sign :: upperHex width c.toNat) rest mark
      refine ⟨_, [], rfl, (quotedFrom_double_escape line escaped indented).trans ?_⟩
      rw [← passed, List.length_cons, List.length_cons, upperHex_length fits wide]
      rfl

theorem quotedFrom_double (chars taken : List Char) :
    quotedFrom .double start text (.blanks taken) ⟨chars.flatMap doubleCharacter ++ '"' :: rest, mark⟩ =
      .ok (chars.reverseAux ((Gap.blanks taken).close text),
        ⟨rest, mark.past (chars.flatMap doubleCharacter ++ ['"'])⟩) := by
  induction chars generalizing text taken mark with
  | nil =>
      rw [List.flatMap_nil, List.nil_append, quotedFrom_double_word (by decide) (by decide) fun h => by cases h]
      rfl
  | cons c chars ih =>
      obtain ⟨text', taken', close, read⟩ := (doubleSpelling c).read taken
      rw [List.flatMap_cons, List.append_assoc, read, ih, close, List.append_assoc,
        mark.past_append (doubleCharacter c)]
      rfl

theorem readQuoted_double (mark : Mark) (chars rest : List Char) :
    readQuoted .double ⟨'"' :: chars.flatMap doubleCharacter ++ '"' :: rest, mark⟩ =
      .ok (⟨.scalar (String.ofList chars) .double, mark,
          mark.past ('"' :: chars.flatMap doubleCharacter ++ ['"'])⟩,
        ⟨rest, mark.past ('"' :: chars.flatMap doubleCharacter ++ ['"'])⟩) := by
  rw [readQuoted]
  simp only [Cursor.pass, List.cons_append, List.drop_succ_cons, List.drop_zero, Gap.empty,
    quotedFrom_double chars []]
  rw [Mark.past_char mark (by decide)]
  simp [Gap.close, Gap.text, Except.bind, bind, pure, Except.pure, Quote.style]

end SecretStore.Yaml
