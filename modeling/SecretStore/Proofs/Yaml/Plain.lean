import SecretStore.Proofs.Yaml.Passage

namespace SecretStore.Yaml

variable {place : Surroundings} {start mark : Mark} {text : List Char} {gap : Gap} {c : Char}
  {rest : List Char}

theorem isTornColon_block (text : List Char) : isTornColon false text = false := by
  unfold isTornColon
  split <;> rfl

theorem plainFrom_space (space : isSpace c = true) :
    plainFrom place start text gap ⟨c :: rest, mark⟩ =
      plainFrom place start text (gap.addBlank c) ⟨rest, mark.along 1⟩ := by
  rw [isSpace, decide_eq_true_eq] at space
  subst space
  rw [plainFrom]
  simp [show isBlank ' ' = true by decide, Cursor.pass]

theorem plainFrom_break (shows : isPrintable c = true) (ends : isBreak c = true) :
    plainFrom place start text gap ⟨c :: rest, mark⟩ =
      plainFrom place start text (gap.addBreak c) ⟨rest, mark.nextLine 1⟩ := by
  have written := break?_written shows ends rest
  rw [plainFrom]
  simp only [not_isBlank_of_isBreak ends, Bool.false_eq_true, if_false]
  split
  · rename_i found
    rw [written] at found
    cases found
    rfl
  · rename_i missed
    rw [written] at missed
    cases missed

theorem plainFrom_word (word : isGap c = false) (inBlock : place.inFlow = false) :
    plainFrom place start text gap ⟨c :: rest, mark⟩ =
      if gap ≠ .empty ∧ stopsWord place ⟨c :: rest, mark⟩ then .ok ((text, gap), ⟨c :: rest, mark⟩)
      else if stopsPlain false (c :: rest) then .ok ((text, gap), ⟨c :: rest, mark⟩)
      else plainFrom place start (c :: gap.close text) .empty ⟨rest, mark.along 1⟩ := by
  simp only [isGap, Bool.or_eq_false_iff] at word
  rw [plainFrom]
  simp only [word.1, Bool.false_eq_true, if_false]
  split
  · rename_i found
    rw [break?_line word.2] at found
    cases found
  · simp only [inBlock, isTornColon_block, Bool.false_eq_true, if_false, Cursor.pass, List.drop_one,
      List.tail_cons]

/-- `before` is the character in front of the text. -/
structure FitsPlain (before : Char) (chars : List Char) : Prop where
  shows : ∀ c ∈ chars, isPrintable c = true ∧ isBreak c = false
  signless : hasInnerSign (before :: chars) = false
  ends : (before :: chars).getLast?.all (!isSpace ·) = true

variable {before : Char} {chars : List Char}

theorem FitsPlain.tail (fits : FitsPlain before (c :: chars)) : FitsPlain c chars where
  shows d mem := fits.shows d (List.mem_cons_of_mem c mem)
  signless := by
    have signless := fits.signless
    simp only [hasInnerSign, Bool.or_eq_false_iff] at signless
    exact signless.2
  ends := by
    have ends := fits.ends
    rwa [List.getLast?_cons_cons] at ends

theorem stopsPlain_append (signless : (decide (c = ':') && endsWord chars) = false)
    (rest : List Char) : stopsPlain false (c :: (chars ++ rest)) = false := by
  simp only [stopsPlain, Bool.false_and, Bool.or_false]
  cases chars with
  | nil =>
      rw [show endsWord [] = true from rfl, Bool.and_true] at signless
      rw [signless, Bool.false_and]
  | cons d chars => rwa [endsWord_append (List.cons_ne_nil d chars)]

theorem FitsPlain.goes_on (fits : FitsPlain before (c :: chars)) (rest : List Char) :
    stopsPlain false (c :: (chars ++ rest)) = false := by
  have signless := fits.signless
  simp only [hasInnerSign, Bool.or_eq_false_iff] at signless
  exact stopsPlain_append signless.1.1 rest

theorem FitsPlain.not_comment (fits : FitsPlain before (c :: chars)) (space : isSpace before = true) :
    c ≠ '#' := by
  have signless := fits.signless
  rintro rfl
  rw [isSpace, decide_eq_true_eq] at space
  subst space
  simp only [hasInnerSign, Bool.or_eq_false_iff] at signless
  exact absurd signless.1.2 (by decide)

theorem plainFrom_words {taken : List Char} (fits : FitsPlain before chars)
    (inner : taken ≠ [] → isSpace before = true) (inBlock : place.inFlow = false)
    (inside : place.column ≤ mark.column) (indented : 0 < mark.column) :
    plainFrom place start text (.blanks taken) ⟨chars ++ rest, mark⟩ =
      plainFrom place start (chars.reverseAux ((Gap.blanks taken).close text)) .empty
        ⟨rest, mark.past chars⟩ := by
  induction chars generalizing before text taken mark with
  | nil =>
      have none : taken = [] := by
        cases taken with
        | nil => rfl
        | cons => simpa [inner] using fits.ends
      subst none
      rfl
  | cons c chars ih =>
      have line := (fits.shows c (by simp)).2
      rw [Mark.past_char mark line, List.cons_append]
      by_cases space : isSpace c = true
      · rw [plainFrom_space space, Gap.addBlank, ih fits.tail (fun _ => space)]
        · simp [Gap.close, Gap.text]
        · exact Nat.le_succ_of_le inside
        · exact Nat.succ_pos _
      · rw [Bool.not_eq_true] at space
        have word : isGap c = false := by
          rw [isGap, isBlank_eq_isSpace (fits.shows c (by simp)).1, space, line]
          rfl
        -- Behind a blank only a comment would stop the text, and no `#` stands behind a space in it.
        have goes : ¬(Gap.blanks taken ≠ .empty ∧ stopsWord place ⟨c :: (chars ++ rest), mark⟩) := by
          rintro ⟨given, stops⟩
          have comment := fits.not_comment (inner fun none => given (by rw [none]; rfl))
          simp only [stopsWord, inBlock, Cursor.startsWith, List.head?_cons, Option.some.injEq, comment,
            decide_false, Bool.or_false, Bool.not_false, Bool.true_and, Bool.or_eq_true,
            Bool.and_eq_true, decide_eq_true_eq] at stops
          omega
        rw [plainFrom_word word inBlock, if_neg goes, fits.goes_on, if_neg Bool.false_ne_true]
        exact ih fits.tail (fun given => absurd rfl given) (Nat.le_succ_of_le inside) (Nat.succ_pos _)

theorem plainFrom_colon (ends : endsWord rest = true) (inBlock : place.inFlow = false) :
    plainFrom place start text .empty ⟨':' :: rest, mark⟩ =
      .ok ((text, .empty), ⟨':' :: rest, mark⟩) := by
  rw [plainFrom_word (by decide) inBlock, if_neg fun h => h.1 rfl, stopsPlain, ends]
  rfl

theorem plainFrom_spaces {first : Option Char} {more : List Char} (count : Nat) :
    plainFrom place start text (.lines first more) ⟨spaces count ++ rest, mark⟩ =
      plainFrom place start text (.lines first more) ⟨rest, mark.along count⟩ := by
  induction count generalizing mark with
  | zero => rfl
  | succ count ih =>
      refine (plainFrom_space (show isSpace ' ' = true by decide)).trans (ih.trans ?_)
      simp only [Mark.along, Nat.add_assoc, Nat.add_comm 1]

theorem plainFrom_line {column : Nat} {next : List Char} (resumes : Resumes next)
    (outside : column < place.column) (inBlock : place.inFlow = false) :
    plainFrom place start text .empty ⟨'\n' :: (spaces column ++ next), mark⟩ =
      .ok ((text, .lines (some '\n') []), ⟨next, mark.past ('\n' :: spaces column)⟩) := by
  rw [plainFrom_break (by decide) (by decide), Gap.empty, Gap.addBreak, plainFrom_spaces,
    Mark.past_break mark (by decide), Mark.past_spaces]
  cases next with
  | nil => rw [plainFrom]
  | cons c next =>
      obtain ⟨blank, line, -⟩ := isSolid_iff.1 resumes
      have word : isGap c = false := by rw [isGap, blank, line]; rfl
      have stops : stopsWord place ⟨c :: next, (mark.nextLine 1).along column⟩ = true := by
        simp [stopsWord, inBlock, Mark.along, Mark.nextLine, outside]
      rw [plainFrom_word word inBlock, if_pos ⟨by decide, stops⟩]

/-- A text that may be written without quotes, unless it is empty. -/
structure FitsPlainly (chars : List Char) : Prop where
  allowed : allowsPlain chars = true
  given : chars ≠ []

theorem FitsPlainly.first (fits : FitsPlainly (c :: chars)) :
    FitsPlain c chars ∧ isGap c = false ∧ startsWithSign (c :: chars) = false ∧
      isPrintable c = true := by
  have allowed := fits.allowed
  simp only [allowsPlain, Bool.and_eq_true, List.all_eq_true, Bool.not_eq_true',
    List.head?_cons, Option.all_some] at allowed
  obtain ⟨⟨⟨⟨shows, starts⟩, ends⟩, sign⟩, signless⟩ := allowed
  have first := shows c (by simp)
  refine ⟨⟨fun d mem => shows d (by simp [mem]), signless, ends⟩, ?_, sign, first.1⟩
  rw [isGap, isBlank_eq_isSpace first.1, starts, first.2]
  rfl

theorem startsWithSign_cons (starts : startsWithSign (c :: chars) = false) :
    isIndicator c = false ∧ ((c = '?' ∨ c = ':' ∨ c = '-') → endsWord chars = false) := by
  unfold startsWithSign at starts
  split at starts
  · cases starts
  · cases starts
  · rename_i eq
    cases eq
    simp only [Bool.or_eq_false_iff, Bool.and_eq_false_iff, decide_eq_false_iff_not] at starts
    refine ⟨starts.1, fun sign => ?_⟩
    rcases starts.2 with none | ends
    · tauto
    · exact ends
  · rename_i eq
    cases eq

theorem startsWithSign_colon (starts : startsWithSign (c :: chars) = false) :
    (decide (c = ':') && endsWord chars) = false := by
  by_cases colon : c = ':'
  · rw [(startsWithSign_cons starts).2 (.inr (.inl colon)), Bool.and_false]
  · rw [decide_eq_false colon, Bool.false_and]

theorem plainFrom_text (fits : FitsPlainly chars) (inBlock : place.inFlow = false)
    (inside : place.column ≤ mark.column + 1) :
    plainFrom place start [] .empty ⟨chars ++ rest, mark⟩ =
      plainFrom place start chars.reverse .empty ⟨rest, mark.past chars⟩ := by
  cases chars with
  | nil => exact absurd rfl fits.given
  | cons c chars =>
      obtain ⟨tail, word, sign, shows⟩ := fits.first
      have line : isBreak c = false := by simp_all [isGap]
      have goes := stopsPlain_append (startsWithSign_colon sign) rest
      rw [List.cons_append, plainFrom_word word inBlock, if_neg fun h => h.1 rfl, goes,
        if_neg Bool.false_ne_true, Mark.past_char mark line]
      refine (plainFrom_words tail (fun given => absurd rfl given) inBlock inside
        (Nat.succ_pos _)).trans ?_
      rw [List.reverse]
      rfl

theorem readPlain_key (fits : FitsPlainly chars) (inBlock : place.inFlow = false)
    (inside : place.column ≤ mark.column + 1) (ends : endsWord rest = true) :
    readPlain place ⟨chars ++ ':' :: rest, mark⟩ =
      .ok (⟨.scalar (String.ofList chars) .plain, mark, mark.past chars⟩, false,
        ⟨':' :: rest, mark.past chars⟩) := by
  rw [readPlain]
  simp only [plainFrom_text fits inBlock inside, plainFrom_colon ends inBlock, bind, Except.bind, pure,
    Except.pure, List.reverse_reverse]
  rfl

theorem readPlain_value {column : Nat} {next : List Char} (fits : FitsPlainly chars)
    (inBlock : place.inFlow = false) (inside : place.column ≤ mark.column + 1)
    (resumes : Resumes next) (outside : column < place.column) :
    readPlain place ⟨chars ++ '\n' :: (spaces column ++ next), mark⟩ =
      .ok (⟨.scalar (String.ofList chars) .plain, mark,
          mark.past (chars ++ '\n' :: spaces column)⟩, true,
        ⟨next, mark.past (chars ++ '\n' :: spaces column)⟩) := by
  rw [readPlain]
  simp only [plainFrom_text fits inBlock inside, plainFrom_line resumes outside inBlock, bind,
    Except.bind, pure, Except.pure, List.reverse_reverse, Mark.past_append]
  rfl

end SecretStore.Yaml
