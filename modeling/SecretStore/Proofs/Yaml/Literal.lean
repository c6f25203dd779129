import Mathlib.Data.List.Basic
import SecretStore.Proofs.Yaml.Passage

namespace SecretStore.Yaml

/-! ## Lines -/

/-- Nonempty lines, each with all line breaks up to the next one. -/
inductive Lines : List Char → Prop where
  | none : Lines []
  | line {line breaks more : List Char} {c : Char} (given : line ≠ [])
      (inner : ∀ d ∈ line, isBreak d = false) (ends : isBreak c = true)
      (empty : ∀ d ∈ breaks, isBreak d = true) (others : Lines more) :
      Lines (line ++ c :: (breaks ++ more))

theorem Lines.starts {text : List Char} (lines : Lines text) :
    text.head?.all (!isBreak ·) = true := by
  cases lines with
  | none => rfl
  | @line line _ _ _ given inner =>
      cases line with
      | nil => exact absurd rfl given
      | cons d line => simp [inner d (by simp)]

theorem exists_lines {text : List Char} (ends : text.getLast?.all isBreak = true) :
    ∃ breaks more, text = breaks ++ more ∧ (∀ c ∈ breaks, isBreak c = true) ∧ Lines more := by
  induction text with
  | nil => exact ⟨[], [], rfl, by simp, .none⟩
  | cons c rest ih =>
      have tail : rest.getLast?.all isBreak = true := by
        cases rest with
        | nil => rfl
        | cons d rest => rwa [List.getLast?_cons_cons] at ends
      obtain ⟨breaks, more, rfl, empty, lines⟩ := ih tail
      -- Another character in front of breaks makes them the end of its line.
      by_cases final : isBreak c = true
      · refine ⟨c :: breaks, more, rfl, fun d mem => ?_, lines⟩
        rcases List.mem_cons.1 mem with rfl | mem
        · exact final
        · exact empty d mem
      · rw [Bool.not_eq_true] at final
        refine ⟨[], c :: (breaks ++ more), rfl, by simp, ?_⟩
        cases breaks with
        | cons b breaks =>
            have inner : ∀ d ∈ [c], isBreak d = false := by simpa using final
            exact .line (List.cons_ne_nil c []) inner (empty b (by simp))
              (fun d mem => empty d (by simp [mem])) lines
        | nil =>
            cases lines with
            | none => simp [final] at ends
            | @line line _ _ _ _ inner =>
                have inner : ∀ d ∈ c :: line, isBreak d = false := fun d mem => by
                  rcases List.mem_cons.1 mem with rfl | mem
                  · exact final
                  · exact inner d mem
                exact .line (List.cons_ne_nil c line) inner ‹_› ‹_› ‹_›

variable {indent : Nat} {afterBreak : Bool} {line breaks more : List Char} {c : Char}

theorem literalBody_breaks (empty : ∀ d ∈ breaks, isBreak d = true) :
    literalBody indent true (breaks ++ more) = breaks ++ literalBody indent true more := by
  induction breaks with
  | nil => rfl
  | cons b breaks ih =>
      rw [List.cons_append, literalBody, if_pos (empty b (by simp)),
        ih fun d mem => empty d (by simp [mem])]
      rfl

theorem literalBody_line (inner : ∀ d ∈ line, isBreak d = false) :
    literalBody indent false (line ++ more) = line ++ literalBody indent false more := by
  induction line with
  | nil => rfl
  | cons d line ih =>
      rw [List.cons_append, literalBody, inner d (by simp), ih fun e mem => inner e (by simp [mem])]
      rfl

theorem literalBody_break (ends : isBreak c = true) :
    literalBody indent afterBreak (c :: more) = c :: literalBody indent true more := by
  rw [literalBody, if_pos ends]

theorem literalBody_starts (starts : more.head?.all (!isBreak ·) = true) (given : more ≠ []) :
    literalBody indent true more = spaces indent ++ literalBody indent false more := by
  cases more with
  | nil => exact absurd rfl given
  | cons d more =>
      have inner : isBreak d = false := by simpa using starts
      simp only [literalBody, inner, Bool.false_eq_true, if_false, if_true, List.nil_append]

theorem endLine_append (first : List Char) {chars : List Char} (given : chars ≠ []) :
    endLine (first ++ chars) = first ++ endLine chars := by
  unfold endLine
  rw [List.getLast?_append_of_ne_nil _ given]
  split
  · rfl
  · rw [List.append_assoc]

theorem literalBody_getLast? (chars : List Char) :
    (literalBody indent afterBreak chars).getLast? = chars.getLast? := by
  induction chars generalizing afterBreak with
  | nil => rfl
  | cons d chars ih =>
      rw [literalBody]
      split
      · rw [List.getLast?_cons, List.getLast?_cons, ih]
      · rw [List.getLast?_append_of_ne_nil _ (List.cons_ne_nil _ _), List.getLast?_cons,
          List.getLast?_cons, ih]

theorem literalBody_append_break (chars : List Char) :
    literalBody indent afterBreak (chars ++ ['\n']) = literalBody indent afterBreak chars ++ ['\n'] := by
  induction chars generalizing afterBreak with
  | nil => rfl
  | cons d chars ih =>
      rw [List.cons_append, literalBody, literalBody]
      split
      · rw [ih, List.cons_append]
      · rw [ih, List.append_assoc, List.cons_append]

theorem endLine_literalBody {chars : List Char} (given : chars ≠ []) :
    endLine ('\n' :: literalBody indent afterBreak chars) =
      '\n' :: literalBody indent afterBreak (endLine chars) := by
  obtain ⟨last, some⟩ : ∃ last, chars.getLast? = some last :=
    ⟨_, List.getLast?_eq_some_getLast given⟩
  have final : ('\n' :: literalBody indent afterBreak chars).getLast? = chars.getLast? := by
    rw [List.getLast?_cons, literalBody_getLast?, some]
    rfl
  unfold endLine
  rw [final]
  split
  · rfl
  · rw [literalBody_append_break, List.cons_append]

/-! ## Empty lines -/

variable {bound : Option Nat} {start mark : Mark} {taken rest next : List Char} {furthest : Nat}

theorem takeEmptyLines_space (below : belowIndent bound mark = true) :
    takeEmptyLines bound start taken furthest ⟨' ' :: rest, mark⟩ =
      takeEmptyLines bound start taken (max furthest mark.column) ⟨rest, mark.along 1⟩ := by
  rw [takeEmptyLines]
  simp [below, Cursor.pass]

theorem takeEmptyLines_break (shows : isPrintable c = true) (ends : isBreak c = true) :
    takeEmptyLines bound start taken furthest ⟨c :: rest, mark⟩ =
      takeEmptyLines bound start (c :: taken) (max furthest mark.column) ⟨rest, mark.nextLine 1⟩ := by
  have blank := not_isBlank_of_isBreak ends
  simp only [isBlank, Bool.or_eq_false_iff, decide_eq_false_iff_not] at blank
  have written := break?_written shows ends rest
  rw [takeEmptyLines]
  simp only [blank.1, blank.2, and_false, if_false]
  split
  · rename_i found
    rw [written] at found
    cases found
    rfl
  · rename_i missed
    rw [written] at missed
    cases missed

def Stops (bound : Option Nat) (mark : Mark) (next : List Char) : Prop :=
  ∀ c ∈ next.head?, isBreak c = false ∧ (belowIndent bound mark = true → isBlank c = false)

theorem takeEmptyLines_stop (stops : Stops bound mark next) :
    takeEmptyLines bound start taken furthest ⟨next, mark⟩ =
      .ok ((taken, max furthest mark.column), ⟨next, mark⟩) := by
  rw [takeEmptyLines]
  cases next with
  | nil => rfl
  | cons c next =>
      obtain ⟨line, blank⟩ := stops c rfl
      have below (sign : Char) (spaced : isBlank sign = true) :
          ¬(belowIndent bound mark = true ∧ c = sign) := by
        rintro ⟨below, rfl⟩
        rw [blank below] at spaced
        cases spaced
      simp only [below ' ' (by decide), below '\t' (by decide), if_false]
      split
      · rename_i found
        rw [break?_line line] at found
        cases found
      · rfl

theorem takeEmptyLines_indentation (count : Nat) (within : bound.all (mark.column + count ≤ ·) = true)
    (stops : Stops bound (mark.along count) next) :
    takeEmptyLines bound start taken furthest ⟨spaces count ++ next, mark⟩ =
      .ok ((taken, max furthest (mark.column + count)), ⟨next, mark.along count⟩) := by
  induction count generalizing mark furthest with
  | zero => exact takeEmptyLines_stop stops
  | succ count ih =>
      have shift : (mark.along 1).along count = mark.along (count + 1) := by
        simp only [Mark.along, Nat.add_assoc, Nat.add_comm 1]
      have below : belowIndent bound mark = true := by
        cases bound with
        | none => rfl
        | some bound =>
            simp only [belowIndent, Option.all_some, decide_eq_true_eq] at within ⊢
            omega
      have split : spaces (count + 1) ++ next = ' ' :: (spaces count ++ next) := rfl
      rw [split, takeEmptyLines_space below]
      rw [ih _ (by rwa [shift]), shift]
      · simp only [Mark.along, Except.ok.injEq, Prod.mk.injEq, true_and, and_true]
        omega
      · cases bound with
        | none => rfl
        | some bound =>
            simp only [Option.all_some, decide_eq_true_eq] at within
            exact decide_eq_true (by simp only [Mark.along]; omega)

theorem takeEmptyLines_lines (bound : Option Nat) (count : Nat)
    (shows : ∀ d ∈ breaks, isPrintable d = true) (empty : ∀ d ∈ breaks, isBreak d = true)
    (first : mark.column = 0)
    (within : bound.all (count ≤ ·) = true)
    (stops : Stops bound (mark.past (breaks ++ spaces count)) next) :
    ∃ reached, takeEmptyLines bound start taken furthest ⟨breaks ++ (spaces count ++ next), mark⟩ =
        .ok ((breaks.reverse ++ taken, reached), ⟨next, mark.past (breaks ++ spaces count)⟩) ∧
      (breaks = [] → reached = max furthest count) := by
  induction breaks generalizing mark taken furthest with
  | nil =>
      rw [List.nil_append, Mark.past_spaces] at stops
      refine ⟨max furthest count, ?_, fun _ => rfl⟩
      simp only [List.nil_append, List.reverse_nil, Mark.past_spaces]
      rw [takeEmptyLines_indentation count (by rwa [first, Nat.zero_add]) stops, first, Nat.zero_add]
  | cons b breaks ih =>
      have ends := empty b (by simp)
      rw [List.cons_append, Mark.past_break mark ends] at stops
      obtain ⟨reached, read, -⟩ := ih (fun d mem => shows d (by simp [mem]))
        (fun d mem => empty d (by simp [mem])) rfl stops
      refine ⟨reached, ?_, fun none => by cases none⟩
      rw [List.cons_append, List.cons_append, takeEmptyLines_break (shows b (by simp)) ends, read,
        Mark.past_break mark ends, List.reverse_cons, List.append_assoc]
      rfl

/-! ## Lines of a block -/

theorem takeLine_written (shows : isPrintable c = true) (ends : isBreak c = true)
    (inner : ∀ d ∈ line, isBreak d = false) :
    Cursor.takeLine ⟨line ++ c :: rest, mark⟩ =
      (line, some c, ⟨rest, mark.past (line ++ [c])⟩) := by
  have run : (line ++ c :: rest).takeWhile (fun d => !isBreak d) = line := by
    rw [List.takeWhile_append_of_pos fun d mem => by simp [inner d mem]]
    simp [ends]
  rw [Mark.past_append, Mark.past_line mark inner, Mark.past_break _ ends]
  simp only [Cursor.takeLine, Cursor.takeRun, run, Cursor.pass_append, Cursor.takeBreak,
    break?_written shows ends]
  rfl

/-- The text read so far, with its last line break and the empty lines behind it. -/
def BlockText.Whole (text : BlockText) : Prop :=
  text.ended.any isBreak = true ∧ ∀ c ∈ text.empty, isBreak c = true

variable {text : BlockText}

theorem blockFrom_end (outside : mark.column ≠ indent ∨ next = []) :
    blockFrom true indent start text ⟨next, mark⟩ = .ok (text, ⟨next, mark⟩) := by
  rw [blockFrom, dif_neg]
  rintro ⟨inside, given⟩
  exact outside.elim (· inside) given

theorem blockFrom_line {empty : List Char} {reached : Nat} {after : Cursor}
    (shows : isPrintable c = true) (ends : isBreak c = true)
    (inner : ∀ d ∈ line, isBreak d = false) (inside : mark.column = indent)
    (read : takeEmptyLines (some indent) start [] 0 ⟨rest, mark.past (line ++ [c])⟩ =
      .ok ((empty, reached), after)) :
    blockFrom true indent start text ⟨line ++ c :: rest, mark⟩ =
      blockFrom true indent start { text.addLine true line (some c) with empty } after := by
  rw [blockFrom, dif_pos ⟨inside, by simp⟩]
  split
  rename_i took
  rw [takeLine_written shows ends inner] at took
  cases took
  split
  · rename_i failed
    rw [read] at failed
    cases failed
  · rename_i found
    rw [read] at found
    cases found
    rfl

theorem close_addLine (text : BlockText) (line : List Char) (ended : Option Char)
    (empty : List Char) :
    BlockText.close { text.addLine true line ended with empty } .keep =
      text.close .keep ++ line ++ ended.toList ++ empty.reverse := by
  simp [BlockText.close, BlockText.addLine, BlockText.joint]

theorem belowIndent_at (inside : mark.column = indent) : belowIndent (some indent) mark = false := by
  simp [belowIndent, inside]

theorem Resumes.stops (resumes : Resumes next) : Stops bound mark next := by
  intro c mem
  have solid : isSolid c = true := by simpa [Resumes, Option.mem_def.1 mem] using resumes
  obtain ⟨blank, line, -⟩ := isSolid_iff.1 solid
  exact ⟨line, fun _ => blank⟩

def Fits (indent : Nat) (bound : Option Nat) (more : List Char) : Prop :=
  bound = some indent ∨ bound = none ∧ more.head?.all (!isBlank ·) = true

theorem stops_literalBody (rest : List Char) (starts : more.head?.all (!isBreak ·) = true)
    (given : more ≠ []) (inside : mark.column = indent) (fits : Fits indent bound more) :
    Stops bound mark (literalBody indent false more ++ rest) := by
  cases more with
  | nil => exact absurd rfl given
  | cons d more =>
      have inner : isBreak d = false := by simpa using starts
      intro c mem
      simp only [literalBody, inner, Bool.false_eq_true, if_false, List.nil_append, List.cons_append,
        List.head?_cons, Option.mem_some_iff] at mem
      subst mem
      refine ⟨inner, fun below => ?_⟩
      rcases fits with rfl | ⟨-, solid⟩
      · rw [belowIndent_at inside] at below
        cases below
      · simpa using solid

theorem past_breaks_column (count : Nat) (empty : ∀ d ∈ breaks, isBreak d = true)
    (first : mark.column = 0) : (mark.past (breaks ++ spaces count)).column = count := by
  induction breaks generalizing mark with
  | nil => rw [List.nil_append, Mark.past_spaces, Mark.along, first, Nat.zero_add]
  | cons b breaks ih =>
      rw [List.cons_append, Mark.past_break mark (empty b (by simp))]
      exact ih (fun d mem => empty d (by simp [mem])) rfl

theorem blockFrom_lines {column : Nat} (lines : Lines more) (given : more ≠ [])
    (shows : ∀ d ∈ more, isPrintable d = true) (inside : mark.column = indent)
    (resumes : Resumes next) (outside : column < indent) :
    ∃ text', blockFrom true indent start text
          ⟨literalBody indent false more ++ (spaces column ++ next), mark⟩ =
        .ok (text', ⟨next, mark.past (literalBody indent false more ++ spaces column)⟩) ∧
      text'.close .keep = text.close .keep ++ more ∧ text'.Whole := by
  induction lines generalizing text mark with
  | none => exact absurd rfl given
  | @line line breaks more c _ inner ends empty others ih =>
      have shown : isPrintable c = true := shows c (by simp)
      have first : (mark.past (line ++ [c])).column = 0 := by
        rw [Mark.past_append, Mark.past_break _ ends]
        rfl
      have blank : ∀ d ∈ breaks, isPrintable d = true := fun d mem => shows d (by simp [mem])
      have gap : ∀ d ∈ breaks.reverse ++ [], isBreak d = true := fun d mem => empty d (by simpa using mem)
      rw [literalBody_line inner, literalBody_break ends, literalBody_breaks empty]
      -- Behind the last line the indentation is less, which ends the block.
      by_cases last : more = []
      · subst last
        obtain ⟨_, read, -⟩ := takeEmptyLines_lines (some indent) column blank empty first
          (decide_eq_true (Nat.le_of_lt outside)) resumes.stops
        have column := past_breaks_column column empty first
        refine ⟨_, ?_, (close_addLine text line (some c) _).trans ?_, ends, gap⟩
        · simp only [literalBody, List.append_nil, List.append_assoc, List.cons_append]
          rw [blockFrom_line shown ends inner inside read, blockFrom_end (.inl (by omega))]
          simp [Mark.past_append, Mark.past_cons]
        · simp
      · obtain ⟨_, read, -⟩ := takeEmptyLines_lines (some indent) indent blank empty first
          (decide_eq_true (Nat.le_refl _)) (stops_literalBody (spaces column ++ next) others.starts last
            (past_breaks_column indent empty first) (.inl rfl))
        obtain ⟨text', rest, closed, whole⟩ := ih last (fun d mem => shows d (by simp [mem]))
          (past_breaks_column _ empty first)
        refine ⟨text', ?_, closed.trans ?_, whole⟩
        · rw [literalBody_starts others.starts last]
          simp only [List.append_assoc, List.cons_append]
          rw [blockFrom_line shown ends inner inside read, rest]
          simp [Mark.past_append, Mark.past_cons]
        · rw [close_addLine]
          simp

/-! ## Headers -/

def chompOf (chars : List Char) : Chomp :=
  match chars.reverse with
  | [] => .strip
  | last :: before =>
    if !isBreak last then .strip else if before.head?.all isBreak then .keep else .clip

def Chomp.signs : Chomp → List Char
  | .strip => ['-']
  | .clip => []
  | .keep => ['+']

def hidesIndent (chars : List Char) : Bool := chars.head?.any fun c => isSpace c || isBreak c

def indentSigns (hides : Bool) : List Char := if hides then ['2'] else []

theorem literalHeader_eq (chars : List Char) :
    literalHeader chars = '|' :: (indentSigns (hidesIndent chars) ++ (chompOf chars).signs) := by
  rw [literalHeader, List.cons_append]
  refine congrArg (fun signs => '|' :: (indentSigns (hidesIndent chars) ++ signs)) ?_
  unfold chompOf
  cases chars.reverse with
  | nil => rfl
  | cons last before =>
      dsimp only
      split
      · rfl
      · split <;> rfl

theorem read_header (hides : Bool) (chomp : Chomp) :
    BlockHeader.read start ⟨indentSigns hides ++ chomp.signs ++ '\n' :: rest, mark⟩ =
      .ok (⟨chomp, if hides then some 2 else none⟩,
        ⟨'\n' :: rest, mark.past (indentSigns hides ++ chomp.signs)⟩) := by
  cases hides <;> cases chomp <;> rfl

theorem finishLine_break {problem : Problem} {during : Activity} :
    Cursor.finishLine problem during start ⟨'\n' :: rest, mark⟩ = .ok ⟨rest, mark.nextLine 1⟩ := rfl

theorem BlockText.close_keep (text : BlockText) :
    text.close .keep = text.lines.reverse ++ text.ended.toList ++ text.empty.reverse := rfl

theorem BlockText.Whole.single {front : List Char} {last : Char} (whole : text.Whole)
    (closed : text.close .keep = front ++ [last])
    (solid : front.reverse.head?.all (!isBreak ·) = true) :
    text.lines.reverse = front ∧ text.ended = some last := by
  obtain ⟨e, ended, ends⟩ := (Option.any_eq_true _ _).1 whole.1
  have turned := congrArg List.reverse closed
  rw [BlockText.close_keep, ended] at turned
  simp only [Option.toList_some, List.reverse_append, List.reverse_reverse, List.reverse_singleton,
    List.singleton_append] at turned
  cases eq : text.empty with
  | nil =>
      rw [eq] at turned
      simp only [List.nil_append, List.cons.injEq] at turned
      exact ⟨by rw [turned.2, List.reverse_reverse], by rw [ended, turned.1]⟩
  | cons b breaks =>
      rw [eq] at turned
      simp only [List.cons_append, List.cons.injEq] at turned
      rw [← turned.2] at solid
      cases breaks with
      | nil => simp [ends] at solid
      | cons d breaks => simp [whole.2 d (by simp [eq])] at solid

/-- Chomping as the header says gives the text back. -/
theorem BlockText.Whole.close_chomp {chars : List Char} (whole : text.Whole)
    (closed : text.close .keep = endLine chars) : text.close (chompOf chars) = chars := by
  unfold chompOf
  cases turned : chars.reverse with
  | nil =>
      obtain rfl : chars = [] := List.reverse_eq_nil_iff.1 turned
      exact (whole.single closed rfl).1
  | cons last before =>
      obtain rfl : chars = before.reverse ++ [last] := by
        rw [← List.reverse_reverse chars, turned, List.reverse_cons]
      dsimp only
      by_cases ends : isBreak last = true
      · have same : endLine (before.reverse ++ [last]) = before.reverse ++ [last] := by
          simp [endLine, ends]
        rw [same] at closed
        simp only [ends, Bool.not_true, Bool.false_eq_true, if_false]
        split
        · exact closed
        · rename_i solid
          have starts : before.reverse.reverse.head?.all (!isBreak ·) = true := by
            rw [List.reverse_reverse]
            cases before with
            | nil => rfl
            | cons d before => simpa using solid
          obtain ⟨lines, ended⟩ := whole.single closed starts
          rw [BlockText.close, lines, ended]
          rfl
      · rw [Bool.not_eq_true] at ends
        have longer : endLine (before.reverse ++ [last]) = before.reverse ++ [last] ++ ['\n'] := by
          simp [endLine, ends]
        rw [longer] at closed
        simp only [ends, Bool.not_false, if_true]
        exact (whole.single closed (by simp [ends])).1

/-! ## Whole texts -/

theorem endLine_ends (chars : List Char) : (endLine chars).getLast?.all isBreak = true := by
  unfold endLine
  split
  · rename_i ends
    cases last : chars.getLast? with
    | none => rfl
    | some c => simpa [last] using ends
  · simp [show isBreak '\n' = true by decide]

theorem endLine_shows {chars : List Char} (shows : ∀ d ∈ chars, isPrintable d = true) :
    ∀ d ∈ endLine chars, isPrintable d = true := by
  intro d mem
  unfold endLine at mem
  split at mem
  · exact shows d mem
  · rcases List.mem_append.1 mem with mem | mem
    · exact shows d mem
    · rw [List.mem_singleton.1 mem]
      decide

theorem endLine_head {chars : List Char} (given : chars ≠ []) : (endLine chars).head? = chars.head? := by
  unfold endLine
  split
  · rfl
  · cases chars with
    | nil => exact absurd rfl given
    | cons c chars => rfl

theorem shown_start {chars : List Char} (given : chars ≠ []) (shown : hidesIndent chars = false)
    (split : endLine chars = breaks ++ more) (empty : ∀ d ∈ breaks, isBreak d = true) :
    breaks = [] ∧ more ≠ [] := by
  have head := endLine_head given
  cases chars with
  | nil => exact absurd rfl given
  | cons c chars =>
      simp only [hidesIndent, List.head?_cons, Option.any_some, Bool.or_eq_false_iff] at shown
      rw [split] at head
      cases breaks with
      | nil => exact ⟨rfl, by rintro rfl; cases head⟩
      | cons b breaks =>
          cases head
          rw [empty c (by simp)] at shown
          cases shown.2

theorem chompOf_breaks {chars : List Char} (given : chars ≠ [])
    (empty : ∀ d ∈ chars, isBreak d = true) : chompOf chars = .keep := by
  unfold chompOf
  cases turned : chars.reverse with
  | nil => exact absurd (List.reverse_eq_nil_iff.1 turned) given
  | cons last before =>
      have ends {d : Char} (mem : d ∈ last :: before) : isBreak d = true :=
        empty d (List.mem_reverse.1 (turned ▸ mem))
      have early : before.head?.all isBreak = true := by
        cases before with
        | nil => rfl
        | cons d before => exact ends (by simp)
      simp only [ends (List.mem_cons_self), early, Bool.not_true, Bool.false_eq_true, if_false, if_true]

theorem close_literal {chars : List Char} (given : chars ≠ [])
    (split : endLine chars = breaks ++ more) (empty : ∀ d ∈ breaks, isBreak d = true)
    (closed : text.close .keep = endLine chars) (whole : more ≠ [] → text.Whole) :
    text.close (chompOf chars) = chars := by
  -- A text of nothing but breaks has no line to end, so the header keeps them all.
  by_cases last : more = []
  · subst last
    rw [List.append_nil] at split
    have same : endLine chars = chars := by
      unfold endLine at split ⊢
      split
      · rfl
      · rename_i ends
        rw [if_neg ends] at split
        have final := empty (chars.getLast given) (by simp [← split])
        simp [List.getLast?_eq_some_getLast given, final] at ends
    rw [chompOf_breaks given (by rw [← same, split]; exact empty), closed, same]
  · exact (whole last).close_chomp closed

theorem read_lines {column : Nat} (start mark : Mark) (lines : Lines more)
    (empty : ∀ d ∈ breaks, isBreak d = true) (shows : ∀ d ∈ breaks ++ more, isPrintable d = true)
    (first : mark.column = 0) (resumes : Resumes next) (outside : column < indent)
    (fits : Fits indent bound more) :
    ∃ reached after text', takeEmptyLines bound start [] 0
          ⟨literalBody indent true (breaks ++ more) ++ (spaces column ++ next), mark⟩ =
        .ok ((breaks.reverse, reached), after) ∧
      (breaks = [] → more ≠ [] → reached = indent) ∧
      blockFrom true indent start ⟨[], none, breaks.reverse, false⟩ after = .ok (text', ⟨next,
        mark.past (literalBody indent true (breaks ++ more) ++ spaces column)⟩) ∧
      text'.close .keep = breaks ++ more ∧ (more ≠ [] → text'.Whole) := by
  have blank : ∀ d ∈ breaks, isPrintable d = true := fun d mem => shows d (by simp [mem])
  have within {count : Nat} (less : count ≤ indent) : bound.all (count ≤ ·) = true := by
    rcases fits with rfl | ⟨rfl, -⟩
    · exact decide_eq_true less
    · rfl
  rw [literalBody_breaks empty]
  by_cases last : more = []
  · subst last
    obtain ⟨reached, read, -⟩ := takeEmptyLines_lines bound column blank empty first
      (within (Nat.le_of_lt outside)) resumes.stops
    have place := past_breaks_column column empty first
    rw [List.append_nil] at read
    simp only [literalBody, List.append_nil]
    exact ⟨reached, _, _, read, fun _ given => absurd rfl given, blockFrom_end (.inl (by omega)),
      by simp [BlockText.close], fun given => absurd rfl given⟩
  · obtain ⟨reached, read, column⟩ := takeEmptyLines_lines bound indent blank empty first
      (within (Nat.le_refl _)) (stops_literalBody (spaces column ++ next) lines.starts last
        (past_breaks_column indent empty first) fits)
    obtain ⟨text', rest, closed, whole⟩ := blockFrom_lines lines last (fun d mem => shows d (by simp [mem]))
      (past_breaks_column _ empty first) resumes outside
    rw [List.append_nil] at read
    rw [literalBody_starts lines.starts last]
    simp only [List.append_assoc, Mark.past_append] at read rest ⊢
    refine ⟨reached, _, text', read, fun none _ => ?_, rest, ?_, fun _ => whole⟩
    · rw [column none, Nat.zero_max]
    · simpa [BlockText.close] using closed

theorem fits_header {chars : List Char} {outside : Nat} (given : chars ≠ [])
    (shows : ∀ d ∈ chars, isPrintable d = true) (split : endLine chars = breaks ++ more)
    (empty : ∀ d ∈ breaks, isBreak d = true) (inside : 0 < outside) :
    Fits (outside + 1) ((if hidesIndent chars then some 2 else none).map (outside - 1 + ·)) more ∧
      ∀ reached, (breaks = [] → more ≠ [] → reached = outside + 1) →
        ((if hidesIndent chars then some 2 else none).map (outside - 1 + ·)).getD
          (firstColumn outside reached) = outside + 1 := by
  by_cases hides : hidesIndent chars = true
  · have told : outside - 1 + 2 = outside + 1 := by omega
    rw [hides]
    simp only [if_true, Option.map_some, told, Option.getD_some]
    exact ⟨.inl rfl, fun _ _ => trivial⟩
  · rw [Bool.not_eq_true] at hides
    obtain ⟨none, lines⟩ := shown_start given hides split empty
    have head := endLine_head given
    rw [hides]
    refine ⟨.inr ⟨rfl, ?_⟩, fun reached indents => ?_⟩
    · rw [split, none, List.nil_append] at head
      rw [head]
      cases chars with
      | nil => rfl
      | cons c chars =>
          simp only [hidesIndent, List.head?_cons, Option.any_some, Bool.or_eq_false_iff] at hides
          simp [isBlank_eq_isSpace (shows c (by simp)), hides.1]
    · rw [indents none lines]
      simp only [Bool.false_eq_true, if_false, Option.map_none, Option.getD_none, firstColumn]
      omega

theorem readBlock_literal (mark : Mark) {chars : List Char} {outside column : Nat} (given : chars ≠ [])
    (shows : ∀ d ∈ chars, isPrintable d = true) (inside : 0 < outside)
    (resumes : Resumes next) (outer : column < outside + 1) :
    readBlock true outside
        ⟨literalHeader chars ++ '\n' :: (literalBody (outside + 1) true (endLine chars) ++
          (spaces column ++ next)), mark⟩ =
      .ok (⟨.scalar (String.ofList chars) .literal, mark,
          mark.past (literalHeader chars ++ '\n' :: (literalBody (outside + 1) true (endLine chars) ++
            spaces column))⟩,
        ⟨next, mark.past (literalHeader chars ++ '\n' ::
          (literalBody (outside + 1) true (endLine chars) ++ spaces column))⟩) := by
  obtain ⟨breaks, more, split, empty, lines⟩ := exists_lines (endLine_ends chars)
  obtain ⟨fits, told⟩ := fits_header given shows split empty inside
  obtain ⟨signs, named⟩ : ∃ signs, indentSigns (hidesIndent chars) ++ (chompOf chars).signs = signs :=
    ⟨_, rfl⟩
  obtain ⟨reached, after, text, blank, indents, rest, closed, whole⟩ :=
    read_lines mark (((mark.along 1).past signs).nextLine 1) lines empty
      (split ▸ endLine_shows shows) rfl resumes outer fits
  rw [← split] at blank rest closed
  have kept := close_literal given split empty closed whole
  have header (start mark : Mark) (rest : List Char) :
      BlockHeader.read start ⟨signs ++ '\n' :: rest, mark⟩ = _ :=
    named ▸ read_header (hidesIndent chars) (chompOf chars)
  have place (tail : List Char) : mark.past ('|' :: (signs ++ '\n' :: tail)) =
      (((mark.along 1).past signs).nextLine 1).past tail := by
    rw [Mark.past_char mark (by decide), Mark.past_append, Mark.past_break _ (by decide)]
  rw [readBlock, literalHeader_eq, named]
  simp only [List.cons_append, place, Cursor.pass, List.drop_succ_cons, List.drop_zero, header, bind,
    Except.bind, finishLine_break, blank, told reached indents, rest, kept, pure, Except.pure]
  rfl

end SecretStore.Yaml
