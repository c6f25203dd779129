import Mathlib.Logic.Relation
import SecretStore.Proofs.Yaml.Passage

namespace SecretStore.Yaml

variable {column : Nat} {next : List Char} {mark : Mark}

theorem startsWith_sign {sign : Char} (resumes : Resumes next)
    (passed : isSolid sign = false) : Cursor.startsWith sign ⟨next, mark⟩ = false := by
  cases next with
  | nil => rfl
  | cons c next =>
      refine decide_eq_false fun same => ?_
      cases same
      have shown : isSolid sign = true := resumes
      rw [passed] at shown
      cases shown

theorem passRun_spaces {tabs : Bool} (count : Nat) (resumes : Resumes next) :
    Cursor.passRun (fun c => c = ' ' || (tabs && c = '\t')) ⟨spaces count ++ next, mark⟩ =
      ⟨next, mark.along count⟩ := by
  have stop : next.takeWhile (fun c => decide (c = ' ') || (tabs && decide (c = '\t'))) = [] := by
    cases next with
    | nil => rfl
    | cons c next =>
        obtain ⟨blank, -⟩ := isSolid_iff.1 resumes
        simp only [isBlank, Bool.or_eq_false_iff] at blank
        simp [blank.1, blank.2]
  have run : (spaces count ++ next).takeWhile
      (fun c => decide (c = ' ') || (tabs && decide (c = '\t'))) = spaces count := by
    rw [List.takeWhile_append_of_pos fun c mem => by simp [List.eq_of_mem_replicate mem], stop,
      List.append_nil]
  rw [Cursor.passRun, Cursor.takeRun, run, Cursor.pass_append, spaces, List.length_replicate]

namespace Scan

theorem passBlanks_spaces (tabs : Bool) (count : Nat) (resumes : Resumes next) :
    passBlanks tabs ⟨spaces count ++ next, mark⟩ = ⟨next, mark.along count⟩ := by
  have unmarked : Cursor.startsWith '\ufeff' ⟨spaces count ++ next, mark⟩ = false := by
    cases count with
    | zero => exact startsWith_sign resumes (by decide)
    | succ count => rfl
  simp only [passBlanks, unmarked, Bool.and_false, Bool.false_eq_true, if_false,
    passRun_spaces count resumes, startsWith_sign resumes (show isSolid '#' = false by decide)]

theorem passBlanks_break (tabs : Bool) (rest : List Char) :
    passBlanks tabs ⟨'\n' :: rest, mark⟩ = ⟨'\n' :: rest, mark⟩ := by
  have run : ('\n' :: rest).takeWhile (fun c => decide (c = ' ') || (tabs && decide (c = '\t'))) = [] := by
    simp
  simp [passBlanks, Cursor.startsWith, Cursor.passRun, Cursor.takeRun, Cursor.pass, run, Mark.along]

theorem takeBreak_solid (resumes : Resumes next) :
    Cursor.takeBreak ⟨next, mark⟩ = (none, ⟨next, mark⟩) := by
  cases next with
  | nil => rfl
  | cons c next =>
      obtain ⟨-, line, -⟩ := isSolid_iff.1 resumes
      simp only [Cursor.takeBreak, break?_line line]

variable {inFlow keyAllowed : Bool}

theorem passGap_spaces (count : Nat) (resumes : Resumes next) :
    passGap inFlow keyAllowed ⟨spaces count ++ next, mark⟩ = (keyAllowed, ⟨next, mark.along count⟩) := by
  rw [passGap]
  split
  · rename_i found
    rw [passBlanks_spaces _ count resumes, takeBreak_solid resumes] at found
    cases found
  · rename_i found
    rw [passBlanks_spaces _ count resumes, takeBreak_solid resumes] at found
    cases found
    rfl

theorem passGap_line (resumes : Resumes next) :
    passGap false keyAllowed ⟨'\n' :: (spaces column ++ next), mark⟩ =
      (true, ⟨next, mark.past ('\n' :: spaces column)⟩) := by
  have broken (tabs : Bool) : Cursor.takeBreak (passBlanks tabs ⟨'\n' :: (spaces column ++ next), mark⟩) =
      (some '\n', ⟨spaces column ++ next, mark.nextLine 1⟩) := by
    rw [passBlanks_break]
    rfl
  rw [passGap]
  split
  · rename_i found
    rw [broken] at found
    cases found
    rw [Bool.not_false, Bool.or_true, passGap_spaces column resumes, Mark.past_break mark (by decide),
      Mark.past_spaces]
  · rename_i found
    rw [broken] at found
    cases found

theorem passGap_length (inFlow keyAllowed : Bool) (here : Cursor) :
    (passGap inFlow keyAllowed here).2.rest.length ≤ here.rest.length := by
  fun_induction passGap inFlow keyAllowed here with
  | case1 keyAllowed here _ _ broken ih =>
      exact Nat.le_trans ih (Nat.le_trans (Nat.le_of_lt (Cursor.takeBreak_length_some broken))
        (passBlanks_length _ _))
  | case2 keyAllowed here after unbroken =>
      have kept := Cursor.takeBreak_length (passBlanks (inFlow || !keyAllowed) here)
      rw [unbroken] at kept
      exact Nat.le_trans kept (passBlanks_length _ _)

def ready (scan : Scan) : Except GrammarFault Scan := do
  let scan ← scan.ageAll
  let scan ← scan.toToken.ageAll
  return scan.closeBlocks (· ≤ scan.here.mark.column)

variable {here : Cursor} {tokens : List Token} {indents : List Nat} {candidate aged : Option Candidate}

def block (here : Cursor) (tokens : List Token) (indents : List Nat) : Scan :=
  ⟨here, tokens, indents, none, [], true⟩

def stillOpen (column : Nat) (indents : List Nat) : List Nat := indents.dropWhile (column < ·)

def blockEnds (mark : Mark) (indents : List Nat) : List Token :=
  List.replicate (indents.takeWhile (mark.column < ·)).length ⟨.blockEnd, mark, mark⟩

theorem closeFrom_eq (mark : Mark) (indents : List Nat) (tokens : List Token) :
    closeFrom (· ≤ mark.column) mark indents tokens =
      (stillOpen mark.column indents, blockEnds mark indents ++ tokens) := by
  induction indents generalizing tokens with
  | nil => rfl
  | cons column indents ih =>
      by_cases stays : column ≤ mark.column
      · simp [closeFrom, stays, stillOpen, blockEnds]
      · rw [closeFrom, if_neg (by simpa using stays), ih]
        simp only [stillOpen, blockEnds, Nat.lt_of_not_le stays, decide_true, List.dropWhile_cons_of_pos,
          List.takeWhile_cons_of_pos, List.length_cons, List.replicate_succ', List.append_assoc,
          List.singleton_append]

theorem closeBlocks_block :
    closeBlocks (· ≤ here.mark.column) ⟨here, tokens, indents, candidate, [], keyAllowed⟩ =
      ⟨here, blockEnds here.mark indents ++ tokens, stillOpen here.mark.column indents, candidate, [],
        keyAllowed⟩ := by
  simp only [closeBlocks, Scan.inFlow, ne_eq, not_true_eq_false, decide_false, Bool.false_eq_true, if_false,
    closeFrom_eq]

theorem ageAll_block (ages : age here.mark candidate = .ok aged) :
    ageAll ⟨here, tokens, indents, candidate, [], keyAllowed⟩ =
      .ok ⟨here, tokens, indents, aged, [], keyAllowed⟩ := by
  simp [ageAll, ages, bind, Except.bind, pure, Except.pure]

theorem ready_block {ended : Option Candidate} {after : Bool × Cursor}
    (ages : age here.mark candidate = .ok aged) (gap : passGap false keyAllowed here = after)
    (later : age after.2.mark aged = .ok ended) :
    ready ⟨here, tokens, indents, candidate, [], keyAllowed⟩ =
      .ok ⟨after.2, blockEnds after.2.mark indents ++ tokens, stillOpen after.2.mark.column indents, ended,
        [], after.1⟩ := by
  have moved : toToken ⟨here, tokens, indents, aged, [], keyAllowed⟩ =
      ⟨after.2, tokens, indents, aged, [], after.1⟩ := by
    simp only [toToken, Scan.inFlow, ne_eq, not_true_eq_false, decide_false, gap]
  simp only [ready, ageAll_block ages, bind, Except.bind, moved, ageAll_block later, pure, Except.pure,
    closeBlocks_block]

def Candidate.Fresh (mark : Mark) (found : Candidate) : Prop :=
  mark.line ≤ found.mark.line ∧ mark.index ≤ found.mark.index + keyLimit

theorem age_fresh (fresh : ∀ found ∈ candidate, Candidate.Fresh mark found) :
    age mark candidate = .ok candidate := by
  cases candidate with
  | none => rfl
  | some found =>
      obtain ⟨line, index⟩ := fresh found rfl
      rw [age, if_neg (by omega)]

theorem age_optional (optional : ∀ found ∈ candidate, found.required = false) :
    ∃ aged, age mark candidate = .ok aged ∧ (aged = candidate ∨ aged = none) := by
  cases candidate with
  | none => exact ⟨none, rfl, .inl rfl⟩
  | some found =>
      rw [age]
      split
      · rw [optional found rfl]
        exact ⟨none, rfl, .inr rfl⟩
      · exact ⟨some found, rfl, .inl rfl⟩

def Candidate.Old (line : Nat) (found : Candidate) : Prop :=
  found.required = false ∧ found.mark.line < line

theorem age_old (old : ∀ found ∈ candidate, Candidate.Old mark.line found) :
    age mark candidate = .ok none := by
  cases candidate with
  | none => rfl
  | some found =>
      obtain ⟨optional, line⟩ := old found rfl
      rw [age, if_pos (.inl line), optional]
      rfl

theorem ready_inline (count : Nat) (resumes : Resumes next)
    (inside : ∀ column ∈ indents.head?, column ≤ mark.column)
    (fresh : ∀ found ∈ candidate, Candidate.Fresh (mark.along count) found) :
    ready ⟨⟨spaces count ++ next, mark⟩, tokens, indents, candidate, [], keyAllowed⟩ =
      .ok ⟨⟨next, mark.along count⟩, tokens, indents, candidate, [], keyAllowed⟩ := by
  have now : ∀ found ∈ candidate, Candidate.Fresh mark found := fun found mem =>
    ⟨(fresh found mem).1, Nat.le_trans (Nat.le_add_right ..) (fresh found mem).2⟩
  have kept : stillOpen (mark.along count).column indents = indents ∧
      blockEnds (mark.along count) indents = [] := by
    cases indents with
    | nil => exact ⟨rfl, rfl⟩
    | cons column indents =>
        have := inside column rfl
        have stays : ¬(mark.along count).column < column := by
          simp only [Mark.along]
          omega
        simp [stillOpen, blockEnds, stays]
  rw [ready_block (age_fresh now) (passGap_spaces count resumes) (age_fresh fresh)]
  simp only [kept.1, kept.2, List.nil_append]

def resumed (here : Cursor) (tokens : List Token) (indents : List Nat) : Scan :=
  block here (blockEnds here.mark indents ++ tokens) (stillOpen here.mark.column indents)

theorem ready_resumed (gap : passGap false keyAllowed here = (true, ⟨next, mark⟩))
    (old : ∀ found ∈ candidate, Candidate.Old mark.line found) :
    ready ⟨here, tokens, indents, candidate, [], keyAllowed⟩ =
      .ok (resumed ⟨next, mark⟩ tokens indents) := by
  obtain ⟨aged, ages, same⟩ := age_optional fun found mem => (old found mem).1
  -- Whether or not the candidate was dropped before the gap, it is dropped behind it.
  rw [ready_block ages gap (age_old ?_)]
  · rfl
  · rcases same with rfl | rfl
    · exact old
    · exact fun found mem => by cases mem

theorem ready_line (resumes : Resumes next)
    (old : ∀ found ∈ candidate, found.required = false ∧ found.mark.line ≤ mark.line) :
    ready ⟨⟨'\n' :: (spaces column ++ next), mark⟩, tokens, indents, candidate, [], keyAllowed⟩ =
      .ok (resumed ⟨next, mark.past ('\n' :: spaces column)⟩ tokens indents) :=
  ready_resumed (passGap_line resumes) fun found mem =>
    ⟨(old found mem).1, Nat.lt_of_le_of_lt (old found mem).2 (Mark.line_lt_past mark (by decide) _)⟩

theorem ready_here (resumes : Resumes next)
    (old : ∀ found ∈ candidate, Candidate.Old mark.line found) :
    ready ⟨⟨next, mark⟩, tokens, indents, candidate, [], true⟩ =
      .ok (resumed ⟨next, mark⟩ tokens indents) :=
  ready_resumed (passGap_spaces 0 resumes) old

theorem resumed_inside (inside : ∀ column ∈ indents.head?, column ≤ here.mark.column) :
    resumed here tokens indents = block here tokens indents := by
  cases indents with
  | nil => rfl
  | cons column indents =>
      have stays : ¬here.mark.column < column := Nat.not_lt.2 (inside column rfl)
      simp [resumed, stillOpen, blockEnds, stays]

theorem ageAll_here {scan after : Scan} (ages : scan.ageAll = .ok after) : after.here = scan.here := by
  simp only [ageAll, bind, Except.bind] at ages
  split at ages
  · cases ages
  · split at ages
    · cases ages
    · cases ages
      rfl

theorem closeBlocks_here (stays : Nat → Bool) (scan : Scan) :
    (scan.closeBlocks stays).here = scan.here := by
  unfold closeBlocks
  split <;> rfl

theorem ready_ok {scan after : Scan} (readied : scan.ready = .ok after) :
    ∃ first second, scan.ageAll = .ok first ∧ first.toToken.ageAll = .ok second ∧
      after = second.closeBlocks (· ≤ second.here.mark.column) := by
  simp only [ready, bind, Except.bind] at readied
  split at readied
  · cases readied
  · rename_i first ages
    split at readied
    · cases readied
    · rename_i second later
      cases readied
      exact ⟨first, second, ages, later, rfl⟩

theorem ready_length {scan after : Scan} (readied : scan.ready = .ok after) :
    after.here.rest.length ≤ scan.here.rest.length := by
  obtain ⟨first, second, ages, later, rfl⟩ := ready_ok readied
  rw [closeBlocks_here, ageAll_here later, ← ageAll_here ages]
  exact passGap_length _ _ _

def Turn (scan after : Scan) : Prop :=
  ∃ taken, scan.takeToken = .ok taken ∧ taken.isOver = false ∧
    taken.here.rest.length < scan.here.rest.length ∧ taken.ready = .ok after

abbrev Turns : Scan → Scan → Prop := Relation.ReflTransGen Turn

/-- When the scan is ready, turns lead to `after`. -/
def Reaches (scan after : Scan) : Prop := ∃ begun, scan.ready = .ok begun ∧ Turns begun after

theorem Reaches.trans {scan middle after : Scan} (first : Reaches scan middle)
    (rest : Turns middle after) : Reaches scan after := by
  obtain ⟨begun, readied, turns⟩ := first
  exact ⟨begun, readied, turns.trans rest⟩

theorem Reaches.turns {scan taken after : Scan} (reaches : Reaches taken after)
    (take : scan.takeToken = .ok taken) (goesOn : taken.isOver = false)
    (shorter : taken.here.rest.length < scan.here.rest.length) : Turns scan after := by
  obtain ⟨begun, readied, turns⟩ := reaches
  exact .head ⟨taken, take, goesOn, shorter, readied⟩ turns

theorem run_ready {scan begun taken : Scan} (readied : scan.ready = .ok begun)
    (take : begun.takeToken = .ok taken) (fuel : Nat) (before : Scan) :
    ∃ first, run (fuel + 1) before scan =
      if taken.isOver then ⟨taken.tokens.reverse, none⟩ else run fuel first taken := by
  obtain ⟨first, second, ages, later, rfl⟩ := ready_ok readied
  refine ⟨first, ?_⟩
  rw [run, ages]
  simp only [advance, later, bind, Except.bind, take]

theorem run_turns {scan begun after last : Scan} (readied : scan.ready = .ok begun) (turns : Turns begun after)
    (take : after.takeToken = .ok last) (finished : last.isOver = true) {fuel : Nat}
    (enough : scan.here.rest.length < fuel) (before : Scan) :
    run fuel before scan = ⟨last.tokens.reverse, none⟩ := by
  induction turns using Relation.ReflTransGen.head_induction_on generalizing scan fuel before with
  | refl =>
      obtain ⟨fuel, rfl⟩ := Nat.exists_eq_add_of_lt enough
      obtain ⟨_, runs⟩ := run_ready readied take (scan.here.rest.length + fuel) before
      rw [runs, if_pos finished]
  | head turn _ ih =>
      obtain ⟨taken, took, goesOn, shorter, next⟩ := turn
      obtain ⟨fuel, rfl⟩ := Nat.exists_eq_add_of_lt enough
      obtain ⟨first, runs⟩ := run_ready readied took (scan.here.rest.length + fuel) before
      -- A turn takes at least one character, so the fuel lasts for the others.
      have less := ready_length readied
      rw [runs, goesOn, if_neg Bool.false_ne_true]
      exact ih next (by omega) first

end Scan

end SecretStore.Yaml
