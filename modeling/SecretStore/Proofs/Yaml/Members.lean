import SecretStore.Proofs.Yaml.Keys

namespace SecretStore.Yaml

mutual

def valueTokens : Writable → List TokenKind
  | .flag value => [.scalar (if value then "true" else "false") .plain]
  | .text value => [.scalar value (styleOf value)]
  | .map [] => [.flowMapStart, .flowMapEnd]
  | .map members => .blockMapStart :: (membersTokens members ++ [.blockEnd])

def membersTokens : List (String × Writable) → List TokenKind
  | [] => []
  | (key, value) :: rest =>
    .key :: .scalar key (styleOf key) :: .value :: (valueTokens value ++ membersTokens rest)

end

namespace Scan

variable {mark : Mark} {next : List Char} {tokens : List Token} {base : List Nat} {column back : Nat}
  {keyAllowed : Bool}

/-- These tokens are read between the text of a value and the text behind it, which goes on at column `back`. -/
def Yields (column back : Nat) (base : List Nat) (next text : List Char) (kinds : List TokenKind) : Prop :=
  ∀ (mark : Mark) (tokens : List Token) (keyAllowed : Bool), column < mark.column →
    (mark.past (text ++ spaces back)).column = back ∧
    ∃ tokens', tokens'.map Token.kind = kinds.reverse ++ tokens.map Token.kind ∧
      Reaches ⟨⟨text ++ (spaces back ++ next), mark⟩, tokens, column :: base, none, [], keyAllowed⟩
        (resumed ⟨next, mark.past (text ++ spaces back)⟩ tokens' (column :: base))

theorem yields_scalar {text : String} {style : Style} (fit : Styled text.toList style)
    (resumes : Resumes next) (outside : back ≤ column) :
    Yields column back base next (endLine (' ' :: written (column + 2) text.toList style))
      [.scalar text style] := by
  intro mark tokens keyAllowed inside
  have ended : endLine (' ' :: written (column + 2) text.toList style) =
      ' ' :: endLine (written (column + 2) text.toList style) := endLine_append [' '] fit.written_ne_nil
  refine ⟨past_endLine_column _ _, ?_⟩
  obtain ⟨token, kind, turn⟩ := scalar_turn (mark.along 1) fit (Nat.lt_succ_of_lt inside) resumes outside
  rw [String.ofList_toList] at kind
  refine ⟨token :: tokens, by simp [kind], ?_⟩
  rw [ended, List.cons_append, List.cons_append, Mark.past_char mark (by decide)]
  exact ⟨_, ready_inline 1 (fit.line_resumes _) (fun i mem => by cases mem; exact Nat.le_of_lt inside)
    (fun found mem => by cases mem), .single turn⟩

theorem ready_flow {candidate : Option Candidate} (fresh : ∀ found ∈ candidate, Candidate.Fresh mark found)
    (resumes : Resumes next) :
    ready ⟨⟨next, mark⟩, tokens, base, none, [candidate], keyAllowed⟩ =
      .ok ⟨⟨next, mark⟩, tokens, base, none, [candidate], keyAllowed⟩ := by
  have ages : ageAll ⟨⟨next, mark⟩, tokens, base, none, [candidate], keyAllowed⟩ =
      .ok ⟨⟨next, mark⟩, tokens, base, none, [candidate], keyAllowed⟩ := by
    have nothing : age mark none = .ok none := rfl
    simp [ageAll, age_fresh fresh, nothing, bind, Except.bind, pure, Except.pure]
  have moved : toToken ⟨⟨next, mark⟩, tokens, base, none, [candidate], keyAllowed⟩ =
      ⟨⟨next, mark⟩, tokens, base, none, [candidate], keyAllowed⟩ := by
    have gap : passGap true keyAllowed ⟨next, mark⟩ = (keyAllowed, ⟨next, mark⟩) :=
      passGap_spaces 0 resumes
    simp only [toToken, Scan.inFlow, ne_eq, List.cons_ne_nil, not_false_eq_true, decide_true, gap]
  simp only [ready, ages, moved, bind, Except.bind, pure, Except.pure]
  simp [closeBlocks, Scan.inFlow]

theorem openFlow_block {here : Cursor} :
    openFlow .flowMapStart ⟨here, tokens, base, none, [], keyAllowed⟩ =
      .ok ⟨here.pass 1, ⟨.flowMapStart, here.mark, here.mark.along 1⟩ :: tokens, base, none,
        [possibleKey tokens base here.mark keyAllowed], true⟩ := by
  simp only [openFlow, saveCandidate_block, bind, Except.bind, pure, Except.pure]
  rfl

theorem closeFlow_block {here : Cursor} {candidate : Option Candidate} :
    closeFlow .flowMapEnd ⟨here, tokens, base, none, [candidate], keyAllowed⟩ =
      .ok ⟨here.pass 1, ⟨.flowMapEnd, here.mark, here.mark.along 1⟩ :: tokens, base, candidate, [],
        false⟩ := rfl

theorem yields_empty (resumes : Resumes next) :
    Yields column back base next " \x7b\x7d\n".toList [.flowMapStart, .flowMapEnd] := by
  intro mark tokens keyAllowed inside
  let first := mark.along 1
  let second := first.along 1
  let third := second.along 1
  let opening : Token := ⟨.flowMapStart, first, second⟩
  let closing : Token := ⟨.flowMapEnd, second, third⟩
  have known {found : Candidate} (mem : found ∈ possibleKey tokens (column :: base) first keyAllowed) :
      found.required = false ∧ found.mark = first := possibleKey_inside (Nat.lt_succ_of_lt inside) mem
  have fresh : ∀ found ∈ possibleKey tokens (column :: base) first keyAllowed,
      Candidate.Fresh second found := fun found mem => by
    rw [Candidate.Fresh, (known mem).2]
    exact ⟨Nat.le_refl _, by simp only [second, Mark.along, keyLimit]; omega⟩
  have old : ∀ found ∈ possibleKey tokens (column :: base) first keyAllowed,
      found.required = false ∧ found.mark.line ≤ third.line := fun found mem => by
    rw [(known mem).2]
    exact ⟨(known mem).1, Nat.le_refl _⟩
  refine ⟨past_endLine_column " \x7b\x7d".toList back, closing :: opening :: tokens, rfl, _,
    ready_inline 1 rfl (fun i mem => by cases mem; exact Nat.le_of_lt inside) (fun found mem => by cases mem),
    .head ⟨_, takeToken_openMap.trans openFlow_block, rfl, Nat.lt_succ_self _, ready_flow fresh rfl⟩
      (.single ⟨_, takeToken_closeMap.trans closeFlow_block, rfl, Nat.lt_succ_self _, ?_⟩)⟩
  exact ready_line resumes old

theorem resumed_outside {here : Cursor} {inner : Nat} (ended : here.mark.column < inner) (tokens : List Token)
    (base : List Nat) : resumed here tokens (inner :: base) =
      resumed here (⟨.blockEnd, here.mark, here.mark⟩ :: tokens) base := by
  simp only [resumed, stillOpen, blockEnds, ended, decide_true, List.dropWhile_cons_of_pos,
    List.takeWhile_cons_of_pos, List.length_cons, List.replicate_succ', List.append_assoc,
    List.singleton_append]

def YieldsMembers (column back : Nat) (next body : List Char) (kinds : List TokenKind) : Prop :=
  ∀ (mark : Mark) (tokens : List Token) (indents base : List Nat) (opening : List TokenKind),
    mark.column = column → Opens column base indents opening →
    (mark.past (body ++ spaces back)).column = back ∧
    ∃ tokens', tokens'.map Token.kind = kinds.reverse ++ (opening ++ tokens.map Token.kind) ∧
      Turns (block ⟨body ++ (spaces back ++ next), mark⟩ tokens indents)
        (resumed ⟨next, mark.past (body ++ spaces back)⟩ tokens' (column :: base))

theorem yields_map {body : List Char} {kinds : List TokenKind} (solid : body.head?.any isSolid = true)
    (outside : back ≤ column) (members : YieldsMembers (column + 2) back next body kinds) :
    Yields column back base next ('\n' :: (spaces (column + 2) ++ body))
      (.blockMapStart :: (kinds ++ [.blockEnd])) := by
  intro mark tokens keyAllowed inside
  obtain ⟨place, placed⟩ : ∃ place, mark.past ('\n' :: spaces (column + 2)) = place := ⟨_, rfl⟩
  have indented : place.column = column + 2 := by
    rw [← placed, Mark.past_break mark (by decide), Mark.past_spaces]
    exact Nat.zero_add _
  have readied : ready ⟨⟨'\n' :: (spaces (column + 2) ++ (body ++ (spaces back ++ next))), mark⟩, tokens,
      column :: base, none, [], keyAllowed⟩ = .ok (resumed _ _ _) :=
    ready_line (resumes_append solid _) fun found mem => by cases mem
  rw [placed, resumed_inside (fun i mem => by cases mem; exact indented ▸ Nat.le_add_right _ 2)] at readied
  obtain ⟨outer, tokens', inner, turns⟩ := members place tokens (column :: base)
    (column :: base) _ indented (.fresh fun i mem => by cases mem; exact Nat.lt_add_of_pos_right (by decide))
  rw [resumed_outside (by rw [outer]; omega)] at turns
  have past : mark.past ('\n' :: (spaces (column + 2) ++ body) ++ spaces back) =
      place.past (body ++ spaces back) := by
    rw [← placed, ← Mark.past_append]
    simp
  rw [past]
  refine ⟨outer, _, ?_, _, ?_, turns⟩
  · simp [inner]
  · simpa using readied

theorem yields_member {key : String} {text : List Char} {kinds : List TokenKind}
    (value : ∀ {base}, Yields column back base next text kinds) (ends : endsWord text = true) (given : text ≠ []) :
    YieldsMembers column back next (keyBody column key ++ text)
      (.key :: .scalar key (styleOf key) :: .value :: kinds) := by
  intro mark tokens indents base opening aligned opens
  subst aligned
  have ends : endsWord (text ++ (spaces back ++ next)) = true := by rw [endsWord_append given, ends]
  obtain ⟨further, tokens₁, keyAllowed, named, turns⟩ := key_turns key opens ends
  obtain ⟨outer, tokens', read, reaches⟩ := value _ tokens₁ keyAllowed further
  rw [List.append_assoc, List.append_assoc, Mark.past_append]
  refine ⟨outer, tokens', ?_, turns _ reaches⟩
  rw [read, named]
  simp

theorem yields_members {key : String} {text body : List Char} {kinds others : List TokenKind}
    (value : ∀ {base}, Yields column column base (body ++ (spaces back ++ next)) text kinds)
    (ends : endsWord text = true) (given : text ≠ [])
    (rest : YieldsMembers column back next body others) :
    YieldsMembers column back next (keyBody column key ++ (text ++ (spaces column ++ body)))
      (.key :: .scalar key (styleOf key) :: .value :: (kinds ++ others)) := by
  intro mark tokens indents base opening aligned opens
  obtain ⟨place, tokens₁, first, turns⟩ := yields_member value ends given mark tokens
    indents base opening aligned opens
  -- The next key stands at the column of the map, so no collection ends before it.
  rw [resumed_inside (fun i mem => by cases mem; exact Nat.le_of_eq place.symm)] at turns
  obtain ⟨outer, tokens', read, onward⟩ := rest _ tokens₁ _ base _ place .opened
  have past : mark.past (keyBody column key ++ (text ++ (spaces column ++ body)) ++ spaces back) =
      (mark.past (keyBody column key ++ text ++ spaces column)).past (body ++ spaces back) := by
    rw [← Mark.past_append]
    simp only [List.append_assoc]
  rw [past]
  refine ⟨outer, tokens', ?_, ?_⟩
  · rw [read, first]
    simp
  · simp only [List.append_assoc] at turns onward ⊢
    exact turns.trans onward

theorem valueText_starts (column : Nat) (value : Writable) : endsWord (valueText column value) = true ∧
    valueText column value ≠ [] := by
  have line {chars : List Char} : endsWord (endLine (' ' :: chars)) = true ∧ endLine (' ' :: chars) ≠ [] := by
    have head := endLine_head (List.cons_ne_nil ' ' chars)
    cases eq : endLine (' ' :: chars) with
    | nil =>
        rw [eq] at head
        cases head
    | cons c rest =>
        rw [eq] at head
        cases head
        exact ⟨rfl, List.cons_ne_nil _ _⟩
  cases value with
  | flag value => cases value <;> exact line
  | text value => exact line
  | map members =>
      cases members with
      | nil => exact ⟨rfl, List.cons_ne_nil _ _⟩
      | cons member members => exact ⟨rfl, List.cons_ne_nil _ _⟩

theorem keyBody_solid (column : Nat) (key : String) : (keyBody column key).head?.any isSolid = true := by
  unfold keyBody
  split
  · obtain ⟨c, rest, starts, solid⟩ := (styled key).starts
    rw [scalar_eq, starts]
    exact solid
  · rw [List.head?_append, endLine_head (List.cons_ne_nil _ _)]
    rfl

theorem head?_any_append {body : List Char} (solid : body.head?.any isSolid = true) (rest : List Char) :
    (body ++ rest).head?.any isSolid = true := by
  cases body with
  | nil => cases solid
  | cons c body => exact solid

theorem yields_flag (value : Bool) (resumes : Resumes next) (outside : back ≤ column) :
    Yields column back base next (valueText column (.flag value)) (valueTokens (.flag value)) := by
  have word : FitsPlainly (if value then "true" else "false").toList := by
    cases value
    · exact ⟨by decide, by decide⟩
    · exact ⟨by decide, by decide⟩
  cases value
  · exact yields_scalar (.plain word) resumes outside
  · exact yields_scalar (.plain word) resumes outside

theorem yields_text (value : String) (resumes : Resumes next) (outside : back ≤ column) :
    Yields column back base next (valueText column (.text value)) (valueTokens (.text value)) := by
  rw [valueText, valueTokens, scalar_eq]
  exact yields_scalar (styled value) resumes outside

mutual

theorem yields_valueText : (value : Writable) → (column back : Nat) → (base : List Nat) →
    (next : List Char) → Resumes next → back ≤ column →
      Yields column back base next (valueText column value) (valueTokens value)
  | .flag value, _, _, _, _, resumes, outside => yields_flag value resumes outside
  | .text value, _, _, _, _, resumes, outside => yields_text value resumes outside
  | .map [], _, _, _, _, resumes, _ => yields_empty resumes
  | .map (member :: members), column, back, _, next, resumes, outside => by
      obtain ⟨body, text, solid, yields⟩ := yields_membersText (member :: members)
        (List.cons_ne_nil _ _) (column + 2) back next resumes (Nat.le_add_right_of_le outside)
      rw [valueText, valueTokens, indentStep, text]
      · exact yields_map solid outside yields
      · simp
      · simp

theorem yields_membersText : (members : List (String × Writable)) → members ≠ [] →
    (column back : Nat) → (next : List Char) → Resumes next → back ≤ column →
      ∃ body, membersText column members = spaces column ++ body ∧ body.head?.any isSolid = true ∧
        YieldsMembers column back next body (membersTokens members)
  | [], given, _, _, _, _, _ => absurd rfl given
  | (key, value) :: others, _, column, back, next, resumes, outside => by
      obtain ⟨ends, given⟩ := valueText_starts column value
      have solidKey := head?_any_append (keyBody_solid column key)
      by_cases last : others = []
      · refine ⟨keyBody column key ++ valueText column value, ?_, solidKey _, ?_⟩
        · simp only [last, membersText, keyText_eq, List.append_assoc, List.append_nil]
        · rw [last, membersTokens, membersTokens, List.append_nil]
          exact yields_member (yields_valueText value column back _ next resumes outside) ends given
      · obtain ⟨body, text, solid, yields⟩ := yields_membersText others last column back next resumes outside
        have goesOn := resumes_append solid (spaces back ++ next)
        refine ⟨keyBody column key ++ (valueText column value ++ (spaces column ++ body)), ?_, solidKey _, ?_⟩
        · rw [membersText, keyText_eq, text]
          simp only [List.append_assoc]
        · rw [membersTokens]
          exact yields_members (yields_valueText value column column _ _ goesOn (Nat.le_refl _)) ends given
            yields

end

theorem scalar_shows (indent : Nat) (text : String) : ∀ c ∈ scalar indent text, isPrintable c = true := by
  rw [scalar_eq]
  exact (styled text).shows

theorem cons_shows {c : Char} {chars : List Char} (first : isPrintable c = true)
    (shows : ∀ d ∈ chars, isPrintable d = true) : ∀ d ∈ c :: chars, isPrintable d = true := by
  intro d mem
  rcases List.mem_cons.1 mem with rfl | mem
  · exact first
  · exact shows d mem

theorem append_shows {first rest : List Char} (shows : ∀ d ∈ first, isPrintable d = true)
    (others : ∀ d ∈ rest, isPrintable d = true) : ∀ d ∈ first ++ rest, isPrintable d = true := fun d mem =>
  (List.mem_append.1 mem).elim (shows d) (others d)

theorem keyText_shows (indent : Nat) (key : String) : ∀ c ∈ keyText indent key, isPrintable c = true := by
  have indentation : ∀ c ∈ spaces indent, isPrintable c = true := fun _ mem => spaces_shows mem
  have sign : ∀ c ∈ [':'], isPrintable c = true := List.all_eq_true.1 (by decide)
  have text := scalar_shows (indent + indentStep) key
  unfold keyText
  split
  · exact append_shows (append_shows indentation text) sign
  · exact append_shows (append_shows (endLine_shows (append_shows indentation
      (cons_shows (by decide) (cons_shows (by decide) text)))) indentation) sign

mutual

theorem valueText_shows : (value : Writable) → (indent : Nat) →
    ∀ c ∈ valueText indent value, isPrintable c = true
  | .flag value, _ => by
      have written : (valueText 0 (.flag value)).all isPrintable = true := by cases value <;> decide
      exact List.all_eq_true.1 written
  | .text value, indent => endLine_shows (cons_shows (by decide) (scalar_shows _ value))
  | .map [], _ => by
      have written : (valueText 0 (.map [])).all isPrintable = true := by decide
      exact List.all_eq_true.1 written
  | .map (member :: members), indent => by
      rw [valueText]
      · exact cons_shows (by decide) (membersText_shows (member :: members) (indent + indentStep))
      · simp

theorem membersText_shows : (members : List (String × Writable)) → (indent : Nat) →
    ∀ c ∈ membersText indent members, isPrintable c = true
  | [], _ => by simp [membersText]
  | (key, value) :: members, indent => append_shows
      (append_shows (keyText_shows indent key) (valueText_shows value indent)) (membersText_shows members indent)

end

theorem takeEnd_block {tokens : List Token} (first : mark.column = 0) :
    takeToken (block ⟨[], mark⟩ tokens [0]) =
      .ok ⟨⟨[], mark⟩, ⟨.streamEnd, mark, mark⟩ :: ⟨.blockEnd, mark, mark⟩ :: tokens, [], none, [], false⟩ := by
  have final : endMark mark = mark := if_pos first
  change takeEnd _ = _
  simp [takeEnd, block, final, closeAll, closeBlocks, Scan.inFlow, closeFrom, dropCandidate, push, bind,
    Except.bind, pure, Except.pure]

end Scan

theorem ofText_membersText {members : List (String × Writable)} (given : members ≠ []) :
    ∃ tokens, TokenStream.ofText (membersText 0 members) = ⟨tokens, none⟩ ∧
      tokens.map Token.kind = valueTokens (.map members) ++ [.streamEnd] := by
  have shows := Scan.membersText_shows members 0
  obtain ⟨body, text, solid, yields⟩ := Scan.yields_membersText members given 0 0 [] rfl (Nat.le_refl 0)
  rw [show spaces 0 = [] from rfl, List.nil_append] at text
  have resumes := resumes_append solid []
  rw [List.append_nil] at resumes
  obtain ⟨back, tokens, kinds, turns⟩ := yields {} [] [] [] _ rfl (.fresh fun _ mem => by cases mem)
  simp only [show spaces 0 = [] from rfl, List.append_nil] at back turns
  have readied : Scan.ready { here := ⟨body, {}⟩ } = .ok (Scan.resumed ⟨body, {}⟩ [] []) :=
    Scan.ready_here resumes fun _ mem => by cases mem
  rw [Scan.resumed_inside fun _ mem => by cases mem] at readied
  rw [Scan.resumed_inside fun _ mem => by cases mem; exact Nat.zero_le _] at turns
  have runs := Scan.run_turns readied turns (Scan.takeEnd_block back) rfl
    (Nat.lt_succ_self _) ({ here := ⟨body, {}⟩ } : Scan)
  rw [TokenStream.ofText, withoutEncodingMark_of_isPrintable shows, text]
  rw [text] at shows
  simp only [strayOffset?_of_isPrintable shows]
  refine ⟨_, runs, ?_⟩
  have map : valueTokens (.map members) = .blockMapStart :: (membersTokens members ++ [.blockEnd]) := by
    cases members with
    | nil => exact absurd rfl given
    | cons member members => rw [valueTokens]; simp
  simp [map, kinds]

end SecretStore.Yaml
