import Mathlib.Data.List.Basic
import SecretStore.Proofs.Yaml.Scan
import SecretStore.Proofs.Yaml.Styles

namespace SecretStore.Yaml.Scan

variable {mark : Mark} {rest next : List Char} {tokens : List Token} {indents : List Nat}
  {candidate : Option Candidate} {outer : List (Option Candidate)} {keyAllowed : Bool} {c : Char}

theorem isDocumentMark_first {sign : Char} (other : c ≠ sign) : isDocumentMark sign (c :: rest) = false := by
  unfold isDocumentMark
  split
  · rename_i eq
    cases eq
    simp [other]
  · rfl

theorem takeToken_quoted (quote : Quote) :
    takeToken ⟨⟨quote.sign :: rest, mark⟩, tokens, indents, candidate, outer, keyAllowed⟩ =
      takeNode (readQuoted quote) ⟨⟨quote.sign :: rest, mark⟩, tokens, indents, candidate, outer,
        keyAllowed⟩ := by
  cases quote <;> simp [takeToken, Quote.sign, isDocumentMark_first]

theorem takeToken_literal :
    takeToken ⟨⟨'|' :: rest, mark⟩, tokens, indents, candidate, [], keyAllowed⟩ =
      takeBlock true ⟨⟨'|' :: rest, mark⟩, tokens, indents, candidate, [], keyAllowed⟩ := by
  simp [takeToken, isDocumentMark_first, Scan.inFlow]

theorem takeToken_key (alone : endsWord rest = true) :
    takeToken ⟨⟨'?' :: rest, mark⟩, tokens, indents, candidate, outer, keyAllowed⟩ =
      takeKey ⟨⟨'?' :: rest, mark⟩, tokens, indents, candidate, outer, keyAllowed⟩ := by
  simp [takeToken, isDocumentMark_first, alone]

theorem takeToken_value (alone : endsWord rest = true) :
    takeToken ⟨⟨':' :: rest, mark⟩, tokens, indents, candidate, outer, keyAllowed⟩ =
      takeValue ⟨⟨':' :: rest, mark⟩, tokens, indents, candidate, outer, keyAllowed⟩ := by
  simp [takeToken, isDocumentMark_first, alone]

theorem takeToken_openMap :
    takeToken ⟨⟨'\x7b' :: rest, mark⟩, tokens, indents, candidate, outer, keyAllowed⟩ =
      openFlow .flowMapStart ⟨⟨'\x7b' :: rest, mark⟩, tokens, indents, candidate, outer, keyAllowed⟩ := by
  simp [takeToken, isDocumentMark_first]

theorem takeToken_closeMap :
    takeToken ⟨⟨'\x7d' :: rest, mark⟩, tokens, indents, candidate, outer, keyAllowed⟩ =
      closeFlow .flowMapEnd ⟨⟨'\x7d' :: rest, mark⟩, tokens, indents, candidate, outer, keyAllowed⟩ := by
  simp [takeToken, isDocumentMark_first]

theorem isDocumentMark_text {sign : Char} {chars : List Char} (given : chars ≠ [])
    (starts : startsWithSign chars = false) (mark : sign = '-' ∨ sign = '.')
    (ends : rest.head? ≠ some sign) : isDocumentMark sign (chars ++ rest) = false := by
  refine Bool.eq_false_iff.2 fun marked => ?_
  have third {a b : Char} {tail : List Char} (found : isDocumentMark sign (a :: b :: tail) = true) :
      tail.head? = some sign := by
    cases tail with
    | nil => cases found
    | cons d tail =>
        simp only [isDocumentMark, Bool.and_eq_true, decide_eq_true_eq] at found
        exact congrArg some found.1.2
  rcases chars with _ | ⟨a, _ | ⟨b, _ | ⟨d, chars⟩⟩⟩
  · exact given rfl
  · cases rest with
    | nil => cases marked
    | cons b rest =>
        cases rest with
        | nil => cases marked
        | cons d rest =>
            simp only [List.singleton_append, isDocumentMark, Bool.and_eq_true, decide_eq_true_eq] at marked
            exact ends (congrArg some marked.1.1.2)
  · exact ends (third marked)
  · simp only [List.cons_append, isDocumentMark, Bool.and_eq_true, decide_eq_true_eq] at marked
    obtain ⟨⟨⟨rfl, rfl⟩, rfl⟩, -⟩ := marked
    rcases mark with rfl | rfl <;> cases starts

theorem startsPlain_word {chars : List Char} (word : isGap c = false) (solid : isIndicator c = false)
    (goes : c = '?' ∨ c = ':' ∨ c = '-' → endsWord chars = false) : startsPlain false c chars = true := by
  unfold startsPlain
  split
  · rename_i dash
    cases chars with
    | nil => rfl
    | cons d chars =>
        have gap : isGap d = false := goes (.inr (.inr dash))
        simp only [isGap, Bool.or_eq_false_iff] at gap
        simp [gap.1]
  · split
    · rename_i sign
      simp only [Bool.or_eq_true, decide_eq_true_eq] at sign
      rw [goes (sign.elim .inl (.inr ∘ .inl))]
      rfl
    · rw [word, solid]
      rfl

theorem takeToken_plain {chars : List Char} (fits : FitsPlainly chars)
    (ends : ∀ d ∈ rest.head?, d ≠ '-' ∧ d ≠ '.') :
    takeToken ⟨⟨chars ++ rest, mark⟩, tokens, indents, candidate, [], keyAllowed⟩ =
      takePlain ⟨⟨chars ++ rest, mark⟩, tokens, indents, candidate, [], keyAllowed⟩ := by
  cases chars with
  | nil => exact absurd rfl fits.given
  | cons c chars =>
      obtain ⟨-, word, sign, -⟩ := fits.first
      obtain ⟨solid, goes⟩ := startsWithSign_cons sign
      have goes : c = '?' ∨ c = ':' ∨ c = '-' → endsWord (chars ++ rest) = false := fun sign => by
        have text := goes sign
        rwa [endsWord_append (by rintro rfl; cases text)]
      have dashes := isDocumentMark_text fits.given sign (.inl rfl) fun dash => (ends '-' dash).1 rfl
      have dots := isDocumentMark_text fits.given sign (.inr rfl) fun dot => (ends '.' dot).2 rfl
      have alone {d : Char} (mem : d = '?' ∨ d = ':' ∨ d = '-') :
          (decide (c = d) && endsWord (chars ++ rest)) = false := by
        by_cases same : c = d
        · subst same
          rw [goes mem, Bool.and_false]
        · rw [decide_eq_false same, Bool.false_and]
      have plain := startsPlain_word word solid goes
      simp only [isIndicator, isFlowMark, Bool.or_eq_false_iff, decide_eq_false_iff_not] at solid
      obtain ⟨⟨⟨⟨⟨⟨⟨⟨⟨⟨⟨⟨⟨⟨⟨comma, openList⟩, closeList⟩, openMap⟩, closeMap⟩, hash⟩, anchor⟩, name⟩, tag⟩,
        literal⟩, folded⟩, single⟩, double⟩, directive⟩, -⟩, -⟩ := solid
      simp only [List.cons_append] at dashes dots
      simp [takeToken, Scan.inFlow, dashes, dots, alone, plain, comma, openList, closeList, openMap, closeMap,
        anchor, name, tag, literal, folded, single, double, directive]

def possibleKey (tokens : List Token) (indents : List Nat) (mark : Mark) (keyAllowed : Bool) :
    Option Candidate :=
  if keyAllowed then some ⟨tokens.length, mark, indents.head? = some mark.column⟩ else none

theorem saveCandidate_block {here : Cursor} :
    saveCandidate ⟨here, tokens, indents, none, [], keyAllowed⟩ =
      .ok ⟨here, tokens, indents, possibleKey tokens indents here.mark keyAllowed, [], keyAllowed⟩ := by
  cases keyAllowed <;> rfl

theorem takeNode_block {read : Cursor → Except GrammarFault (Token × Cursor)} {here after : Cursor}
    {token : Token} (took : read here = .ok (token, after)) :
    takeNode read ⟨here, tokens, indents, none, [], keyAllowed⟩ =
      .ok ⟨after, token :: tokens, indents, possibleKey tokens indents here.mark keyAllowed, [], false⟩ := by
  simp only [takeNode, saveCandidate_block, bind, Except.bind, took, pure, Except.pure]

theorem takePlain_block {here after : Cursor} {token : Token} {broken : Bool}
    (took : readPlain ⟨false, (block here tokens indents).innerColumn⟩ here = .ok (token, broken, after)) :
    takePlain ⟨here, tokens, indents, none, [], keyAllowed⟩ =
      .ok ⟨after, token :: tokens, indents, possibleKey tokens indents here.mark keyAllowed, [], broken⟩ := by
  have inBlock {found : Option Candidate} :
      (⟨here, tokens, indents, found, [], keyAllowed⟩ : Scan).inFlow = false := rfl
  have inner {found : Option Candidate} :
      (⟨here, tokens, indents, found, [], keyAllowed⟩ : Scan).innerColumn =
        (block here tokens indents).innerColumn := rfl
  simp only [takePlain, saveCandidate_block, bind, Except.bind, inBlock, inner, took, pure, Except.pure]

theorem takeBlock_block {here after : Cursor} {token : Token} {column : Nat} {base : List Nat}
    (took : readBlock true (column + 1) here = .ok (token, after)) :
    takeBlock true ⟨here, tokens, column :: base, none, [], keyAllowed⟩ =
      .ok ⟨after, token :: tokens, column :: base, none, [], true⟩ := by
  simp only [takeBlock, dropCandidate, bind, Except.bind, innerColumn, took, pure, Except.pure]

theorem endLine_line {chars : List Char} (line : ∀ d ∈ chars, isBreak d = false) :
    endLine chars = chars ++ ['\n'] := by
  rw [endLine, if_neg]
  intro ends
  obtain ⟨d, last, ends⟩ := (Option.any_eq_true _ _).1 ends
  rw [line d (List.mem_of_getLast? last)] at ends
  cases ends

variable {column back : Nat} {base : List Nat} {chars : List Char} {style : Style}

theorem possibleKey_inside (inside : column < mark.column) {found : Candidate}
    (mem : found ∈ possibleKey tokens (column :: base) mark keyAllowed) :
    found.required = false ∧ found.mark = mark := by
  unfold possibleKey at mem
  split at mem
  · cases mem
    refine ⟨decide_eq_false fun same => ?_, rfl⟩
    rw [List.head?_cons, Option.some.injEq] at same
    omega
  · cases mem

theorem length_lt_append {first : List Char} (given : first ≠ []) (rest : List Char) :
    rest.length < (first ++ rest).length := by
  have := List.length_pos_iff.2 given
  rw [List.length_append]
  omega

theorem quoted_turn (quote : Quote) {text : List Char} (quoted : ∃ body, text = quote.sign :: body)
    (closed : text.getLast? = some quote.sign) (inside : column < mark.column) (resumes : Resumes next)
    (read : readQuoted quote ⟨text ++ '\n' :: (spaces back ++ next), mark⟩ =
      .ok (⟨.scalar (String.ofList chars) style, mark, mark.past text⟩,
        ⟨'\n' :: (spaces back ++ next), mark.past text⟩)) :
    ∃ token : Token, token.kind = .scalar (String.ofList chars) style ∧
      Turn ⟨⟨endLine text ++ (spaces back ++ next), mark⟩, tokens, column :: base, none, [], keyAllowed⟩
        (resumed ⟨next, mark.past (endLine text ++ spaces back)⟩ (token :: tokens) (column :: base)) := by
  have ended : endLine text = text ++ ['\n'] := by
    rw [endLine, closed]
    cases quote <;> rfl
  obtain ⟨body, rfl⟩ := quoted
  rw [ended, List.append_assoc, List.append_assoc, mark.past_append]
  refine ⟨_, rfl, _, (takeToken_quoted quote).trans (takeNode_block read), rfl,
    length_lt_append (List.cons_ne_nil _ _) _, ready_line resumes fun found mem => ?_⟩
  obtain ⟨optional, same⟩ := possibleKey_inside inside mem
  rw [same]
  exact ⟨optional, Mark.line_le_past mark _⟩

theorem plain_turn (fits : FitsPlainly chars) (inside : column < mark.column) (resumes : Resumes next)
    (outside : back ≤ column) :
    ∃ token : Token, token.kind = .scalar (String.ofList chars) .plain ∧
      Turn ⟨⟨endLine chars ++ (spaces back ++ next), mark⟩, tokens, column :: base, none, [], keyAllowed⟩
        (resumed ⟨next, mark.past (endLine chars ++ spaces back)⟩ (token :: tokens) (column :: base)) := by
  have read : readPlain ⟨false, column + 1⟩ ⟨chars ++ '\n' :: (spaces back ++ next), mark⟩ = _ :=
    readPlain_value fits rfl (by simp only; omega) resumes (Nat.lt_succ_of_le outside)
  have ended : endLine chars = chars ++ ['\n'] := endLine_line fun d mem => (fits.shows d mem).2
  have shorter : next.length < (chars ++ '\n' :: (spaces back ++ next)).length := by
    simp only [List.length_append, List.length_cons]
    omega
  simp only [ended, List.append_assoc, List.singleton_append]
  refine ⟨_, rfl, _, (takeToken_plain fits (fun d mem => by cases mem; decide)).trans
    (takePlain_block read), rfl, shorter, ready_here resumes fun found mem => ?_⟩
  -- The text has been read up to the next line, where what began on this one is no key.
  obtain ⟨optional, same⟩ := possibleKey_inside inside mem
  refine ⟨optional, ?_⟩
  rw [same, Mark.past_append]
  exact Nat.lt_of_le_of_lt (Mark.line_le_past mark chars) (Mark.line_lt_past _ (by decide) _)

theorem literal_turn (given : chars ≠ []) (shows : ∀ c ∈ chars, isPrintable c = true)
    (resumes : Resumes next) (outside : back ≤ column) :
    ∃ token : Token, token.kind = .scalar (String.ofList chars) .literal ∧
      Turn ⟨⟨endLine (written (column + 2) chars .literal) ++ (spaces back ++ next), mark⟩, tokens,
          column :: base, none, [], keyAllowed⟩
        (resumed ⟨next, mark.past (endLine (written (column + 2) chars .literal) ++ spaces back)⟩
          (token :: tokens) (column :: base)) := by
  have read := readBlock_literal mark given shows (Nat.succ_pos column) resumes
    (Nat.lt_succ_of_le (Nat.le_succ_of_le outside))
  have ended : endLine (written (column + 2) chars .literal) =
      literalHeader chars ++ '\n' :: literalBody (column + 2) true (endLine chars) := by
    rw [written, endLine_append _ (List.cons_ne_nil _ _), endLine_literalBody given]
  obtain ⟨signs, header⟩ : ∃ signs, literalHeader chars = '|' :: signs := ⟨_, literalHeader_eq chars⟩
  rw [ended, header]
  rw [header] at read
  simp only [List.append_assoc, List.cons_append] at read ⊢
  have shorter : next.length < ('|' :: (signs ++ '\n' ::
      (literalBody (column + 2) true (endLine chars) ++ (spaces back ++ next)))).length := by
    simp only [List.length_append, List.length_cons]
    omega
  refine ⟨_, rfl, _, takeToken_literal.trans (takeBlock_block read), rfl, shorter,
    ready_here resumes fun found mem => ?_⟩
  cases mem

theorem scalar_turn (mark : Mark) (fit : Styled chars style) (inside : column < mark.column)
    (resumes : Resumes next) (outside : back ≤ column) :
    ∃ token : Token, token.kind = .scalar (String.ofList chars) style ∧
      Turn ⟨⟨endLine (written (column + 2) chars style) ++ (spaces back ++ next), mark⟩, tokens,
          column :: base, none, [], keyAllowed⟩
        (resumed ⟨next, mark.past (endLine (written (column + 2) chars style) ++ spaces back)⟩
          (token :: tokens) (column :: base)) := by
  cases fit with
  | plain fits => exact plain_turn fits inside resumes outside
  | single fits =>
      refine quoted_turn .single ⟨_, rfl⟩ List.getLast?_concat inside resumes ?_
      have alone : ('\n' :: (spaces back ++ next)).head? ≠ some '\'' := by simp
      simpa [written] using readQuoted_single mark fits (Nat.succ_pos _) alone
  | double =>
      refine quoted_turn .double ⟨_, rfl⟩ List.getLast?_concat inside resumes ?_
      simpa [written] using readQuoted_double mark chars ('\n' :: (spaces back ++ next))
  | literal given shows => exact literal_turn given shows resumes outside

end SecretStore.Yaml.Scan
