import SecretStore.Proofs.Yaml.Tokens

namespace SecretStore.Yaml.Scan

variable {mark : Mark} {rest : List Char} {tokens : List Token} {indents base : List Nat} {column : Nat}
  {opening : List TokenKind} {chars : List Char} {style : Style}

/-- The map at `column` is open, or its first key opens it. -/
inductive Opens (column : Nat) (base : List Nat) : List Nat → List TokenKind → Prop where
  | opened : Opens column base (column :: base) []
  | fresh (outside : ∀ i ∈ base.head?, i < column) : Opens column base base [.blockMapStart]

theorem Opens.inside (opens : Opens column base indents opening) : ∀ i ∈ indents.head?, i ≤ column := by
  cases opens with
  | opened =>
      intro i mem
      cases mem
      exact Nat.le_refl _
  | fresh outside => exact fun i mem => Nat.le_of_lt (outside i mem)

theorem Opens.innerColumn_le {here : Cursor} (opens : Opens column base indents opening) :
    (block here tokens indents).innerColumn ≤ column + 1 := by
  have inside := opens.inside
  cases indents with
  | nil => exact Nat.zero_le _
  | cons i indents => exact Nat.succ_le_succ (inside i rfl)

theorem opensAt_fresh (scan : Scan) (inBlock : scan.outer = [])
    (outside : ∀ i ∈ scan.indents.head?, i < column) : scan.opensAt column = true := by
  have all : scan.indents.head?.all (· < column) = true := by
    cases eq : scan.indents.head? with
    | none => rfl
    | some i => exact decide_eq_true (outside i eq)
  rw [opensAt, Scan.inFlow, inBlock, all]
  rfl

theorem opensAt_opened {scan : Scan} (opened : scan.indents = column :: base) :
    scan.opensAt column = false := by
  simp [opensAt, opened]

theorem keyScalar_taken (fit : Styled chars style) (inline : style ≠ .literal)
    (opens : Opens mark.column base indents opening) (ends : endsWord rest = true) :
    ∃ token : Token, token.kind = .scalar (String.ofList chars) style ∧
      takeToken (block ⟨written (mark.column + 2) chars style ++ ':' :: rest, mark⟩ tokens indents) =
        .ok ⟨⟨':' :: rest, mark.past (written (mark.column + 2) chars style)⟩, token :: tokens, indents,
          possibleKey tokens indents mark true, [], false⟩ := by
  cases fit with
  | plain fits =>
      exact ⟨_, rfl, (takeToken_plain fits (fun d mem => by cases mem; decide)).trans
        (takePlain_block (readPlain_key fits rfl opens.innerColumn_le ends))⟩
  | single fits =>
      have alone : (':' :: rest).head? ≠ some '\'' := by simp
      have read := readQuoted_single mark fits (Nat.succ_pos (mark.column + 1)) alone
      simp only [written, List.append_assoc, List.cons_append, List.nil_append] at read ⊢
      exact ⟨_, rfl, (takeToken_quoted .single).trans (takeNode_block read)⟩
  | double =>
      have read := readQuoted_double mark chars (':' :: rest)
      simp only [written, List.append_assoc, List.cons_append, List.nil_append] at read ⊢
      exact ⟨_, rfl, (takeToken_quoted .double).trans (takeNode_block read)⟩
  | literal => exact absurd rfl inline

theorem takeValue_candidate {here : Mark} {token : Token} {required : Bool}
    (opens : Opens mark.column base indents opening) :
    ∃ tokens', tokens'.map Token.kind = .value :: token.kind :: .key :: (opening ++ tokens.map Token.kind) ∧
      takeValue ⟨⟨':' :: rest, here⟩, token :: tokens, indents, some ⟨tokens.length, mark, required⟩, [],
          false⟩ =
        .ok ⟨⟨rest, here.along 1⟩, tokens', mark.column :: base, none, [], false⟩ := by
  let sign : Token := ⟨.value, here, here.along 1⟩
  let key : Token := ⟨.key, mark, mark⟩
  cases opens with
  | opened =>
      refine ⟨sign :: token :: key :: tokens, rfl, ?_⟩
      simp [takeValue, keyFrom, opensAt_opened, insert, take, push, Cursor.pass, sign, key]
  | fresh outside =>
      have opens := opensAt_fresh ⟨⟨':' :: rest, here⟩, token :: tokens, indents,
        some ⟨tokens.length, mark, required⟩, [], false⟩ rfl outside
      refine ⟨sign :: token :: key :: ⟨.blockMapStart, mark, mark⟩ :: tokens, rfl, ?_⟩
      simp [takeValue, keyFrom, opens, insert, take, push, Cursor.pass, sign, key]

def keyBody (indent : Nat) (key : String) : List Char :=
  if isSimpleKey key then scalar (indent + indentStep) key ++ [':']
  else endLine ('?' :: ' ' :: scalar (indent + indentStep) key) ++ (spaces indent ++ [':'])

theorem keyText_eq (indent : Nat) (key : String) : keyText indent key = spaces indent ++ keyBody indent key := by
  unfold keyText keyBody
  split
  · rw [List.append_assoc]
  · rw [endLine_append _ (List.cons_ne_nil _ _), List.append_assoc, List.append_assoc]

theorem keyBody_simple {key : String} (simple : isSimpleKey key = true) (indent : Nat) :
    keyBody indent key = written (indent + 2) key.toList (styleOf key) ++ [':'] := by
  rw [keyBody, if_pos simple, scalar_eq]
  rfl

theorem keyBody_announced {key : String} (announced : isSimpleKey key = false) (indent : Nat) :
    keyBody indent key =
      '?' :: ' ' :: (endLine (written (indent + 2) key.toList (styleOf key)) ++ (spaces indent ++ [':'])) := by
  rw [keyBody, announced, scalar_eq]
  simp only [Bool.false_eq_true, if_false, indentStep]
  exact congrArg (· ++ (spaces indent ++ [':'])) (endLine_append ['?', ' '] (styled key).written_ne_nil)

theorem simpleKey_fresh {key : String} (simple : isSimpleKey key = true) {found : Candidate}
    (mem : found ∈ possibleKey tokens indents mark true) :
    Candidate.Fresh (mark.past (written (mark.column + 2) key.toList (styleOf key))) found := by
  obtain ⟨line, inline, short⟩ := isSimpleKey_line simple
  obtain ⟨oneLine, few⟩ := (styled key).simple (mark.column + 2) line inline
  rw [String.ofList_toList] at few
  cases mem
  rw [Mark.past_line mark oneLine]
  refine ⟨Nat.le_refl _, ?_⟩
  -- Each of at most 128 octets is written with at most four characters.
  simp only [Mark.along, keyLimit]
  omega

theorem isOver_of_kinds {scan : Scan} {kind : TokenKind} {kinds : List TokenKind}
    (found : scan.tokens.map Token.kind = kind :: kinds) (other : kind ≠ .streamEnd) :
    scan.isOver = false := by
  rw [isOver, ← List.head?_map, found, List.head?_cons]
  exact decide_eq_false fun same => other (Option.some.inj same)

theorem simpleKey_turns {key : String} (simple : isSimpleKey key = true)
    (opens : Opens mark.column base indents opening) (ends : endsWord rest = true) :
    mark.column < (mark.past (keyBody mark.column key)).column ∧ ∃ tokens', tokens'.map Token.kind =
        .value :: .scalar key (styleOf key) :: .key :: (opening ++ tokens.map Token.kind) ∧
      ∀ after, Reaches ⟨⟨rest, mark.past (keyBody mark.column key)⟩, tokens', mark.column :: base, none, [],
          false⟩ after →
        Turns (block ⟨keyBody mark.column key ++ rest, mark⟩ tokens indents) after := by
  obtain ⟨line, inline, -⟩ := isSimpleKey_line simple
  obtain ⟨oneLine, -⟩ := (styled key).simple (mark.column + 2) line inline
  have place := Mark.past_line mark oneLine
  obtain ⟨token, kind, take⟩ := keyScalar_taken (styled key) inline opens ends
  obtain ⟨tokens', kinds, value⟩ := takeValue_candidate opens
  rw [kind, String.ofList_toList] at kinds
  have past : mark.past (keyBody mark.column key) =
      (mark.past (written (mark.column + 2) key.toList (styleOf key))).along 1 := by
    rw [keyBody_simple simple, Mark.past_append, Mark.past_char _ (by decide), Mark.past_nil]
  refine ⟨?_, tokens', kinds, fun after reaches => ?_⟩
  · rw [past, place]
    exact Nat.lt_succ_of_le (Nat.le_add_right _ _)
  have inside : ∀ i ∈ indents.head?,
      i ≤ (mark.past (written (mark.column + 2) key.toList (styleOf key))).column := fun i mem => by
    rw [place]
    exact Nat.le_trans (opens.inside i mem) (Nat.le_add_right _ _)
  rw [past] at reaches
  have value := reaches.turns ((takeToken_value ends).trans value)
    (isOver_of_kinds kinds (by simp)) (Nat.lt_succ_self _)
  rw [keyBody_simple simple, List.append_assoc]
  exact Reaches.turns ⟨_, ready_inline 0 (resumes_cons (by decide) rest) inside
      fun found mem => simpleKey_fresh simple mem, value⟩
    take (isOver_of_kinds (List.map_cons ..) (by rw [kind]; simp))
    (length_lt_append (styled key).written_ne_nil _)

theorem openBlock_block (here : Cursor) (opens : Opens here.mark.column base indents opening) :
    ∃ tokens', tokens'.map Token.kind = opening ++ tokens.map Token.kind ∧
      openBlock .blockMapStart (block here tokens indents) = block here tokens' (here.mark.column :: base) := by
  cases opens with
  | opened =>
      refine ⟨tokens, rfl, ?_⟩
      rw [openBlock, if_neg (Bool.eq_false_iff.1 (opensAt_opened rfl))]
  | fresh outside =>
      refine ⟨⟨.blockMapStart, here.mark, here.mark⟩ :: tokens, rfl, ?_⟩
      rw [openBlock, if_pos (opensAt_fresh _ rfl outside)]
      rfl

theorem takeKey_block (tokens : List Token) (opens : Opens mark.column base indents opening) :
    ∃ tokens', tokens'.map Token.kind = .key :: (opening ++ tokens.map Token.kind) ∧
      takeKey (block ⟨'?' :: rest, mark⟩ tokens indents) =
        .ok (block ⟨rest, mark.along 1⟩ tokens' (mark.column :: base)) := by
  obtain ⟨tokens', kinds, opened⟩ := openBlock_block ⟨'?' :: rest, mark⟩ opens
  refine ⟨⟨.key, mark, mark.along 1⟩ :: tokens', by rw [List.map_cons, kinds], ?_⟩
  rw [takeKey, if_neg (by simp [block]), opened]
  rfl

theorem takeValue_block (alone : endsWord rest = true) :
    takeToken (block ⟨':' :: rest, mark⟩ tokens (mark.column :: base)) =
      .ok (block ⟨rest, mark.along 1⟩ (⟨.value, mark, mark.along 1⟩ :: tokens) (mark.column :: base)) := by
  refine (takeToken_value alone).trans ?_
  simp [takeValue, block, openBlock, opensAt_opened, Scan.inFlow, take, push, Cursor.pass]

theorem exists_endLine (chars : List Char) :
    ∃ front c, endLine chars = front ++ [c] ∧ isBreak c = true := by
  unfold endLine
  split
  · rename_i closed
    obtain ⟨c, last, ends⟩ := (Option.any_eq_true _ _).1 closed
    obtain ⟨front, rfl⟩ := List.getLast?_eq_some_iff.1 last
    exact ⟨front, c, rfl, ends⟩
  · exact ⟨chars, '\n', rfl, by decide⟩

theorem past_endLine_column (chars : List Char) (count : Nat) :
    (mark.past (endLine chars ++ spaces count)).column = count := by
  obtain ⟨front, c, ended, ends⟩ := exists_endLine chars
  rw [ended, Mark.past_append, Mark.past_append, Mark.past_break _ ends, Mark.past_spaces]
  exact Nat.zero_add count

theorem announcedKey_turns {key : String} (announced : isSimpleKey key = false)
    (opens : Opens mark.column base indents opening) (ends : endsWord rest = true) :
    mark.column < (mark.past (keyBody mark.column key)).column ∧ ∃ tokens', tokens'.map Token.kind =
        .value :: .scalar key (styleOf key) :: .key :: (opening ++ tokens.map Token.kind) ∧
      ∀ after, Reaches ⟨⟨rest, mark.past (keyBody mark.column key)⟩, tokens', mark.column :: base, none, [],
          true⟩ after →
        Turns (block ⟨keyBody mark.column key ++ rest, mark⟩ tokens indents) after := by
  obtain ⟨text, named⟩ : ∃ text, endLine (written (mark.column + 2) key.toList (styleOf key)) = text :=
    ⟨_, rfl⟩
  obtain ⟨tokens₁, kinds, announces⟩ := takeKey_block tokens opens
  obtain ⟨token, kind, turn⟩ := scalar_turn ((mark.along 1).along 1) (styled key)
    (Nat.lt_succ_of_lt (Nat.lt_succ_self _)) (resumes_cons (show isSolid ':' = true by decide) rest)
    (Nat.le_refl _)
  obtain ⟨place, placed⟩ : ∃ place, ((mark.along 1).along 1).past (text ++ spaces mark.column) = place :=
    ⟨_, rfl⟩
  have column : place.column = mark.column := by
    rw [← placed, ← named]
    exact past_endLine_column _ _
  rw [named, placed, resumed_inside (fun i mem => by cases mem; exact Nat.le_of_eq column.symm)] at turn
  have body : keyBody mark.column key = '?' :: ' ' :: (text ++ (spaces mark.column ++ [':'])) :=
    named ▸ keyBody_announced announced mark.column
  rw [String.ofList_toList] at kind
  have past : mark.past (keyBody mark.column key) = place.along 1 := by
    rw [body, Mark.past_char _ (by decide), Mark.past_char _ (by decide), ← List.append_assoc,
      Mark.past_append, placed, Mark.past_char _ (by decide), Mark.past_nil]
  refine ⟨by rw [past, Mark.along, column]; exact Nat.lt_succ_self _,
    ⟨.value, place, place.along 1⟩ :: token :: tokens₁, by simp [kind, kinds], fun after reaches => ?_⟩
  rw [past] at reaches
  have colon : Turns (block ⟨':' :: rest, place⟩ (token :: tokens₁) (mark.column :: base)) after :=
    reaches.turns (by rw [← column]; exact takeValue_block ends) rfl (Nat.lt_succ_self _)
  have resumes : Resumes (text ++ (spaces mark.column ++ ':' :: rest)) := by
    rw [← named]
    exact (styled key).line_resumes _
  have behind : Reaches (block ⟨' ' :: (text ++ (spaces mark.column ++ ':' :: rest)), mark.along 1⟩ tokens₁
      (mark.column :: base)) after :=
    ⟨_, ready_inline 1 resumes (fun i mem => by cases mem; exact Nat.le_succ _)
      (fun found mem => by cases mem), .head turn colon⟩
  rw [body]
  simp only [List.cons_append, List.append_assoc, List.nil_append]
  exact behind.turns ((takeToken_key rfl).trans announces) (isOver_of_kinds kinds (by simp)) (Nat.lt_succ_self _)

theorem key_turns (key : String) (opens : Opens mark.column base indents opening)
    (ends : endsWord rest = true) :
    mark.column < (mark.past (keyBody mark.column key)).column ∧ ∃ tokens' keyAllowed,
      tokens'.map Token.kind =
        .value :: .scalar key (styleOf key) :: .key :: (opening ++ tokens.map Token.kind) ∧
      ∀ after, Reaches ⟨⟨rest, mark.past (keyBody mark.column key)⟩, tokens', mark.column :: base, none, [],
          keyAllowed⟩ after →
        Turns (block ⟨keyBody mark.column key ++ rest, mark⟩ tokens indents) after := by
  cases simple : isSimpleKey key with
  | true =>
      obtain ⟨further, tokens', kinds, turns⟩ := simpleKey_turns simple opens ends
      exact ⟨further, tokens', false, kinds, turns⟩
  | false =>
      obtain ⟨further, tokens', kinds, turns⟩ := announcedKey_turns simple opens ends
      exact ⟨further, tokens', true, kinds, turns⟩

end SecretStore.Yaml.Scan
