import SecretStore.Proofs.Yaml.Literal
import SecretStore.Proofs.Yaml.Plain
import SecretStore.Proofs.Yaml.Quoted

namespace SecretStore.Yaml

inductive Styled (chars : List Char) : Style → Prop where
  | plain (fits : FitsPlainly chars) : Styled chars .plain
  | single (fits : FitsSingle chars) : Styled chars .single
  | double : Styled chars .double
  | literal (given : chars ≠ []) (shows : ∀ c ∈ chars, isPrintable c = true) : Styled chars .literal

theorem looksOtherwise_empty : looksOtherwise "" = true := by
  simp [looksOtherwise, Found.ofPlain]

theorem styled (text : String) : Styled text.toList (styleOf text) := by
  unfold styleOf
  dsimp only
  split
  · split
    · rename_i allowed
      simp only [allowsLiteral, Bool.and_eq_true, decide_eq_true_eq, List.all_eq_true] at allowed
      exact .literal allowed.1.1.1 allowed.1.1.2
    · exact .double
  · rename_i line
    split
    · rename_i plain
      rw [Bool.and_eq_true, Bool.not_eq_true'] at plain
      refine .plain ⟨plain.2, fun empty => ?_⟩
      rw [String.toList_eq_nil_iff.1 empty, looksOtherwise_empty] at plain
      cases plain.1
    · split
      · rename_i allowed
        simp only [allowsSingle, Bool.and_eq_true, Bool.not_eq_true', List.all_eq_true] at allowed
        exact .single ⟨allowed.1.1, by simpa using line, allowed.1.2, allowed.2⟩
      · exact .double

def written (indent : Nat) (chars : List Char) : Style → List Char
  | .single => '\'' :: singleBody indent false chars ++ ['\'']
  | .double => '"' :: chars.flatMap doubleCharacter ++ ['"']
  | .literal => literalHeader chars ++ '\n' :: literalBody indent true chars
  | _ => chars

theorem scalar_eq (indent : Nat) (text : String) :
    scalar indent text = written indent text.toList (styleOf text) := by
  unfold scalar written
  cases styleOf text <;> rfl

variable {indent : Nat} {chars : List Char} {style : Style}

theorem Styled.starts (fit : Styled chars style) :
    ∃ c rest, written indent chars style = c :: rest ∧ isSolid c = true := by
  cases fit with
  | plain fits =>
      cases chars with
      | nil => exact absurd rfl fits.given
      | cons c chars =>
          obtain ⟨-, word, sign, shows⟩ := fits.first
          have comment : c ≠ '#' := by
            rintro rfl
            cases (startsWithSign_cons sign).1
          exact ⟨c, chars, rfl, by simp [isSolid, word, comment, ne_of_isPrintable shows
            (show isPrintable '\ufeff' = false by decide)]⟩
  | single => exact ⟨'\'', _, rfl, by decide⟩
  | double => exact ⟨'"', _, rfl, by decide⟩
  | literal => exact ⟨'|', _, rfl, by decide⟩

theorem Styled.written_ne_nil (fit : Styled chars style) : written indent chars style ≠ [] := by
  obtain ⟨c, rest, eq, -⟩ := fit.starts
  rw [eq]
  exact List.cons_ne_nil _ _

theorem Styled.line_resumes (fit : Styled chars style) (rest : List Char) :
    Resumes (endLine (written indent chars style) ++ rest) := by
  refine resumes_append ?_ rest
  obtain ⟨c, more, starts, solid⟩ := fit.starts
  rw [endLine_head fit.written_ne_nil, starts]
  exact solid

theorem spaces_shows {c : Char} {count : Nat} (mem : c ∈ spaces count) : isPrintable c = true := by
  rw [List.eq_of_mem_replicate mem]
  decide

theorem singleBody_shows {c : Char} {afterBreak : Bool} (shows : ∀ d ∈ chars, isPrintable d = true)
    (mem : c ∈ singleBody indent afterBreak chars) : isPrintable c = true := by
  induction chars generalizing afterBreak with
  | nil =>
      unfold singleBody at mem
      split at mem
      · exact spaces_shows mem
      · cases mem
  | cons d chars ih =>
      have tail : ∀ e ∈ chars, isPrintable e = true := fun e mem => shows e (by simp [mem])
      rw [singleBody] at mem
      split at mem
      · rcases List.mem_cons.1 mem with rfl | mem
        · exact shows _ (by simp)
        · exact ih tail mem
      · simp only [List.mem_append] at mem
        rcases mem with (mem | mem) | mem
        · split at mem
          · exact spaces_shows mem
          · cases mem
        · split at mem
          · simp only [List.mem_cons, List.not_mem_nil, or_false, or_self] at mem
            rw [mem]
            decide
          · rw [List.mem_singleton.1 mem]
            exact shows _ (by simp)
        · exact ih tail mem

theorem literalBody_shows {c : Char} {afterBreak : Bool} (shows : ∀ d ∈ chars, isPrintable d = true)
    (mem : c ∈ literalBody indent afterBreak chars) : isPrintable c = true := by
  induction chars generalizing afterBreak with
  | nil => cases mem
  | cons d chars ih =>
      have tail : ∀ e ∈ chars, isPrintable e = true := fun e mem => shows e (by simp [mem])
      rw [literalBody] at mem
      split at mem
      · rcases List.mem_cons.1 mem with rfl | mem
        · exact shows _ (by simp)
        · exact ih tail mem
      · simp only [List.mem_append, List.mem_cons] at mem
        rcases mem with mem | rfl | mem
        · split at mem
          · exact spaces_shows mem
          · cases mem
        · exact shows _ (by simp)
        · exact ih tail mem

theorem literalHeader_shows {c : Char} (mem : c ∈ literalHeader chars) : isPrintable c = true := by
  have header (hides : Bool) (chomp : Chomp) :
      ('|' :: (indentSigns hides ++ chomp.signs)).all isPrintable = true := by
    cases hides <;> cases chomp <;> decide
  rw [literalHeader_eq] at mem
  exact List.all_eq_true.1 (header _ _) c mem

theorem doubleCharacters_shows {c : Char} (mem : c ∈ chars.flatMap doubleCharacter) :
    isPrintable c = true ∧ isBreak c = false := by
  obtain ⟨d, -, mem⟩ := List.mem_flatMap.1 mem
  exact (doubleSpelling d).shows_mem mem

theorem FitsPlainly.shows (fits : FitsPlainly chars) :
    ∀ c ∈ chars, isPrintable c = true ∧ isBreak c = false := by
  have allowed := fits.allowed
  simp only [allowsPlain, Bool.and_eq_true, List.all_eq_true, Bool.not_eq_true'] at allowed
  exact allowed.1.1.1.1

theorem Styled.shows (fit : Styled chars style) :
    ∀ c ∈ written indent chars style, isPrintable c = true := by
  intro c mem
  cases fit with
  | plain fits => exact (fits.shows c mem).1
  | single fits =>
      simp only [written, List.cons_append, List.mem_cons, List.mem_append, List.not_mem_nil, or_false] at mem
      rcases mem with rfl | mem | rfl
      · decide
      · exact singleBody_shows fits.shows mem
      · decide
  | double =>
      simp only [written, List.cons_append, List.mem_cons, List.mem_append, List.not_mem_nil, or_false] at mem
      rcases mem with rfl | mem | rfl
      · decide
      · exact (doubleCharacters_shows mem).1
      · decide
  | literal given shows =>
      simp only [written, List.mem_append, List.mem_cons] at mem
      rcases mem with mem | rfl | mem
      · exact literalHeader_shows mem
      · decide
      · exact literalBody_shows shows mem

theorem utf8ByteSize_cons (c : Char) (chars : List Char) :
    (String.ofList (c :: chars)).utf8ByteSize = c.utf8Size + (String.ofList chars).utf8ByteSize := by
  rw [← List.singleton_append, String.ofList_append, String.utf8ByteSize_append]
  simp

theorem flatMap_length_le {f : Char → List Char} (short : ∀ c, (f c).length ≤ 4 * c.utf8Size)
    (chars : List Char) : (chars.flatMap f).length ≤ 4 * (String.ofList chars).utf8ByteSize := by
  induction chars with
  | nil => exact Nat.zero_le _
  | cons c chars ih =>
      have := short c
      rw [List.flatMap_cons, List.length_append, utf8ByteSize_cons]
      omega

def doubledQuote (c : Char) : List Char := if c = '\'' then ['\'', '\''] else [c]

theorem singleBody_line (line : ∀ c ∈ chars, isBreak c = false) :
    singleBody indent false chars = chars.flatMap doubledQuote := by
  induction chars with
  | nil => rfl
  | cons c chars ih =>
      rw [singleBody_char (line c (by simp)), ih fun d mem => line d (by simp [mem])]
      rfl

theorem doubledQuote_length (c : Char) : (doubledQuote c).length ≤ 4 * c.utf8Size := by
  have := c.utf8Size_pos
  unfold doubledQuote
  split <;> simp only [List.length_cons, List.length_nil] <;> omega

theorem Styled.simple (indent : Nat) (fit : Styled chars style)
    (line : ∀ c ∈ chars, isBreak c = false) (inline : style ≠ .literal) :
    (∀ c ∈ written indent chars style, isBreak c = false) ∧
      (written indent chars style).length ≤ 4 * (String.ofList chars).utf8ByteSize + 2 := by
  cases fit with
  | plain =>
      refine ⟨line, ?_⟩
      have short := flatMap_length_le (f := ([·])) (fun c => by have := c.utf8Size_pos; simp; omega) chars
      rw [List.flatMap_singleton'] at short
      exact Nat.le_add_right_of_le short
  | single =>
      rw [written, singleBody_line line]
      refine ⟨fun c mem => ?_, ?_⟩
      · simp only [List.cons_append, List.mem_cons, List.mem_append, List.not_mem_nil, or_false,
          List.mem_flatMap, doubledQuote] at mem
        rcases mem with rfl | ⟨d, given, mem⟩ | rfl
        · decide
        · split at mem
          · simp only [List.mem_cons, List.not_mem_nil, or_false, or_self] at mem
            rw [mem]
            decide
          · rw [List.mem_singleton.1 mem]
            exact line d given
        · decide
      · have := flatMap_length_le doubledQuote_length chars
        simp only [List.cons_append, List.length_cons, List.length_append, List.length_nil]
        omega
  | double =>
      refine ⟨fun c mem => ?_, ?_⟩
      · simp only [written, List.cons_append, List.mem_cons, List.mem_append, List.not_mem_nil,
          or_false] at mem
        rcases mem with rfl | mem | rfl
        · decide
        · exact (doubleCharacters_shows mem).2
        · decide
      · have := flatMap_length_le (fun c => (doubleSpelling c).length_le) chars
        simp only [written, List.cons_append, List.length_cons, List.length_append, List.length_nil]
        omega
  | literal => exact absurd rfl inline

theorem isSimpleKey_line {key : String} (simple : isSimpleKey key = true) :
    (∀ c ∈ key.toList, isBreak c = false) ∧ styleOf key ≠ .literal ∧ key.utf8ByteSize ≤ 128 := by
  simp only [isSimpleKey, Bool.and_eq_true, Bool.not_eq_true', List.any_eq_false, Bool.not_eq_true,
    decide_eq_true_eq] at simple
  refine ⟨simple.1, fun literal => ?_, simple.2⟩
  unfold styleOf at literal
  dsimp only at literal
  split at literal
  · rename_i broken
    have line := simple.1 '\n' (by simpa using broken)
    cases line
  · split at literal
    · cases literal
    · split at literal <;> cases literal

end SecretStore.Yaml
