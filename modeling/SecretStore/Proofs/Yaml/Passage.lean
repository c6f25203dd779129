import Mathlib.Tactic.Tauto
import SecretStore.Yaml.Writer
import SecretStore.Yaml.Token.Stream

namespace SecretStore.Yaml

theorem isAllowed_of_isPrintable {c : Char} (shows : isPrintable c = true) : isAllowed c = true := by
  simp only [isPrintable, isAllowed, Bool.or_eq_true, Bool.and_eq_true] at shows ⊢
  tauto

theorem ne_of_isPrintable {c d : Char} (shows : isPrintable c = true) (hidden : isPrintable d = false) :
    c ≠ d := by
  rintro rfl
  rw [shows] at hidden
  cases hidden

theorem isBlank_eq_isSpace {c : Char} (shows : isPrintable c = true) : isBlank c = isSpace c := by
  have tab : c ≠ '\t' := ne_of_isPrintable shows (by decide)
  simp [isBlank, isSpace, tab]

theorem not_isBlank_of_isBreak {c : Char} (ends : isBreak c = true) : isBlank c = false := by
  simp only [isBreak, Bool.or_eq_true, decide_eq_true_eq] at ends
  rcases ends with (((rfl | rfl) | rfl) | rfl) | rfl <;> decide

theorem break?_line {c : Char} (line : isBreak c = false) (rest : List Char) :
    break? (c :: rest) = none := by
  unfold break?
  split
  · rename_i eq
    cases eq
    cases line
  · rename_i eq
    cases eq
    have separator : ¬ (c = '\u2028' ∨ c = '\u2029') := by
      rintro (rfl | rfl) <;> cases line
    rw [if_neg separator, line]
    rfl
  · rename_i eq
    cases eq

theorem break?_written {c : Char} (shows : isPrintable c = true) (ends : isBreak c = true)
    (rest : List Char) : break? (c :: rest) = some (c, rest, 1) := by
  simp only [isBreak, Bool.or_eq_true, decide_eq_true_eq] at ends
  rcases ends with (((rfl | rfl) | rfl) | rfl) | rfl
  · rfl
  · cases shows
  · cases shows
  · rfl
  · rfl

theorem endsWord_append {first : List Char} (given : first ≠ []) (rest : List Char) :
    endsWord (first ++ rest) = endsWord first := by
  cases first with
  | nil => exact absurd rfl given
  | cons c more => rfl

theorem strayOffset?_of_isPrintable {text : List Char} (shows : ∀ c ∈ text, isPrintable c = true) :
    strayOffset? text = none := by
  induction text with
  | nil => rfl
  | cons c rest ih =>
      have first := isAllowed_of_isPrintable (shows c (by simp))
      simp only [strayOffset?, first, if_true, ih fun d mem => shows d (by simp [mem]), Option.map_none]

theorem withoutEncodingMark_of_isPrintable {text : List Char}
    (shows : ∀ c ∈ text, isPrintable c = true) : withoutEncodingMark text = (0, text) := by
  unfold withoutEncodingMark
  split
  · rename_i rest
    have mark : isPrintable '\ufeff' = true := shows '\ufeff' (by simp)
    cases mark
  · rfl

def Mark.beyond (mark : Mark) (c : Char) : Mark :=
  if isBreak c then mark.nextLine 1 else mark.along 1

def Mark.past (mark : Mark) (text : List Char) : Mark := text.foldl Mark.beyond mark

namespace Mark

variable (mark : Mark)

@[simp] theorem past_nil : mark.past [] = mark := rfl

theorem past_cons (c : Char) (text : List Char) :
    mark.past (c :: text) = (mark.beyond c).past text := rfl

@[simp] theorem past_append (first rest : List Char) :
    mark.past (first ++ rest) = (mark.past first).past rest := List.foldl_append

theorem past_break {c : Char} (ends : isBreak c = true) (text : List Char) :
    mark.past (c :: text) = (mark.nextLine 1).past text := by
  rw [past_cons, beyond, if_pos ends]

theorem past_char {c : Char} (line : isBreak c = false) (text : List Char) :
    mark.past (c :: text) = (mark.along 1).past text := by
  rw [past_cons, beyond, line]
  rfl

theorem past_line {text : List Char} (line : ∀ c ∈ text, isBreak c = false) :
    mark.past text = mark.along text.length := by
  induction text generalizing mark with
  | nil => rfl
  | cons c rest ih =>
      rw [past_char mark (line c (by simp)), ih _ fun d mem => line d (by simp [mem])]
      simp only [along, List.length_cons, Mark.mk.injEq, true_and]
      omega

theorem isBreak_spaces {count : Nat} {c : Char} (mem : c ∈ spaces count) : isBreak c = false := by
  rw [List.eq_of_mem_replicate mem]
  decide

@[simp] theorem past_spaces (count : Nat) : mark.past (spaces count) = mark.along count := by
  rw [past_line mark fun _ mem => isBreak_spaces mem, spaces, List.length_replicate]

theorem line_le_past (text : List Char) : mark.line ≤ (mark.past text).line := by
  induction text generalizing mark with
  | nil => exact Nat.le_refl _
  | cons c rest ih =>
      refine Nat.le_trans ?_ (ih (mark.beyond c))
      unfold beyond
      split
      · exact Nat.le_succ _
      · exact Nat.le_refl _

theorem line_lt_past {c : Char} (ends : isBreak c = true) (text : List Char) :
    mark.line < (mark.past (c :: text)).line := by
  rw [past_break mark ends]
  exact line_le_past (mark.nextLine 1) text

end Mark

theorem Cursor.pass_append (first rest : List Char) (mark : Mark) :
    Cursor.pass first.length ⟨first ++ rest, mark⟩ = ⟨rest, mark.along first.length⟩ := by
  rw [Cursor.pass, List.drop_left]

def isSolid (c : Char) : Bool := !isGap c && c ≠ '#' && c ≠ '\ufeff'

def Resumes (next : List Char) : Prop := next.head?.all isSolid = true

theorem isSolid_iff {c : Char} : isSolid c = true ↔
    isBlank c = false ∧ isBreak c = false ∧ c ≠ '#' ∧ c ≠ '\ufeff' := by
  simp only [isSolid, isGap, Bool.and_eq_true, Bool.not_eq_true', Bool.or_eq_false_iff,
    decide_eq_true_eq, ne_eq, and_assoc]

theorem resumes_cons {c : Char} (solid : isSolid c = true) (rest : List Char) : Resumes (c :: rest) := solid

theorem resumes_append {first : List Char} (solid : first.head?.any isSolid = true) (rest : List Char) :
    Resumes (first ++ rest) := by
  cases first with
  | nil => cases solid
  | cons c first => exact resumes_cons solid _

end SecretStore.Yaml
