import SecretStore.Yaml.Alphabet
import SecretStore.Yaml.Fault

namespace SecretStore.Yaml

def Mark.along (mark : Mark) (count : Nat) : Mark :=
  ⟨mark.index + count, mark.line, mark.column + count⟩

def Mark.nextLine (mark : Mark) (count : Nat) : Mark := ⟨mark.index + count, mark.line + 1, 0⟩

structure Cursor where
  rest : List Char
  mark : Mark
  deriving Repr

abbrev Taken (α : Type) := Except GrammarFault (α × Cursor)

def break? : List Char → Option (Char × List Char × Nat)
  | '\r' :: '\n' :: rest => some ('\n', rest, 2)
  | c :: rest =>
    if c = '\u2028' ∨ c = '\u2029' then some (c, rest, 1)
    else if isBreak c then some ('\n', rest, 1)
    else none
  | [] => none

theorem break?_length {s rest : List Char} {c : Char} {count : Nat}
    (h : break? s = some (c, rest, count)) : rest.length < s.length := by
  unfold break? at h
  split at h
  · simp only [Option.some.injEq, Prod.mk.injEq] at h
    simp only [← h.2.1, List.length_cons]; omega
  · split at h
    · simp only [Option.some.injEq, Prod.mk.injEq] at h
      simp only [← h.2.1, List.length_cons]; omega
    · split at h
      · simp only [Option.some.injEq, Prod.mk.injEq] at h
        simp only [← h.2.1, List.length_cons]; omega
      · simp at h
  · simp at h

theorem break?_isSome {c : Char} (rest : List Char) (h : isBreak c = true) :
    (break? (c :: rest)).isSome = true := by
  unfold break?
  split
  · rfl
  · rename_i eq
    simp only [List.cons.injEq] at eq
    obtain ⟨rfl, rfl⟩ := eq
    split <;> rfl
  · rename_i eq
    simp at eq

namespace Cursor

def pass (count : Nat) (here : Cursor) : Cursor :=
  ⟨here.rest.drop count, here.mark.along count⟩

def takeRun (wanted : Char → Bool) (here : Cursor) : List Char × Cursor :=
  let run := here.rest.takeWhile wanted
  (run, here.pass run.length)

def passRun (wanted : Char → Bool) (here : Cursor) : Cursor := (here.takeRun wanted).2

def takeBreak (here : Cursor) : Option Char × Cursor :=
  match break? here.rest with
  | some (c, rest, count) => (some c, ⟨rest, here.mark.nextLine count⟩)
  | none => (none, here)

def takeLine (here : Cursor) : List Char × Option Char × Cursor :=
  let (line, after) := here.takeRun fun c => !isBreak c
  let (ended, after) := after.takeBreak
  (line, ended, after)

def startsWith (c : Char) (here : Cursor) : Bool := here.rest.head? = some c

def endsWord (here : Cursor) : Bool := Yaml.endsWord here.rest

theorem pass_length_lt {here : Cursor} {c : Char} {rest : List Char} (h : here.rest = c :: rest) (count : Nat) :
    (here.pass (count + 1)).rest.length < here.rest.length := by
  simp only [pass, h, List.length_drop, List.length_cons]
  omega

theorem takeBreak_length_some {here after : Cursor} {c : Char}
    (h : here.takeBreak = (some c, after)) : after.rest.length < here.rest.length := by
  unfold takeBreak at h
  split at h
  · rename_i found
    simp only [Prod.mk.injEq] at h
    rw [← h.2]
    exact break?_length found
  · simp at h

theorem takeBreak_length (here : Cursor) : here.takeBreak.2.rest.length ≤ here.rest.length := by
  unfold takeBreak
  split
  · rename_i found
    exact Nat.le_of_lt (break?_length found)
  · exact Nat.le_refl _

theorem takeBreak_length_lt {here : Cursor} (h : here.rest.head?.any isBreak = true) :
    here.takeBreak.2.rest.length < here.rest.length := by
  unfold takeBreak
  split
  · rename_i found
    exact break?_length found
  · rename_i missed
    cases eq : here.rest with
    | nil => simp [eq] at h
    | cons c rest =>
      have := break?_isSome rest (by simpa [eq] using h : isBreak c = true)
      rw [eq] at missed
      simp [missed] at this

theorem takeLine_length {here : Cursor} (h : here.rest ≠ []) :
    here.takeLine.2.2.rest.length < here.rest.length := by
  obtain ⟨rest, mark⟩ := here
  cases rest with
  | nil => exact absurd rfl h
  | cons c rest =>
    simp only [takeLine, takeRun, pass]
    by_cases end? : isBreak c = true
    · have run : (c :: rest).takeWhile (fun c => !isBreak c) = [] := by simp [end?]
      simp only [run, List.length_nil, List.drop_zero]
      exact takeBreak_length_lt (by simp [end?])
    · have run : (c :: rest).takeWhile (fun c => !isBreak c) =
          c :: rest.takeWhile fun c => !isBreak c := by simp [end?]
      simp only [run]
      refine Nat.lt_of_le_of_lt (takeBreak_length _) ?_
      simp only [List.length_cons, List.drop_succ_cons, List.length_drop]
      omega

def fault {α : Type} (problem : Problem) (during : Activity) (start : Mark) (here : Cursor) :
    Except GrammarFault α :=
  .error ⟨problem, here.mark, 0, some (during, start)⟩

def finishLine (problem : Problem) (during : Activity) (start : Mark) (here : Cursor) :
    Except GrammarFault Cursor :=
  let here := here.passRun isBlank
  let here := if here.startsWith '#' then here.passRun fun c => !isBreak c else here
  if here.rest.head?.all isBreak then .ok here.takeBreak.2 else here.fault problem during start

end Cursor

end SecretStore.Yaml
