import SecretStore.Json.Number

namespace SecretStore.Json

def isBlank (a : UInt8) : Bool := a = 32 || a = 10 || a = 9 || a = 13

def skipBlank (s : Bytes) : Bytes := s.dropWhile isBlank

theorem skipBlank_length (s : Bytes) : (skipBlank s).length ≤ s.length :=
  (List.dropWhile_sublist _).length_le

def skipWord : List Char → Bytes → Except Fault Bytes
  | [], s => .ok s
  | _ :: _, [] => .error ⟨.endOfValue, 0⟩
  | c :: word, a :: rest =>
    if a = octet c then skipWord word rest else .error (behind .literalExpected rest)

theorem skipWord_length {word : List Char} {s rest : Bytes} (h : skipWord word s = .ok rest) :
    rest.length ≤ s.length := by
  fun_induction skipWord word s with
  | case1 => simp only [Except.ok.injEq] at h; simp [← h]
  | case2 => simp at h
  | case3 c word tail ih => have := ih h; simp only [List.length_cons]; omega
  | case4 => simp at h

inductive Opening where
  | null
  | yes
  | no
  | minus
  | digit
  | text
  | list
  | object
  deriving DecidableEq, Repr

def opening? (a : UInt8) : Option Opening :=
  if a = octet 'n' then some .null
  else if a = octet 't' then some .yes
  else if a = octet 'f' then some .no
  else if a = octet '-' then some .minus
  else if (digit? a).isSome then some .digit
  else if a = quote then some .text
  else if a = octet '[' then some .list
  else if a = octet '\x7b' then some .object
  else none

inductive Bracket where
  | list
  | object
  deriving DecidableEq, Repr

def Bracket.closing : Bracket → UInt8
  | .list => octet ']'
  | .object => octet '\x7d'

def Bracket.unclosed : Bracket → Cause
  | .list => .endOfList
  | .object => .endOfObject

def Bracket.endExpected : Bracket → Cause
  | .list => .listEndExpected
  | .object => .objectEndExpected

def comma : UInt8 := octet ','
def colon : UInt8 := octet ':'

def skipColon (s : Bytes) : Except Fault Bytes :=
  match skipBlank s with
  | [] => .error ⟨.endOfObject, 0⟩
  | a :: rest => if a = colon then .ok rest else .error (ahead .colonExpected (a :: rest))

def skipName (s : Bytes) : Except Fault Bytes :=
  match skipBlank s with
  | [] => .error ⟨.endOfObject, 0⟩
  | a :: rest =>
    if a = quote then
      match skipText rest with
      | .ok after => skipColon after
      | .error fault => .error fault
    else .error (ahead .keyExpected (a :: rest))

theorem skipColon_length {s rest : Bytes} (h : skipColon s = .ok rest) : rest.length < s.length := by
  unfold skipColon at h
  have := skipBlank_length s
  split at h
  · simp at h
  · rename_i eq
    rw [eq] at this
    split at h
    · simp only [Except.ok.injEq] at h
      simp only [List.length_cons] at this
      rw [← h]; omega
    · simp at h

theorem skipName_length {s rest : Bytes} (h : skipName s = .ok rest) : rest.length < s.length := by
  unfold skipName at h
  have := skipBlank_length s
  split at h
  · simp at h
  · rename_i eq
    rw [eq] at this
    simp only [List.length_cons] at this
    split at h
    · split at h
      · rename_i text
        have := skipText_length text
        have := skipColon_length h
        omega
      · simp at h
    · simp at h

def skipScalar (first : Opening) (s : Bytes) : Except Fault Bytes :=
  match first with
  | .null => skipWord ['u', 'l', 'l'] s
  | .yes => skipWord ['r', 'u', 'e'] s
  | .no => skipWord ['a', 'l', 's', 'e'] s
  | .minus => skipNumber s
  | .text => skipText s
  | .digit | .list | .object => .ok s

theorem skipScalar_length {first : Opening} {s rest : Bytes} (h : skipScalar first s = .ok rest) :
    rest.length ≤ s.length := by
  unfold skipScalar at h
  split at h
  · exact skipWord_length h
  · exact skipWord_length h
  · exact skipWord_length h
  · exact Nat.le_of_lt (skipNumber_length h)
  · exact Nat.le_of_lt (skipText_length h)
  · simp only [Except.ok.injEq] at h; simp [← h]
  · simp only [Except.ok.injEq] at h; simp [← h]
  · simp only [Except.ok.injEq] at h; simp [← h]

mutual

def skipWithin (around : List Bracket) (s : Bytes) : Except Fault Bytes :=
  match _hs : skipBlank s with
  | [] => .error ⟨.endOfValue, 0⟩
  | a :: rest =>
    have := skipBlank_length s
    match opening? a with
    | none => .error (ahead .valueExpected (a :: rest))
    | some .list =>
      match _hr : skipBlank rest with
      | [] => .error ⟨.endOfList, 0⟩
      | b :: after =>
        have := skipBlank_length rest
        if b = octet ']' then skipAfter around after else skipWithin (.list :: around) (b :: after)
    | some .object =>
      match _hr : skipBlank rest with
      | [] => .error ⟨.endOfObject, 0⟩
      | b :: after =>
        have := skipBlank_length rest
        if b = octet '\x7d' then skipAfter around after
        else match hn : skipName (b :: after) with
          | .error fault => .error fault
          | .ok value =>
            have := skipName_length hn
            skipWithin (.object :: around) value
    | some .digit =>
      match hn : skipNumber (a :: rest) with
      | .error fault => .error fault
      | .ok after =>
        have := skipNumber_length hn
        skipAfter around after
    | some first =>
      match hn : skipScalar first rest with
      | .error fault => .error fault
      | .ok after =>
        have := skipScalar_length hn
        skipAfter around after
termination_by s.length
decreasing_by all_goals simp_all only [List.length_cons]; omega

def skipAfter (around : List Bracket) (s : Bytes) : Except Fault Bytes :=
  match around with
  | [] => .ok s
  | bracket :: around =>
    match _hs : skipBlank s with
    | [] => .error ⟨bracket.unclosed, 0⟩
    | a :: rest =>
      have := skipBlank_length s
      if a = bracket.closing then skipAfter around rest
      else if a = comma then
        match bracket with
        | .list => skipWithin (.list :: around) rest
        | .object =>
          match hn : skipName rest with
          | .error fault => .error fault
          | .ok value =>
            have := skipName_length hn
            skipWithin (.object :: around) value
      else .error (ahead bracket.endExpected (a :: rest))
termination_by s.length
decreasing_by all_goals simp_all only [List.length_cons]; omega

end

def skipValue (s : Bytes) : Except Fault Bytes :=
  skipWithin [] s

mutual

theorem skipWithin_length {around : List Bracket} {s rest : Bytes}
    (h : skipWithin around s = .ok rest) : rest.length < s.length := by
  have blank := skipBlank_length s
  rw [skipWithin.eq_def] at h
  split at h
  · simp at h
  · rename_i a tail eq
    rw [eq] at blank
    simp only [List.length_cons] at blank
    have inner := skipBlank_length tail
    dsimp only at h
    split at h
    · simp at h
    · split at h
      · simp at h
      · rename_i eq
        rw [eq] at inner
        simp only [List.length_cons] at inner
        split at h
        · have := skipAfter_length h; omega
        · have := skipWithin_length h; simp only [List.length_cons] at this; omega
    · split at h
      · simp at h
      · rename_i eq
        rw [eq] at inner
        simp only [List.length_cons] at inner
        split at h
        · have := skipAfter_length h; omega
        · split at h
          · simp at h
          · rename_i name
            have := skipName_length name
            have := skipWithin_length h
            simp only [List.length_cons] at *
            omega
    · split at h
      · simp at h
      · rename_i number
        have := skipNumber_length number
        have := skipAfter_length h
        simp only [List.length_cons] at *
        omega
    · split at h
      · simp at h
      · rename_i scalar
        have := skipScalar_length scalar
        have := skipAfter_length h
        omega
termination_by s.length
decreasing_by all_goals simp_all only [List.length_cons]; omega

theorem skipAfter_length {around : List Bracket} {s rest : Bytes}
    (h : skipAfter around s = .ok rest) : rest.length ≤ s.length := by
  have blank := skipBlank_length s
  rw [skipAfter.eq_def] at h
  split at h
  · simp only [Except.ok.injEq] at h; simp [← h]
  · split at h
    · simp at h
    · rename_i a tail eq
      rw [eq] at blank
      simp only [List.length_cons] at blank
      dsimp only at h
      split at h
      · have := skipAfter_length h; omega
      · split at h
        · split at h
          · have := skipWithin_length h; omega
          · split at h
            · simp at h
            · rename_i name
              have := skipName_length name
              have := skipWithin_length h
              omega
        · simp at h
termination_by s.length
decreasing_by all_goals simp_all only [List.length_cons]; omega

end

theorem skipValue_length {s rest : Bytes} (h : skipValue s = .ok rest) : rest.length < s.length :=
  skipWithin_length h

end SecretStore.Json
