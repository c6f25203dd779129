import SecretStore.Json.Fault

namespace SecretStore.Json

abbrev Step (α : Type) := Except Fault (α × Bytes)

def octet (c : Char) : UInt8 := UInt8.ofNat c.toNat

def quote : UInt8 := 34
def backslash : UInt8 := 92

def hexValue? (a : UInt8) : Option Nat :=
  let n := a.toNat
  if 48 ≤ n ∧ n ≤ 57 then some (n - 48)
  else if 65 ≤ n ∧ n ≤ 70 then some (n - 55)
  else if 97 ≤ n ∧ n ≤ 102 then some (n - 87)
  else none

def hexUnit : Bytes → Step Nat
  | a :: b :: c :: d :: rest =>
    match hexValue? a, hexValue? b, hexValue? c, hexValue? d with
    | some a, some b, some c, some d => .ok (((a * 16 + b) * 16 + c) * 16 + d, rest)
    | _, _, _, _ => .error ⟨.badEscape, rest.length⟩
  | _ => .error ⟨.endOfString, 0⟩

def isHigh (unit : Nat) : Bool := 0xD800 ≤ unit && unit ≤ 0xDBFF
def isLow (unit : Nat) : Bool := 0xDC00 ≤ unit && unit ≤ 0xDFFF

def paired (high low : Nat) : Char :=
  Char.ofNat (0x10000 + (high - 0xD800) * 0x400 + (low - 0xDC00))

def lowHalf (high : Nat) : Bytes → Step Char
  | [] => .error ⟨.endOfString, 0⟩
  | a :: rest =>
    if a ≠ backslash then .error ⟨.brokenSurrogate, rest.length⟩
    else match rest with
      | [] => .error ⟨.endOfString, 0⟩
      | u :: rest =>
        if u ≠ octet 'u' then .error ⟨.brokenSurrogate, rest.length⟩
        else match hexUnit rest with
          | .error fault => .error fault
          | .ok (low, rest) =>
            if isLow low then .ok (paired high low, rest)
            else .error ⟨.loneSurrogate, rest.length⟩

def unicodeEscape (s : Bytes) : Step Char :=
  match hexUnit s with
  | .error fault => .error fault
  | .ok (unit, rest) =>
    if isLow unit then .error ⟨.loneSurrogate, rest.length⟩
    else if isHigh unit then lowHalf unit rest
    else .ok (Char.ofNat unit, rest)

def shortEscape? (a : UInt8) : Option Char :=
  if a = quote then some '"'
  else if a = backslash then some '\\'
  else if a = octet '/' then some '/'
  else if a = octet 'b' then some '\x08'
  else if a = octet 'f' then some '\x0c'
  else if a = octet 'n' then some '\n'
  else if a = octet 'r' then some '\r'
  else if a = octet 't' then some '\t'
  else none

def escape : Bytes → Step Char
  | [] => .error ⟨.endOfString, 0⟩
  | a :: rest =>
    if a = octet 'u' then unicodeEscape rest
    else match shortEscape? a with
      | some c => .ok (c, rest)
      | none => .error ⟨.badEscape, rest.length⟩

theorem hexUnit_length {s rest : Bytes} {unit : Nat} (h : hexUnit s = .ok (unit, rest)) :
    rest.length < s.length := by
  unfold hexUnit at h
  split at h
  · split at h
    · cases h; simp only [List.length_cons]; omega
    · cases h
  · cases h

theorem lowHalf_length {s rest : Bytes} {high : Nat} {c : Char}
    (h : lowHalf high s = .ok (c, rest)) : rest.length < s.length := by
  unfold lowHalf at h
  split at h
  · simp at h
  · split at h
    · simp at h
    · split at h
      · simp at h
      · split at h
        · simp at h
        · split at h
          · simp at h
          · rename_i hit
            split at h
            · have := hexUnit_length hit
              simp only [Except.ok.injEq, Prod.mk.injEq] at h
              simp only [List.length_cons, ← h.2]; omega
            · simp at h

theorem unicodeEscape_length {s rest : Bytes} {c : Char}
    (h : unicodeEscape s = .ok (c, rest)) : rest.length < s.length := by
  unfold unicodeEscape at h
  split at h
  · cases h
  · rename_i unit middle hit
    have := hexUnit_length hit
    repeat' split at h
    · cases h
    · have := lowHalf_length h; omega
    · cases h; omega

theorem escape_length {s rest : Bytes} {c : Char} (h : escape s = .ok (c, rest)) :
    rest.length < s.length := by
  unfold escape at h
  split at h
  · cases h
  · split at h
    · have := unicodeEscape_length h
      simp only [List.length_cons]; omega
    · split at h
      · cases h; simp
      · cases h

inductive Spelled where
  | raw (a : UInt8)
  | escaped (c : Char)
  deriving DecidableEq, Repr

def spellings (s : Bytes) : Step (List Spelled) :=
  match s with
  | [] => .error ⟨.endOfString, 0⟩
  | a :: rest =>
    if a = quote then .ok ([], rest)
    else if a = backslash then
      match h : escape rest with
      | .error fault => .error fault
      | .ok (c, after) =>
        have := escape_length h
        match spellings after with
        | .error fault => .error fault
        | .ok (more, rest) => .ok (.escaped c :: more, rest)
    else if a < 0x20 then .error ⟨.controlCharacter, rest.length⟩
    else match spellings rest with
      | .error fault => .error fault
      | .ok (more, rest) => .ok (.raw a :: more, rest)
termination_by s.length

theorem spellings_length {s rest : Bytes} {found : List Spelled} (h : spellings s = .ok (found, rest)) :
    rest.length < s.length := by
  induction hn : s.length using Nat.strongRecOn generalizing s rest found with
  | _ n ih =>
    subst hn
    rw [spellings.eq_def] at h
    split at h
    · simp at h
    · rename_i a tail
      split at h
      · simp only [Except.ok.injEq, Prod.mk.injEq] at h; simp [← h.2]
      split at h
      · split at h
        · simp at h
        · rename_i c after hit
          have short := escape_length hit
          dsimp only at h
          split at h
          · simp at h
          · rename_i again
            simp only [Except.ok.injEq, Prod.mk.injEq] at h
            have := ih _ (by simp only [List.length_cons]; omega) again rfl
            simp only [← h.2, List.length_cons]; omega
      split at h
      · simp at h
      split at h
      · simp at h
      · rename_i again
        simp only [Except.ok.injEq, Prod.mk.injEq] at h
        have := ih _ (by simp) again rfl
        simp only [← h.2, List.length_cons]; omega

def spelledOctets : List Spelled → Bytes
  | [] => []
  | .raw a :: rest => a :: spelledOctets rest
  | .escaped c :: rest => String.utf8EncodeChar c ++ spelledOctets rest

/-- The number of octets before the first invalid one, as a reader of octets counts them. -/
def soundRaw (s : Bytes) : Nat → Nat → Nat
  | _, 0 => 0
  | 0, _ => 0
  | sound, fuel + 1 =>
    match s with
    | [] => 0
    | a :: rest =>
      if a = backslash then
        match escape rest with
        | .ok (c, after) =>
          (s.length - after.length) + soundRaw after (sound - c.utf8Size) fuel
        | .error _ => 0
      else 1 + soundRaw rest (sound - 1) fuel

/-- Invalid UTF-8 is noticed at the closing quote and reported at its first octet. -/
def readText (s : Bytes) : Step String :=
  match spellings s with
  | .error fault => .error fault
  | .ok (found, rest) =>
    let octets := spelledOctets found
    match Utf8.text? octets with
    | some text => .ok (text, rest)
    | none =>
      let passed := soundRaw s (Utf8.soundLength octets) s.length
      .error ⟨.badCodePoint, s.length - (passed + 1)⟩

theorem readText_length {s rest : Bytes} {text : String} (h : readText s = .ok (text, rest)) :
    rest.length < s.length := by
  unfold readText at h
  split at h
  · simp at h
  · rename_i found middle hit
    dsimp only at h
    split at h
    · simp only [Except.ok.injEq, Prod.mk.injEq] at h
      have := spellings_length hit
      simp only [← h.2]; omega
    · simp at h

def skipEscape : Bytes → Except Fault Bytes
  | [] => .error ⟨.endOfString, 0⟩
  | a :: rest =>
    if a = octet 'u' then (hexUnit rest).map (·.2)
    else if (shortEscape? a).isSome then .ok rest
    else .error ⟨.badEscape, rest.length⟩

theorem skipEscape_length {s rest : Bytes} (h : skipEscape s = .ok rest) :
    rest.length < s.length := by
  unfold skipEscape at h
  split at h
  · cases h
  · split at h
    · cases hit : hexUnit _ with
      | error fault => rw [hit] at h; cases h
      | ok found =>
        rw [hit] at h
        cases h
        have := @hexUnit_length _ found.2 found.1 hit
        simp only [List.length_cons]; omega
    · split at h
      · cases h; simp
      · cases h

def skipText (s : Bytes) : Except Fault Bytes :=
  match s with
  | [] => .error ⟨.endOfString, 0⟩
  | a :: rest =>
    if a = quote then .ok rest
    else if a = backslash then
      match h : skipEscape rest with
      | .error fault => .error fault
      | .ok after =>
        have := skipEscape_length h
        skipText after
    else if a < 0x20 then .error ⟨.controlCharacter, rest.length + 1⟩
    else skipText rest
termination_by s.length

theorem skipText_length {s rest : Bytes} (h : skipText s = .ok rest) : rest.length < s.length := by
  induction hn : s.length using Nat.strongRecOn generalizing s with
  | _ n ih =>
    subst hn
    rw [skipText.eq_def] at h
    split at h
    · simp at h
    · rename_i a tail
      split at h
      · simp only [Except.ok.injEq] at h; simp [← h]
      split at h
      · split at h
        · simp at h
        · rename_i after hit
          have short := skipEscape_length hit
          have := ih _ (by simp only [List.length_cons]; omega) h rfl
          simp only [List.length_cons]; omega
      split at h
      · simp at h
      · have := ih _ (by simp) h rfl
        simp only [List.length_cons]; omega

def hexLetter (value : Nat) : Char :=
  if value < 10 then Char.ofNat (48 + value) else Char.ofNat (87 + value)

def writeChar (c : Char) : List Char :=
  match c with
  | '"' => ['\\', '"']
  | '\\' => ['\\', '\\']
  | '\x08' => ['\\', 'b']
  | '\x0c' => ['\\', 'f']
  | '\n' => ['\\', 'n']
  | '\r' => ['\\', 'r']
  | '\t' => ['\\', 't']
  | c =>
    if c.toNat < 0x20 then
      ['\\', 'u', '0', '0', hexLetter (c.toNat / 16), hexLetter (c.toNat % 16)]
    else [c]

def writeText (text : String) : String :=
  String.ofList ('"' :: text.toList.flatMap writeChar ++ ['"'])

def writeRecord (members : List (String × String)) : String :=
  "\x7b" ++ ",".intercalate (members.map fun member => writeText member.1 ++ ":" ++ writeText member.2)
    ++ "\x7d"

end SecretStore.Json
