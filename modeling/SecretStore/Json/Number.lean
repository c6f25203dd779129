import SecretStore.Decimal.Shortest
import SecretStore.Json.Text

namespace SecretStore.Json

inductive Number where
  | integer (value : Int)
  | real (value : Float)

/-- Doubles in diagnostics: positional from `0.00001` to `9999999999999999.0`. -/
def realStyle : Decimal.Style := ⟨some (-5), some 16⟩

def Number.found : Number → Found
  | .integer value => .integer value
  | .real value => .fraction (realStyle.write value)

def digit? (a : UInt8) : Option Nat :=
  if 48 ≤ a ∧ a ≤ 57 then some (a.toNat - 48) else none

def takeDigits : Bytes → List Nat × Bytes
  | [] => ([], [])
  | a :: rest =>
    match digit? a with
    | some d => (d :: (takeDigits rest).1, (takeDigits rest).2)
    | none => ([], a :: rest)

theorem takeDigits_length (s : Bytes) :
    (takeDigits s).1.length + (takeDigits s).2.length = s.length := by
  induction s with
  | nil => rfl
  | cons a rest ih =>
    unfold takeDigits
    split
    · simp only [List.length_cons]; omega
    · simp

def ahead (cause : Cause) (s : Bytes) : Fault := ⟨cause, s.length - 1⟩

def behind (cause : Cause) (s : Bytes) : Fault := ⟨cause, s.length⟩

structure Numeral where
  whole : List Nat
  fraction : List Nat
  hasFraction : Bool
  exponent : Option (Bool × List Nat)
  deriving DecidableEq, Repr

def readWhole : Bytes → Step (List Nat)
  | [] => .error ⟨.endOfValue, 0⟩
  | a :: rest =>
    match digit? a with
    | none => .error (behind .badNumber rest)
    | some 0 =>
      match rest with
      | b :: _ => if (digit? b).isSome then .error (ahead .badNumber rest) else .ok ([0], rest)
      | [] => .ok ([0], rest)
    | some d => .ok (d :: (takeDigits rest).1, (takeDigits rest).2)

def readFraction : Bytes → Step (Option (List Nat))
  | 46 :: rest =>
    match takeDigits rest with
    | ([], []) => .error ⟨.endOfValue, 0⟩
    | ([], rest) => .error (ahead .badNumber rest)
    | (digits, rest) => .ok (some digits, rest)
  | s => .ok (none, s)

def isExponentMark (a : UInt8) : Bool := a = 101 || a = 69

def takeSign : Bytes → Bool × Bytes
  | 43 :: rest => (false, rest)
  | 45 :: rest => (true, rest)
  | s => (false, s)

def readExponent : Bytes → Step (Option (Bool × List Nat))
  | [] => .ok (none, [])
  | a :: rest =>
    if !isExponentMark a then .ok (none, a :: rest)
    else
      let (negative, rest) := takeSign rest
      match takeDigits rest with
      | ([], []) => .error ⟨.endOfValue, 0⟩
      | ([], _ :: rest) => .error (behind .badNumber rest)
      | (digits, rest) => .ok (some (negative, digits), rest)

def readNumeral (s : Bytes) : Except Fault (Numeral × Bytes) := do
  let (whole, s) ← readWhole s
  let (fraction, s) ← readFraction s
  let (exponent, s) ← readExponent s
  return (⟨whole, fraction.getD [], fraction.isSome, exponent⟩, s)

def greatestSignificand : Nat := Nat.pow 2 64 - 1

def extend (significand : Nat) : List Nat → Nat × List Nat
  | [] => (significand, [])
  | d :: rest =>
    if greatestSignificand < significand * 10 + d then (significand, d :: rest)
    else extend (significand * 10 + d) rest

def tenTo (exponent : Nat) : Float := Float.ofScientific 1 false exponent

/-- `value · 10 ^ exponent`, unless it is out of range. A divisor beyond `10 ^ 308` is applied in steps, and three
steps make every value zero. -/
def scale (value : Float) (exponent : Int) : (steps : Nat) → Option Float
  | 0 => some value
  | steps + 1 =>
    if exponent.natAbs ≤ 308 then
      if 0 ≤ exponent then
        let product := value * tenTo exponent.natAbs
        if product.isInf then none else some product
      else some (value / tenTo exponent.natAbs)
    else if value == 0.0 then some value
    else if 0 ≤ exponent then none
    else scale (value / tenTo 308) (exponent + 308) steps

def greatestExponent : Nat := Nat.pow 2 31 - 1

def exponentValue (value : Nat) : List Nat → Nat × Option (List Nat)
  | [] => (value, none)
  | d :: rest =>
    if greatestExponent < value * 10 + d then (value, some rest)
    else exponentValue (value * 10 + d) rest

def signed (negative : Bool) (value : Float) : Float :=
  if negative then -value else value

/-- Out of range, the number of octets of the numeral that were unread when that was noticed. -/
def Numeral.real (numeral : Numeral) (negative : Bool) : Except Nat Float :=
  let (significand, dropped) := extend 0 numeral.whole
  let (significand, ignored) := extend significand numeral.fraction
  let places : Int := (dropped.length : Int) - (numeral.fraction.length - ignored.length : Nat)
  let scaled (exponent : Int) : Except Nat Float :=
    match scale (Float.ofNat significand) exponent 4 with
    | some value => .ok (signed negative value)
    | none => .error 0
  match numeral.exponent with
  | none => scaled places
  | some (down, digits) =>
    match exponentValue 0 digits with
    | (exponent, none) => scaled (if down then places - exponent else places + exponent)
    | (_, some unread) =>
      if significand ≠ 0 ∧ !down then .error unread.length else .ok (signed negative 0.0)

/-- Minus zero and integers beyond sixty-four bits are doubles. -/
def Numeral.value (numeral : Numeral) (negative : Bool) : Except Nat Number :=
  let (significand, dropped) := extend 0 numeral.whole
  if numeral.hasFraction || numeral.exponent.isSome || dropped ≠ [] then
    (numeral.real negative).map .real
  else if !negative then .ok (.integer significand)
  else if significand = 0 ∨ Nat.pow 2 63 < significand then .ok (.real (-(Float.ofNat significand)))
  else .ok (.integer (-(significand : Int)))

def readNumber (negative : Bool) (s : Bytes) : Except Fault (Number × Bytes) := do
  let (numeral, rest) ← readNumeral s
  match numeral.value negative with
  | .ok number => return (number, rest)
  | .error unread => throw ⟨.numberRange, rest.length + unread⟩

def skipWhole : Bytes → Except Fault Bytes
  | [] => .error ⟨.badNumber, 0⟩
  | a :: rest =>
    match digit? a with
    | none => .error (behind .badNumber rest)
    | some 0 =>
      match rest with
      | b :: _ => if (digit? b).isSome then .error (ahead .badNumber rest) else .ok rest
      | [] => .ok rest
    | some _ => .ok (takeDigits rest).2

def skipFraction : Bytes → Except Fault Bytes
  | 46 :: rest =>
    match takeDigits rest with
    | ([], rest) => .error (ahead .badNumber rest)
    | (_, rest) => .ok rest
  | s => .ok s

def skipExponent : Bytes → Except Fault Bytes
  | [] => .ok []
  | a :: rest =>
    if !isExponentMark a then .ok (a :: rest)
    else match takeDigits (takeSign rest).2 with
      | ([], rest) => .error (behind .badNumber (rest.drop 1))
      | (_, rest) => .ok rest

def skipNumber (s : Bytes) : Except Fault Bytes := do
  skipExponent (← skipFraction (← skipWhole s))

theorem takeSign_length (s : Bytes) : (takeSign s).2.length ≤ s.length := by
  unfold takeSign
  split <;> simp

theorem takeDigits_left {s : Bytes} : (takeDigits s).2.length ≤ s.length := by
  have := takeDigits_length s; omega

theorem readWhole_length {s rest : Bytes} {whole : List Nat} (h : readWhole s = .ok (whole, rest)) :
    rest.length < s.length := by
  unfold readWhole at h
  split at h
  · simp at h
  · rename_i a tail
    have := takeDigits_left (s := tail)
    split at h
    · simp at h
    · split at h
      · split at h
        · simp at h
        · simp only [Except.ok.injEq, Prod.mk.injEq] at h; simp [← h.2]
      · simp only [Except.ok.injEq, Prod.mk.injEq] at h; simp [← h.2]
    · simp only [Except.ok.injEq, Prod.mk.injEq] at h
      simp only [← h.2, List.length_cons]; omega

theorem readFraction_length {s rest : Bytes} {fraction : Option (List Nat)}
    (h : readFraction s = .ok (fraction, rest)) : rest.length ≤ s.length := by
  unfold readFraction at h
  split at h
  · rename_i tail
    have := takeDigits_left (s := tail)
    split at h
    · simp at h
    · simp at h
    · rename_i taken
      simp only [Except.ok.injEq, Prod.mk.injEq] at h
      simp only [taken] at this
      simp only [← h.2, List.length_cons]; omega
  · simp only [Except.ok.injEq, Prod.mk.injEq] at h; simp [← h.2]

theorem readExponent_length {s rest : Bytes} {exponent : Option (Bool × List Nat)}
    (h : readExponent s = .ok (exponent, rest)) : rest.length ≤ s.length := by
  unfold readExponent at h
  split at h
  · simp only [Except.ok.injEq, Prod.mk.injEq] at h; simp [← h.2]
  · rename_i a tail
    split at h
    · simp only [Except.ok.injEq, Prod.mk.injEq] at h; simp [← h.2]
    · have sign := takeSign_length tail
      dsimp only at h
      have := takeDigits_left (s := (takeSign tail).2)
      split at h
      · simp at h
      · simp at h
      · rename_i taken
        simp only [Except.ok.injEq, Prod.mk.injEq] at h
        simp only [taken] at this
        simp only [← h.2, List.length_cons]; omega

theorem readNumeral_length {s rest : Bytes} {numeral : Numeral}
    (h : readNumeral s = .ok (numeral, rest)) : rest.length < s.length := by
  unfold readNumeral at h
  cases whole : readWhole s with
  | error => simp [whole, bind, Except.bind] at h
  | ok first =>
    cases fraction : readFraction first.2 with
    | error => simp [whole, fraction, bind, Except.bind] at h
    | ok second =>
      cases exponent : readExponent second.2 with
      | error => simp [whole, fraction, exponent, bind, Except.bind] at h
      | ok third =>
        simp only [whole, fraction, exponent, bind, Except.bind, pure, Except.pure,
          Except.ok.injEq, Prod.mk.injEq] at h
        have := @readWhole_length _ first.2 first.1 whole
        have := @readFraction_length _ second.2 second.1 fraction
        have := @readExponent_length _ third.2 third.1 exponent
        rw [← h.2]; omega

theorem readNumber_length {negative : Bool} {s rest : Bytes} {number : Number}
    (h : readNumber negative s = .ok (number, rest)) : rest.length < s.length := by
  unfold readNumber at h
  cases numeral : readNumeral s with
  | error => simp [numeral, bind, Except.bind] at h
  | ok found =>
    have := @readNumeral_length _ found.2 found.1 numeral
    simp only [numeral, bind, Except.bind] at h
    split at h
    · simp only [pure, Except.pure, Except.ok.injEq, Prod.mk.injEq] at h
      rw [← h.2]; exact this
    · simp [throw, throwThe, MonadExceptOf.throw] at h

theorem skipWhole_length {s rest : Bytes} (h : skipWhole s = .ok rest) :
    rest.length < s.length := by
  unfold skipWhole at h
  split at h
  · simp at h
  · rename_i a tail
    have := takeDigits_left (s := tail)
    split at h
    · simp at h
    · split at h
      · split at h
        · simp at h
        · simp only [Except.ok.injEq] at h; simp [← h]
      · simp only [Except.ok.injEq] at h; simp [← h]
    · simp only [Except.ok.injEq] at h
      simp only [← h, List.length_cons]; omega

theorem skipFraction_length {s rest : Bytes} (h : skipFraction s = .ok rest) :
    rest.length ≤ s.length := by
  unfold skipFraction at h
  split at h
  · rename_i tail
    have := takeDigits_left (s := tail)
    split at h
    · simp at h
    · rename_i taken
      simp only [Except.ok.injEq] at h
      simp only [taken] at this
      simp only [← h, List.length_cons]; omega
  · simp only [Except.ok.injEq] at h; simp [← h]

theorem skipExponent_length {s rest : Bytes} (h : skipExponent s = .ok rest) :
    rest.length ≤ s.length := by
  unfold skipExponent at h
  split at h
  · simp only [Except.ok.injEq] at h; simp [← h]
  · rename_i a tail
    split at h
    · simp only [Except.ok.injEq] at h; simp [← h]
    · have sign := takeSign_length tail
      have := takeDigits_left (s := (takeSign tail).2)
      split at h
      · simp at h
      · rename_i taken
        simp only [Except.ok.injEq] at h
        simp only [taken] at this
        simp only [← h, List.length_cons]; omega

theorem skipNumber_length {s rest : Bytes} (h : skipNumber s = .ok rest) :
    rest.length < s.length := by
  unfold skipNumber at h
  cases whole : skipWhole s with
  | error => simp [whole, bind, Except.bind] at h
  | ok first =>
    cases fraction : skipFraction first with
    | error => simp [whole, fraction, bind, Except.bind] at h
    | ok second =>
      simp only [whole, fraction, bind, Except.bind] at h
      have := skipWhole_length whole
      have := skipFraction_length fraction
      have := skipExponent_length h
      omega

end SecretStore.Json
