/-!
# The shortest decimal of a binary number

The result has the fewest digits that read back as the same double, and among those it is nearest to its value. The
reals that read back as `mantissa · 2 ^ exponent` form an interval around it, which contains its ends if and only if the
mantissa is even. The grids of 1, 2, … 17 digits are tried in turn until one has a point in the interval.
-/

namespace SecretStore.Decimal

/-- A positive number `digits · 10 ^ exponent`. -/
structure Digits where
  digits : Nat
  exponent : Int
  deriving DecidableEq, Repr

/-- A positive number `mantissa · 2 ^ exponent`, with half the distance to its neighbours. -/
structure Binary where
  mantissa : Nat
  exponent : Int
  /-- The lower neighbour is half as far away as the upper one. -/
  narrowBelow : Bool
  deriving DecidableEq, Repr

def Binary.ofBits (bits : UInt64) : Binary :=
  let fraction : Nat := bits.toNat % Nat.pow 2 52
  let biased : Nat := bits.toNat / Nat.pow 2 52 % Nat.pow 2 11
  if biased = 0 then ⟨fraction, -1074, false⟩
  else ⟨fraction + Nat.pow 2 52, (biased : Int) - 1075, fraction = 0 && 1 < biased⟩

/-- All quantities over one denominator: four times the value, and the ends of its interval. -/
structure Scaled where
  low : Nat
  value : Nat
  high : Nat
  unit : Nat
  closed : Bool
  deriving DecidableEq, Repr

def Binary.scaled (number : Binary) : Scaled :=
  let up := Nat.pow 2 number.exponent.toNat
  let down := Nat.pow 2 (-number.exponent).toNat
  let value := 4 * number.mantissa
  ⟨(value - if number.narrowBelow then 1 else 2) * up, value * up, (value + 2) * up, 4 * down,
    number.mantissa % 2 = 0⟩

def Scaled.holds (scaled : Scaled) (digits : Nat) (exponent : Int) : Bool :=
  let point := digits * Nat.pow 10 exponent.toNat * scaled.unit
  let shift := Nat.pow 10 (-exponent).toNat
  if scaled.closed then scaled.low * shift ≤ point && point ≤ scaled.high * shift
  else scaled.low * shift < point && point < scaled.high * shift

def Scaled.floor (scaled : Scaled) (exponent : Int) : Nat :=
  scaled.value * Nat.pow 10 (-exponent).toNat / (scaled.unit * Nat.pow 10 exponent.toNat)

def Scaled.nearerUp (scaled : Scaled) (lower : Nat) (exponent : Int) : Bool :=
  let twice := 2 * scaled.value * Nat.pow 10 (-exponent).toNat
  let middle := (2 * lower + 1) * (scaled.unit * Nat.pow 10 exponent.toNat)
  if twice = middle then lower % 2 = 1 else middle < twice

def Scaled.onGrid? (scaled : Scaled) (exponent : Int) : Option Digits :=
  let lower := scaled.floor exponent
  match scaled.holds lower exponent && lower != 0, scaled.holds (lower + 1) exponent with
  | true, true => some ⟨if scaled.nearerUp lower exponent then lower + 1 else lower, exponent⟩
  | true, false => some ⟨lower, exponent⟩
  | false, true => some ⟨lower + 1, exponent⟩
  | false, false => none

def Scaled.magnitude (scaled : Scaled) : Int :=
  let digits (n : Nat) : Int := (Nat.toDigits 10 n).length
  let guess := digits scaled.value - digits scaled.unit
  if scaled.floor guess = 0 then guess - 1 else guess

def Digits.trim (digits : Nat) (exponent : Int) : Nat → Digits
  | 0 => ⟨digits, exponent⟩
  | fuel + 1 =>
    if digits % 10 = 0 ∧ digits ≠ 0 then trim (digits / 10) (exponent + 1) fuel
    else ⟨digits, exponent⟩

/-- Seventeen digits always suffice. -/
def Binary.shortest (number : Binary) : Digits :=
  let scaled := number.scaled
  let magnitude := scaled.magnitude
  let grids := (List.range 17).map fun places : Nat => magnitude - places
  let found := (grids.findSome? scaled.onGrid?).getD ⟨scaled.floor (magnitude - 17), magnitude - 17⟩
  Digits.trim found.digits found.exponent 20

def Digits.positional (number : Digits) : String :=
  let text := Nat.toDigits 10 number.digits
  let point := (text.length : Int) + number.exponent
  if 0 ≤ number.exponent then
    String.ofList (text ++ List.replicate number.exponent.toNat '0' ++ ['.', '0'])
  else if 0 < point then
    String.ofList (text.take point.toNat ++ ['.'] ++ text.drop point.toNat)
  else
    String.ofList (['0', '.'] ++ List.replicate (-point).toNat '0' ++ text)

def Digits.scientific (number : Digits) : String :=
  let text := Nat.toDigits 10 number.digits
  let exponent := (text.length : Int) - 1 + number.exponent
  String.ofList (text.take 1 ++ (if text.length = 1 then [] else '.' :: text.drop 1)) ++
    "e" ++ toString exponent

structure Style where
  leastPoint : Option Int
  mostPoint : Option Int

def Style.choose (style : Style) (number : Digits) : String :=
  let point := ((Nat.toDigits 10 number.digits).length : Int) + number.exponent
  let low := style.leastPoint.all (· < point)
  let high := style.mostPoint.all (point ≤ ·)
  if low && high then number.positional else number.scientific

def Style.write (style : Style) (value : Float) : String :=
  let sign := if value.toBits.toNat / Nat.pow 2 63 = 1 then "-" else ""
  if value.isNaN then "NaN"
  else if value.isInf then sign ++ "inf"
  else if value == 0.0 then sign ++ "0.0"
  else sign ++ style.choose (Binary.ofBits value.toBits).shortest

end SecretStore.Decimal
