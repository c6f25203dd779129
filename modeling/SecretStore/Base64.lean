import SecretStore.Text.Utf8

namespace SecretStore.Base64

inductive Fault where
  | symbol (offset : Nat) (octet : UInt8)
  | lastSymbol (offset : Nat) (octet : UInt8)
  | length (count : Nat)
  | padding
  deriving DecidableEq, Repr

def Fault.message : Fault → String
  | .symbol offset octet => s!"Invalid symbol {octet.toNat}, offset {offset}."
  | .lastSymbol offset octet => s!"Invalid last symbol {octet.toNat}, offset {offset}."
  | .length count => s!"Invalid input length: {count}"
  | .padding => "Invalid padding"

def pad : UInt8 := 61

def symbol (value : Nat) : UInt8 :=
  if value < 26 then UInt8.ofNat (65 + value)
  else if value < 52 then UInt8.ofNat (97 + (value - 26))
  else if value < 62 then UInt8.ofNat (48 + (value - 52))
  else if value = 62 then 43
  else 47

def value? (octet : UInt8) : Option Nat :=
  let n := octet.toNat
  if 65 ≤ n ∧ n ≤ 90 then some (n - 65)
  else if 97 ≤ n ∧ n ≤ 122 then some (n - 97 + 26)
  else if 48 ≤ n ∧ n ≤ 57 then some (n - 48 + 52)
  else if n = 43 then some 62
  else if n = 47 then some 63
  else none

def encode : Bytes → Bytes
  | [] => []
  | [a] =>
    let n := a.toNat
    [symbol (n / 4), symbol (n % 4 * 16), pad, pad]
  | [a, b] =>
    let n := a.toNat * 256 + b.toNat
    [symbol (n / 1024), symbol (n / 16 % 64), symbol (n % 16 * 4), pad]
  | a :: b :: c :: rest =>
    let n := (a.toNat * 256 + b.toNat) * 256 + c.toNat
    symbol (n / 262144) :: symbol (n / 4096 % 64) :: symbol (n / 64 % 64) :: symbol (n % 64) ::
      encode rest

def valueAt (offset : Nat) (octet : UInt8) : Except Fault Nat :=
  match value? octet with
  | some value => .ok value
  | none => .error (.symbol offset octet)

/-- Symbols before the padding, and the amount of padding. Padding is refused in the first two places and before a
symbol. -/
def lastSymbols (offset : Nat) (place : Nat) : Bytes → Except Fault (List Nat × Nat)
  | [] => .ok ([], 0)
  | octet :: rest =>
    if octet = pad then
      if place < 2 then .error (.symbol (offset + place) octet)
      else if rest.all (· = pad) then .ok ([], 1 + rest.length)
      else .error (.symbol (offset + place) pad)
    else do
      let value ← valueAt (offset + place) octet
      let (values, padding) ← lastSymbols offset (place + 1) rest
      return (value :: values, padding)

def lastOctets : List Nat → Bytes × Nat
  | [a, b] => ([UInt8.ofNat (a * 4 + b / 16)], b % 16)
  | [a, b, c] =>
    let n := (a * 64 + b) * 64 + c
    ([UInt8.ofNat (n / 1024), UInt8.ofNat (n / 4 % 256)], n % 4)
  | [a, b, c, d] =>
    let n := ((a * 64 + b) * 64 + c) * 64 + d
    ([UInt8.ofNat (n / 65536), UInt8.ofNat (n / 256 % 256), UInt8.ofNat (n % 256)], 0)
  | _ => ([], 0)

def decodeLast (offset : Nat) (group : Bytes) : Except Fault Bytes := do
  let (values, padding) ← lastSymbols offset 0 group
  if group ≠ [] ∧ values.length < 2 then throw (.length (offset + values.length))
  if (values.length + padding) % 4 ≠ 0 then throw .padding
  let (octets, left) := lastOctets values
  if left ≠ 0 then
    throw (.lastSymbol (offset + values.length - 1) (group.getD (values.length - 1) 0))
  return octets

def decodeGroups (offset : Nat) : Bytes → Except Fault Bytes
  | a :: b :: c :: d :: e :: rest => do
    let a ← valueAt offset a
    let b ← valueAt (offset + 1) b
    let c ← valueAt (offset + 2) c
    let d ← valueAt (offset + 3) d
    let octets ← decodeGroups (offset + 4) (e :: rest)
    return (lastOctets [a, b, c, d]).1 ++ octets
  | group => decodeLast offset group

/-- A lone octet behind the last complete group is refused first, unless it is a symbol or padding. -/
def decode (text : Bytes) : Except Fault Bytes :=
  match text.length % 4, text.getLast? with
  | 1, some last =>
    if last ≠ pad ∧ value? last = none then .error (.symbol (text.length - 1) last)
    else decodeGroups 0 text
  | _, _ => decodeGroups 0 text

end SecretStore.Base64
