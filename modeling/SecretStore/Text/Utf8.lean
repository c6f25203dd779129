namespace SecretStore

abbrev Bytes := List UInt8

namespace Utf8

inductive Piece where
  | char (c : Char)
  | stray (octets : Bytes)
  deriving DecidableEq, Repr

/-- The number of octets that follow the first one, the range of the next of them, and the bits of the first. -/
structure Lead where
  owed : Nat
  low : UInt8
  high : UInt8
  bits : Nat
  deriving DecidableEq, Repr

def lead? (a : UInt8) : Option Lead :=
  let bits := a.toNat
  if a < 0xC2 then none
  else if a < 0xE0 then some ⟨1, 0x80, 0xBF, bits - 0xC0⟩
  else if a = 0xE0 then some ⟨2, 0xA0, 0xBF, 0⟩
  else if a = 0xED then some ⟨2, 0x80, 0x9F, 0xD⟩
  else if a < 0xF0 then some ⟨2, 0x80, 0xBF, bits - 0xE0⟩
  else if a = 0xF0 then some ⟨3, 0x90, 0xBF, 0⟩
  else if a < 0xF4 then some ⟨3, 0x80, 0xBF, bits - 0xF0⟩
  else if a = 0xF4 then some ⟨3, 0x80, 0x8F, 4⟩
  else none

inductive State where
  | between
  | inside (taken : Bytes) (want : Lead)
  deriving DecidableEq, Repr

def start (a : UInt8) : List Piece × State :=
  if a < 0x80 then ([.char (Char.ofNat a.toNat)], .between)
  else match lead? a with
    | some want => ([], .inside [a] want)
    | none => ([.stray [a]], .between)

def feed : State → UInt8 → List Piece × State
  | .between, a => start a
  | .inside taken want, a =>
    if want.low ≤ a ∧ a ≤ want.high then
      let bits := want.bits * 64 + (a.toNat - 0x80)
      if want.owed ≤ 1 then ([.char (Char.ofNat bits)], .between)
      else ([], .inside (taken ++ [a]) ⟨want.owed - 1, 0x80, 0xBF, bits⟩)
    else
      let (pieces, state) := start a
      (.stray taken :: pieces, state)

def run : State → Bytes → List Piece
  | .between, [] => []
  | .inside taken _, [] => [.stray taken]
  | state, a :: rest =>
    let (pieces, next) := feed state a
    pieces ++ run next rest

def pieces (octets : Bytes) : List Piece :=
  run .between octets

def Piece.char? : Piece → Option Char
  | .char c => some c
  | .stray _ => none

def Piece.shown : Piece → Char
  | .char c => c
  | .stray _ => '\uFFFD'

def decode? (octets : Bytes) : Option (List Char) :=
  (pieces octets).mapM Piece.char?

def lossyChars (octets : Bytes) : List Char :=
  (pieces octets).map Piece.shown

def soundLength (octets : Bytes) : Nat :=
  go (pieces octets)
where
  go : List Piece → Nat
    | .char c :: rest => c.utf8Size + go rest
    | _ => 0

def encode (chars : List Char) : Bytes :=
  chars.flatMap String.utf8EncodeChar

def bytes (text : String) : Bytes :=
  encode text.toList

def text? (octets : Bytes) : Option String :=
  (decode? octets).map String.ofList

def lossy (octets : Bytes) : String :=
  String.ofList (lossyChars octets)

end Utf8

end SecretStore
