import SecretStore.Base64
import SecretStore.Text.Search

namespace SecretStore.Tls

structure Section where
  label : Bytes
  body : Bytes
  deriving DecidableEq, Repr

namespace Pem

def beginMark : Bytes := Utf8.bytes "-----BEGIN "
def endMark : Bytes := Utf8.bytes "-----END "
def dashes : Bytes := Utf8.bytes "-----"

def hasBlock (octets : Bytes) : Bool :=
  let text := Utf8.bytes (Utf8.lossy octets)
  match Search.offset? beginMark text with
  | some start => Search.occursIn endMark (text.drop start)
  | none => false

def isLineFeed (a : UInt8) : Bool := a = 10
def isLineEnd (a : UInt8) : Bool := a = 10 || a = 13

def linesAt (isEnd : UInt8 → Bool) : Bytes → List Bytes
  | [] => []
  | a :: rest =>
    if isEnd a then [] :: linesAt isEnd rest
    else match linesAt isEnd rest with
      | [] => [[a]]
      | line :: lines => (a :: line) :: lines

def trimEnd (line : Bytes) : Bytes := (line.reverse.dropWhile (· ≤ 32)).reverse

def label? (mark line : Bytes) : Option Bytes :=
  match Search.after? mark (trimEnd line) with
  | none => none
  | some rest =>
    match Search.after? dashes rest.reverse with
    | some label => if label.head? = some 45 then none else some label.reverse
    | none => none

def startsWith (mark line : Bytes) : Bool := (Search.after? mark line).isSome

inductive Piece where
  | whole (part : Section)
  | badStart
  | unclosed
  deriving DecidableEq, Repr

def piecesFrom : Option Section → List Bytes → List Piece
  | none, [] => []
  | some _, [] => [.unclosed]
  | none, line :: rest =>
    match label? beginMark line with
    | some label => piecesFrom (some ⟨label, []⟩) rest
    | none =>
      if startsWith beginMark line then .badStart :: piecesFrom none rest else piecesFrom none rest
  | some part, line :: rest =>
    if label? endMark line = some part.label then .whole part :: piecesFrom none rest
    else if startsWith endMark line || startsWith beginMark line then [.unclosed]
    else piecesFrom (some { part with body := part.body ++ line }) rest

def pieces (isEnd : UInt8 → Bool) (octets : Bytes) : List Piece :=
  piecesFrom none (linesAt isEnd octets)

def octets? (part : Section) : Option Bytes :=
  (Base64.decode (part.body.filter (32 < ·))).toOption

end Pem

end SecretStore.Tls
