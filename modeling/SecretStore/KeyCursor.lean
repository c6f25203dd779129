import SecretStore.Failure

namespace SecretStore

structure KeyCursor where
  keys : List String
  index : Nat
  inside : index ≤ keys.length

namespace KeyCursor

def ofKeys (keys : List String) : KeyCursor := ⟨keys, 0, Nat.zero_le _⟩

def left (cursor : KeyCursor) : List String := cursor.keys.drop cursor.index

def remaining (cursor : KeyCursor) : Nat := cursor.keys.length - cursor.index

def sizeHint (cursor : KeyCursor) : Nat × Nat := (cursor.remaining, cursor.remaining)

def next (cursor : KeyCursor) : Option String × KeyCursor :=
  if h : cursor.index < cursor.keys.length then
    (some cursor.keys[cursor.index], ⟨cursor.keys, cursor.index + 1, h⟩)
  else (none, cursor)

/-- Past the end, the empty key. -/
def nextKey (cursor : KeyCursor) : (String × Bool) × KeyCursor :=
  let (key, after) := cursor.next
  ((key.getD "", after.index < after.keys.length), after)

def collect (cursor : KeyCursor) : List String × KeyCursor :=
  (cursor.left, ⟨cursor.keys, cursor.keys.length, Nat.le_refl _⟩)

/-- Fails if the token of the listing is cancelled. -/
def close (_ : KeyCursor) (cancelled : Bool) : Except Failure Unit × KeyCursor :=
  (if cancelled then .error .cancelled else .ok (), ofKeys [])

open Quoted in
def shown (cursor : KeyCursor) (cancelled : Bool) : String :=
  record "KeyIter" [("keys", list (cursor.keys.map quoted)), ("index", toString cursor.index),
    ("cancel", record "CancellationToken" [("is_cancelled", toString cancelled)])]

inductive Call where
  | next
  | nextItem
  | collect
  | remaining
  | sizeHint
  | close
  | shown
  deriving DecidableEq, Repr

inductive Reply where
  | next (key : String) (more : Bool)
  | item (key : Option String)
  | keys (keys : List String)
  | remaining (count : Nat)
  | sizeHint (low high : Nat)
  | closed (result : Except Failure Unit)
  | shown (text : String)

def answer (cancelled : Bool) (cursor : KeyCursor) : Call → Reply × KeyCursor
  | .next =>
    let ((key, more), after) := cursor.nextKey
    (.next key more, after)
  | .nextItem =>
    let (key, after) := cursor.next
    (.item key, after)
  | .collect =>
    let (keys, after) := cursor.collect
    (.keys keys, after)
  | .remaining => (.remaining cursor.remaining, cursor)
  | .sizeHint => (.sizeHint cursor.sizeHint.1 cursor.sizeHint.2, cursor)
  | .close =>
    let (result, after) := cursor.close cancelled
    (.closed result, after)
  | .shown => (.shown (cursor.shown cancelled), cursor)

def answers (cancelled : Bool) (cursor : KeyCursor) : List Call → List Reply × KeyCursor
  | [] => ([], cursor)
  | call :: calls =>
    let (reply, after) := cursor.answer cancelled call
    let (replies, last) := after.answers cancelled calls
    (reply :: replies, last)

end KeyCursor

end SecretStore
