import SecretStore.Store

namespace SecretStore

abbrev Entries := List (String × String)

namespace Entries

/-- Code point order, which is also the order of the UTF-8 octets. -/
def before (a b : String) : Bool := decide (a.toList < b.toList)

def insert (key text : String) : Entries → Entries
  | [] => [(key, text)]
  | entry :: rest =>
    if entry.1 = key then (key, text) :: rest
    else if before key entry.1 then (key, text) :: entry :: rest
    else entry :: insert key text rest

def ofList (pairs : List (String × String)) : Entries :=
  pairs.foldl (fun entries pair => insert pair.1 pair.2 entries) []

def get? (entries : Entries) (key : String) : Option String :=
  (entries.find? (·.1 = key)).map (·.2)

def has (entries : Entries) (key : String) : Bool := (entries.get? key).isSome

end Entries

structure FixedStore where
  entries : Entries
  deriving DecidableEq, Repr

namespace FixedStore

def ofList (pairs : List (String × String)) : FixedStore := ⟨.ofList pairs⟩

def size (store : FixedStore) : Nat := store.entries.length
def isEmpty (store : FixedStore) : Bool := store.entries.isEmpty
def name : String := "static"

def answer (store : FixedStore) : Call → Outcome
  | .status => .ok (.healthy (some 0))
  | .create key _ =>
    if store.entries.has key then .error (.alreadyExists key) else .error (.notAllowed key "create")
  | .set key _ => .error (.notAllowed key "set")
  | .get key =>
    match store.entries.get? key with
    | some text => .ok (.value (Utf8.bytes text))
    | none => .error (.notFound key)
  | .delete key =>
    if store.entries.has key then .error (.notAllowed key "delete") else .error (.notFound key)
  | .list => .ok (.keys (store.entries.map (·.1)))
  | .close => .ok .done
  | .name => .ok (.name name)

end FixedStore

end SecretStore
