namespace SecretStore.Search

variable {α : Type} [BEq α]

def after? : (front whole : List α) → Option (List α)
  | [], whole => some whole
  | _ :: _, [] => none
  | a :: front, b :: whole => if a == b then after? front whole else none

def afterFirst? (wanted : List α) : List α → Option (List α)
  | [] => after? wanted []
  | a :: rest =>
    match after? wanted (a :: rest) with
    | some after => some after
    | none => afterFirst? wanted rest

def offset? (wanted : List α) : List α → Option Nat
  | [] => (after? wanted []).map fun _ => 0
  | a :: rest =>
    match after? wanted (a :: rest) with
    | some _ => some 0
    | none => (offset? wanted rest).map (· + 1)

def occursIn (wanted whole : List α) : Bool :=
  (afterFirst? wanted whole).isSome

end SecretStore.Search
