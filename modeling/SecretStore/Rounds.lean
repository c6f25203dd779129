namespace SecretStore.Rounds

variable {σ : Type}

/-- At most `fuel` rounds, until the tally does not change. -/
def settle (round : σ → σ) (tally : σ → Nat) : (fuel : Nat) → σ → σ
  | 0, state => state
  | fuel + 1, state =>
    let after := round state
    if tally after = tally state then after else settle round tally fuel after

def each {α : Type} (poll : α → σ → σ) (names : List α) (state : σ) : σ :=
  names.foldl (fun state name => poll name state) state

end SecretStore.Rounds
