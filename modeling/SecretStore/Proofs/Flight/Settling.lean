import SecretStore.Proofs.Flight.Mirror

namespace SecretStore.Flight

namespace Session

variable {session after : Session}

def cleared (session : Session) : Session :=
  { session with landed := [], desk := { session.desk with started := [] } }

theorem settle_of_round (rounds : session.cleared.round = after) (rests : after.round = after) :
    session.settle = after := by
  have settles : session.settle =
    Rounds.settle round tally (2 * session.callers.length + 1) session.cleared := rfl
  rw [settles, Rounds.settle, rounds]
  -- If the tally has changed there is another round, which leaves all as it is.
  split
  · rfl
  · cases 2 * session.callers.length with
    | zero => rfl
    | succ fuel => simp only [Rounds.settle, rests, if_pos]

structure Shows (session : Session) (outcome : Queues × List String × List Landing) : Prop where
  mirrors : Mirrors outcome.1 (fun _ => True) session
  started : session.desk.started = outcome.2.1
  landed : session.landed = outcome.2.2

theorem Shows.of_round {outcome : Queues × List String × List Landing} (rounds : session.cleared.round = after)
    (shows : after.Shows outcome) : session.settle.Shows outcome := by
  rwa [settle_of_round rounds shows.mirrors.round_eq]

end Session

section Serving

variable {table : Table String} {desk : Desk} {key : String} {closed : List (Channel String)}
  {left : List String} {seats : List Seat}

theorem Table.Keyed.served (keyed : table.Keyed) (absent : table.flight? key = none)
    (closed : List (Channel String)) (left : List String) : (Session.served table key closed left).Keyed := by
  cases left with
  | nil => exact keyed.append closed
  | cons name left => exact (keyed.append closed).join absent

theorem served_cons (absent : table.flight? key = none) (closed : List (Channel String)) (name : String)
    (left : List String) : Session.served table key closed (name :: left) =
      ⟨(key, (table.channels ++ closed).length) :: table.entries, table.channels ++ closed ++ [⟨none, true⟩]⟩ :=
  @Table.join_absent _ ⟨table.entries, table.channels ++ closed⟩ key absent

theorem served_flight? (absent : table.flight? key = none) (closed : List (Channel String)) (left : List String)
    {other : String} (different : other ≠ key) :
    (Session.served table key closed left).flight? other = table.flight? other := by
  cases left with
  | nil => rfl
  | cons name left =>
      rw [served_cons absent, Table.flight?_cons, if_neg different]

theorem served_channels (absent : table.flight? key = none) (closed : List (Channel String))
    (left : List String) {flight : Nat} (older : flight < table.channels.length) :
    (Session.served table key closed left).channels[flight]? = table.channels[flight]? := by
  cases left with
  | nil => exact List.getElem?_append_left older
  | cons name left =>
      rw [served_cons absent, List.append_assoc, List.getElem?_append_left older]

theorem Session.Heads.stands (heads : Session.Heads (table.channels.length + closed.length) left seats)
    (absent : table.flight? key = none)
    (waits : ∀ name others, left = name :: others → desk.value? name = none) :
    Standing (Session.served table key closed left) desk key seats := by
  obtain ⟨rfl, heads⟩ := heads
  cases seats with
  | nil => exact absent
  | cons leader followers =>
      obtain ⟨works, follow⟩ := heads
      rw [List.map_cons, served_cons absent]
      refine ⟨_, ?_, ?_, works, waits _ _ rfl, follow⟩
      · rw [Table.flight?_cons, if_pos rfl, List.length_append]
      · rw [← List.length_append, List.getElem?_concat_length]

theorem promote_waits {stored : String → Option String} {names : List String} {name : String}
    {others : List String} (left : (Queues.promote stored names).left = name :: others) :
    stored name = none := by
  induction names with
  | nil => cases left
  | cons first names ih =>
      rw [Queues.promote] at left
      split at left
      · next absent =>
          obtain ⟨rfl, -⟩ := List.cons.inj left
          exact absent
      · exact ih left

theorem take_eq_none {stored : String → Option String} {name : String} (absent : stored name = none)
    (landed : List Landing) : Queues.take stored landed name = none := by
  rw [Queues.take, absent, ite_self]

end Serving

namespace Mirrors

open Session

variable {queues : Queues} {calm : String → Prop} {session : Session} {table : Table String} {desk : Desk}
  {callers : List Seat} {landed : List Landing} {key : String}

theorem cleared (mirrors : Mirrors queues calm session) : Mirrors queues calm session.cleared := by
  have same : session.cleared.desk.value? = queues.stored := mirrors.stored
  exact mirrors.remail same (fun _ _ _ _ _ waits => waits) []

theorem quiet (mirrors : Mirrors queues (fun _ => True) session) : session.settle.Shows (queues, [], []) :=
  .of_round mirrors.cleared.round_eq ⟨mirrors.cleared, rfl, rfl⟩

theorem promoted {after : Session} {closed : List (Channel String)} {seats : List Seat} {waiting : List String}
    (mirrors : Mirrors queues (· ≠ key) ⟨table, desk, callers, landed⟩) (absent : table.flight? key = none)
    (promoted : Promoted table desk [] callers [] key (Queues.promote queues.stored waiting) after closed seats) :
    Mirrors (queues.serve key waiting).1 (fun _ => True) after := by
  obtain ⟨after, left, stay, lands⟩ := after
  obtain rfl : after = _ := promoted.leaves
  obtain rfl : stay = seats := promoted.stay
  have mail : left.value? = Queues.take queues.stored (Queues.promote queues.stored waiting).landed := by
    rw [← mirrors.stored]
    exact mirrors.stored ▸ promoted.mail
  have tabled : Mirrors queues (· ≠ key) ⟨served table key closed _, desk, callers, landed⟩ :=
    mirrors.retable (mirrors.keyed.served absent closed (Queues.promote queues.stored waiting).left)
      (fun _ different => different) (fun other different => served_flight? absent closed _ different)
      fun other different flight found =>
        served_channels absent closed _ (mirrors.keyed.bound other flight found)
  have mailed := (tabled.reseat promoted.names promoted.same promoted.others lands).remail mail
    (fun other different leader followers heads waits => by
      rw [mail]
      exact take_eq_none (mirrors.stored ▸ waits) _) lands
  refine mailed.calmed (promoted.heads.stands absent fun name others first => ?_) promoted.heads.1
  rw [mail]
  exact take_eq_none (promote_waits first) _

theorem serves (mirrors : Mirrors queues (· ≠ key) session) (absent : session.table.flight? key = none)
    (astray : ∀ seat ∈ session.callers, Seat.OfKey key seat = true → seat.2.IsAstray session.table) :
    session.settle.Shows (queues.serve key ((session.callers.filter (Seat.OfKey key)).map (·.1))) := by
  obtain ⟨closed, seats, promoted⟩ := @sweep_promotes session.cleared.table session.cleared.desk [] session.callers
    [] key mirrors.distinct absent
    (fun seat member foreign => mirrors.cleared.rests member (of_decide_eq_false foreign)) astray mirrors.works
  have same : session.cleared.desk.value? = queues.stored := mirrors.stored
  rw [same] at promoted
  exact .of_round rfl ⟨mirrors.cleared.promoted absent promoted, promoted.starts, promoted.lands⟩

end Mirrors

end SecretStore.Flight
