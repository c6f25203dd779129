import SecretStore.Proofs.Flight.Polling
import SecretStore.Proofs.Flight.Queues

namespace SecretStore.Flight

open scoped List

def Seat.OfKey (key : String) (seat : Seat) : Bool := seat.2.key = key

theorem Seat.ofKey_ne {key other : String} {seat : Seat} (own : Seat.OfKey key seat = true)
    (different : other ≠ key) : Seat.OfKey other seat = false := by
  rw [OfKey, of_decide_eq_true own]
  exact decide_eq_false different.symm

theorem found_of_prefix {α : Type} {before after : List α} {index : Nat} {found : α}
    (longer : before <+: after) (here : before[index]? = some found) : after[index]? = some found := by
  obtain ⟨more, rfl⟩ := longer
  rw [List.getElem?_append_left (List.getElem?_eq_some_iff.1 here).1, here]

theorem Seat.Rests.mono {table after : Table String} {desk left : Desk} {seat : Seat}
    (rests : seat.Rests table desk) (longer : table.channels <+: after.channels)
    (absent : ∀ name, desk.value? name = none → left.value? name = none) : seat.Rests after left := by
  rcases rests with ⟨flight, point, waits⟩ | ⟨flight, point, found⟩
  · exact Or.inl ⟨flight, point, absent _ waits⟩
  · exact Or.inr ⟨flight, point, found_of_prefix longer found⟩

theorem Caller.IsAstray.mono {table after : Table String} {caller : Caller Errand String}
    (astray : caller.IsAstray table) (longer : table.channels <+: after.channels) :
    caller.IsAstray after := by
  rcases astray with point | ⟨flight, point, gone⟩
  · exact Or.inl point
  · exact Or.inr ⟨flight, point, found_of_prefix longer gone⟩

namespace Session

variable {table : Table String} {desk : Desk} {kept todo : List Seat} {landed : List Landing}
  {key : String} {flight : Nat} {value : String}

theorem sweep_lands (distinct : Distinct (kept ++ todo)) (sight : table.look flight = .value value)
    (rests : ∀ seat ∈ todo, seat.OfKey key = false → seat.Rests table desk)
    (follows : ∀ seat ∈ todo, seat.OfKey key = true → seat.2.point = .following flight) :
    sweep table desk kept todo landed =
      ⟨table, desk, kept ++ todo.filter (!·.OfKey key),
        landed ++ (todo.filter (Seat.OfKey key)).map fun seat => ⟨seat.1, value, true⟩⟩ := by
  induction todo generalizing kept landed with
  | nil => simp [sweep, Rounds.each]
  | cons seat todo ih =>
      obtain ⟨name, caller⟩ := seat
      have rests' := fun other member => rests other (List.mem_cons_of_mem _ member)
      have follows' := fun other member => follows other (List.mem_cons_of_mem _ member)
      cases own : Seat.OfKey key (name, caller) with
      | true =>
          have polls : caller.poll Desk.advance table desk = _ :=
            Caller.poll_lands (follows (name, caller) (by simp) own) sight
          rw [sweep_returns distinct polls rfl, ih (distinct_middle.1 distinct).2 rests' follows']
          simp [own]
      | false =>
          obtain ⟨polls, stays⟩ := (rests (name, caller) (by simp) own).polls
          rw [sweep_stays distinct polls stays, ih (by simpa using distinct) rests' follows']
          simp [own]

def follow (key : String) (flight : Nat) (seat : Seat) : Seat :=
  if seat.OfKey key then (seat.1, seat.2.at (.following flight)) else seat

theorem sweep_follows (distinct : Distinct (kept ++ todo)) (present : table.flight? key = some flight)
    (pending : table.look flight = .pending)
    (rests : ∀ seat ∈ todo, seat.OfKey key = false → seat.Rests table desk)
    (astray : ∀ seat ∈ todo, seat.OfKey key = true → seat.2.IsAstray table) :
    sweep table desk kept todo landed = ⟨table, desk, kept ++ todo.map (follow key flight), landed⟩ := by
  induction todo generalizing kept with
  | nil => simp [sweep, Rounds.each]
  | cons seat todo ih =>
      obtain ⟨name, caller⟩ := seat
      have rests' := fun other member => rests other (List.mem_cons_of_mem _ member)
      have astray' := fun other member => astray other (List.mem_cons_of_mem _ member)
      cases own : Seat.OfKey key (name, caller) with
      | true =>
          have mine : caller.key = key := of_decide_eq_true own
          have polls : caller.poll Desk.advance table desk = _ :=
            Caller.poll_follows (astray (name, caller) (by simp) own).joins (mine ▸ present) pending
          have distinct' : Distinct (kept ++ [(name, caller.at (.following flight))] ++ todo) := by
            simpa [Distinct] using distinct
          rw [sweep_stays distinct polls rfl, ih distinct' rests' astray']
          simp [follow, own]
      | false =>
          obtain ⟨polls, stays⟩ := (rests (name, caller) (by simp) own).polls
          rw [sweep_stays distinct polls stays, ih (by simpa using distinct) rests' astray']
          simp [follow, own]

theorem promote_congr {stored other : String → Option String} {names : List String}
    (same : ∀ name ∈ names, stored name = other name) :
    Queues.promote stored names = Queues.promote other names := by
  induction names with
  | nil => rfl
  | cons name names ih =>
      rw [Queues.promote, Queues.promote, same name (by simp),
        ih fun name member => same name (List.mem_cons_of_mem _ member)]

theorem promote_without {name : String} {caller : Caller Errand String} (desk : Desk) (key : String)
    (distinct : Distinct (kept ++ (name, caller) :: todo)) :
    Queues.promote desk.value? ((todo.filter (Seat.OfKey key)).map (·.1)) =
      Queues.promote (desk.without name).value? ((todo.filter (Seat.OfKey key)).map (·.1)) := by
  refine promote_congr ?_
  intro other member
  obtain ⟨seat, there, rfl⟩ := List.mem_map.1 member
  have different := (distinct_middle.1 distinct).1 seat
    (List.mem_append_right _ (List.mem_filter.1 there).1)
  simp [different]

theorem take_cons (stored : String → Option String) (landing : Landing) (landed : List Landing) :
    Queues.take (fun name => if name = landing.name then none else stored name) landed =
      Queues.take stored (landing :: landed) := by
  funext name
  simp only [Queues.take, List.map_cons, List.mem_cons]
  split <;> split <;> simp_all

def Heads (flight : Nat) (left : List String) (seats : List Seat) : Prop :=
  seats.map (·.1) = left ∧ match seats with
    | [] => True
    | leader :: followers => leader.2.point = .working flight ⟨leader.1, true⟩ ∧
      ∀ seat ∈ followers, seat.2.point = .following flight

def served (table : Table String) (key : String) (closed : List (Channel String)) : List String → Table String
  | [] => ⟨table.entries, table.channels ++ closed⟩
  | _ :: _ => (Table.join ⟨table.entries, table.channels ++ closed⟩ key).2

/-- A round in which the callers of one key begin one after another. -/
structure Promoted (table : Table String) (desk : Desk) (kept todo : List Seat) (landed : List Landing)
    (key : String) (promotion : Promotion) (after : Session) (closed : List (Channel String))
    (seats : List Seat) : Prop where
  leaves : after.table = served table key closed promotion.left
  stay : after.callers = kept ++ seats
  lands : after.landed = landed ++ promotion.landed
  starts : after.desk.started = desk.started ++ promotion.started
  mail : after.desk.value? = Queues.take desk.value? promotion.landed
  others : ∀ other ≠ key, seats.filter (Seat.OfKey other) = todo.filter (Seat.OfKey other)
  heads : Heads (table.channels.length + closed.length) promotion.left (seats.filter (Seat.OfKey key))
  names : seats.map (·.1) <+ todo.map (·.1)
  same : ∀ seat ∈ seats, ∃ old ∈ todo, old.1 = seat.1 ∧ old.2.key = seat.2.key ∧ old.2.work = seat.2.work

theorem Promoted.nil : Promoted table desk kept [] landed key ⟨[], [], []⟩ (sweep table desk kept [] landed) [] [] where
  leaves := by simp [sweep, Rounds.each, served]
  stay := rfl
  lands := by simp [sweep, Rounds.each]
  starts := by simp [sweep, Rounds.each]
  mail := rfl
  others other different := rfl
  heads := ⟨rfl, trivial⟩
  names := List.Sublist.refl _
  same seat member := (List.not_mem_nil member).elim

theorem Promoted.pass {seat : Seat} {promotion : Promotion} {after : Session}
    {closed : List (Channel String)} {seats : List Seat} (foreign : seat.OfKey key = false)
    (promoted : Promoted table desk (kept ++ [seat]) todo landed key promotion after closed seats) :
    Promoted table desk kept (seat :: todo) landed key promotion after closed (seat :: seats) where
  leaves := promoted.leaves
  stay := by
    rw [promoted.stay, List.append_assoc]
    rfl
  lands := promoted.lands
  starts := promoted.starts
  mail := promoted.mail
  others other different := by
    rw [List.filter_cons, List.filter_cons, promoted.others other different]
  heads := by
    rw [List.filter_cons_of_neg (by simp [foreign])]
    exact promoted.heads
  names := promoted.names.cons_cons _
  same other member := by
    rcases List.mem_cons.1 member with rfl | rest
    · exact ⟨_, List.mem_cons_self, rfl, rfl, rfl⟩
    · obtain ⟨old, there, same⟩ := promoted.same other rest
      exact ⟨old, List.mem_cons_of_mem _ there, same⟩

variable {name : String} {caller : Caller Errand String}

theorem Promoted.complete {promotion : Promotion} {after : Session} {closed : List (Channel String)}
    {seats : List Seat} (own : Seat.OfKey key (name, caller) = true) (work : caller.work = ⟨name, false⟩)
    (promoted : Promoted ⟨table.entries, table.channels ++ [⟨some value, false⟩]⟩
      ((desk.begin caller.work).without name) kept todo (landed ++ [⟨name, value, false⟩]) key promotion
      after closed seats) :
    Promoted table desk kept ((name, caller) :: todo) landed key
      ⟨name :: promotion.started, ⟨name, value, false⟩ :: promotion.landed, promotion.left⟩ after
      (⟨some value, false⟩ :: closed) seats where
  leaves := by
    rw [promoted.leaves]
    cases promotion.left <;> simp [served]
  stay := promoted.stay
  lands := by rw [promoted.lands, List.append_assoc]; rfl
  starts := by
    rw [promoted.starts, work]
    simp [Desk.begin, Desk.without]
  mail := by
    rw [promoted.mail, ← take_cons]
    congr 1
    funext other
    simp
  others other different := by
    rw [promoted.others other different, List.filter_cons_of_neg (by simp [Seat.ofKey_ne own different])]
  heads := by
    have heads := promoted.heads
    simpa [Nat.add_assoc, Nat.add_comm 1] using heads
  names := promoted.names.cons _
  same other member := by
    obtain ⟨old, there, same⟩ := promoted.same other member
    exact ⟨old, List.mem_cons_of_mem _ there, same⟩

theorem follow_same (seat : Seat) : (follow key flight seat).1 = seat.1 ∧
    (follow key flight seat).2.key = seat.2.key ∧ (follow key flight seat).2.work = seat.2.work := by
  rw [follow]
  split <;> exact ⟨rfl, rfl, rfl⟩

theorem filter_follow (other : String) (seats : List Seat) :
    (seats.map (follow key flight)).filter (Seat.OfKey other) =
      (seats.filter (Seat.OfKey other)).map (follow key flight) := by
  rw [List.filter_map]
  congr 1
  refine List.filter_congr ?_
  intro seat member
  simp only [Function.comp_apply, Seat.OfKey, (follow_same seat).2.1]

theorem map_follow_ne {other : String} (different : other ≠ key) (seats : List Seat) :
    (seats.filter (Seat.OfKey other)).map (follow key flight) = seats.filter (Seat.OfKey other) := by
  refine (List.map_congr_left (g := id) ?_).trans (List.map_id _)
  intro seat member
  refine if_neg ?_
  simp [Seat.ofKey_ne (List.mem_filter.1 member).2 different.symm]

theorem sweep_lead (absent : table.flight? key = none) (distinct : Distinct (kept ++ (name, caller) :: todo))
    (rests : ∀ seat ∈ todo, seat.OfKey key = false → seat.Rests table desk)
    (astray : ∀ seat ∈ todo, seat.OfKey key = true → seat.2.IsAstray table) (point : Point Errand String) :
    sweep (table.join key).2 (desk.begin caller.work) (kept ++ [(name, caller.at point)]) todo landed =
      ⟨(table.join key).2, desk.begin caller.work,
        kept ++ [(name, caller.at point)] ++ todo.map (follow key table.channels.length), landed⟩ := by
  rw [Table.join_absent absent]
  have longer : table.channels <+: table.channels ++ [⟨none, true⟩] := List.prefix_append _ _
  refine sweep_follows (by simpa [Distinct] using distinct) ?_ (look_pending (by simp)) ?_ ?_
  · rw [Table.flight?_cons, if_pos rfl]
  · intro seat member foreign
    exact (rests seat member foreign).mono longer fun name waits => by simpa using waits
  · intro seat member own
    exact (astray seat member own).mono longer

theorem Promoted.lead (own : Seat.OfKey key (name, caller) = true) (work : caller.work = ⟨name, false⟩)
    (absent : table.flight? key = none)
    (distinct : Distinct (kept ++ (name, caller) :: todo))
    (rests : ∀ seat ∈ todo, seat.OfKey key = false → seat.Rests table desk)
    (astray : ∀ seat ∈ todo, seat.OfKey key = true → seat.2.IsAstray table) :
    Promoted table desk kept ((name, caller) :: todo) landed key
      ⟨[name], [], name :: (todo.filter (Seat.OfKey key)).map (·.1)⟩
      (sweep (table.join key).2 (desk.begin caller.work)
        (kept ++ [(name, caller.at (.working table.channels.length ⟨name, true⟩))]) todo landed) []
      ((name, caller.at (.working table.channels.length ⟨name, true⟩)) ::
        todo.map (follow key table.channels.length)) := by
  have own' : Seat.OfKey key (name, caller.at (.working table.channels.length ⟨name, true⟩)) = true := own
  rw [sweep_lead absent distinct rests astray]
  exact {
    leaves := by simp [served]
    stay := by simp
    lands := by simp
    starts := by simp [Desk.begin, work]
    mail := by
      funext other
      simp [Queues.take]
    others := fun other different => by
      rw [List.filter_cons_of_neg (by simp [Seat.ofKey_ne own' different]),
        List.filter_cons_of_neg (by simp [Seat.ofKey_ne own different]), filter_follow, map_follow_ne different]
    heads := by
      rw [List.filter_cons_of_pos own', filter_follow]
      refine ⟨?_, rfl, ?_⟩
      · rw [List.map_cons, List.map_map]
        exact congrArg (name :: ·) (List.map_congr_left fun seat member => (follow_same seat).1)
      · intro seat member
        obtain ⟨old, there, rfl⟩ := List.mem_map.1 member
        simp [follow, (List.mem_filter.1 there).2]
    names := by
      have others : (todo.map (follow key table.channels.length)).map (·.1) = todo.map (·.1) := by
        rw [List.map_map]
        exact List.map_congr_left fun seat member => (follow_same seat).1
      rw [List.map_cons, List.map_cons, others]
    same := fun seat member => by
      rcases List.mem_cons.1 member with rfl | rest
      · exact ⟨_, List.mem_cons_self, rfl, rfl, rfl⟩
      · obtain ⟨old, there, rfl⟩ := List.mem_map.1 rest
        obtain ⟨name, key, work⟩ := @follow_same key table.channels.length old
        exact ⟨old, List.mem_cons_of_mem _ there, name.symm, key.symm, work.symm⟩ }

theorem sweep_promotes (distinct : Distinct (kept ++ todo)) (absent : table.flight? key = none)
    (rests : ∀ seat ∈ todo, seat.OfKey key = false → seat.Rests table desk)
    (astray : ∀ seat ∈ todo, seat.OfKey key = true → seat.2.IsAstray table)
    (works : ∀ seat ∈ todo, seat.2.work = ⟨seat.1, false⟩) :
    ∃ closed seats, Promoted table desk kept todo landed key
      (Queues.promote desk.value? ((todo.filter (Seat.OfKey key)).map (·.1)))
      (sweep table desk kept todo landed) closed seats := by
  -- Each caller that is done at once leaves a closed channel in the table and one delivery less on the desk.
  induction todo generalizing table desk kept landed with
  | nil => exact ⟨_, _, .nil⟩
  | cons seat todo ih =>
      obtain ⟨name, caller⟩ := seat
      have rests' := fun other member => rests other (List.mem_cons_of_mem _ member)
      have astray' := fun other member => astray other (List.mem_cons_of_mem _ member)
      have works' := fun other member => works other (List.mem_cons_of_mem _ member)
      have work : caller.work = ⟨name, false⟩ := works (name, caller) List.mem_cons_self
      cases own : Seat.OfKey key (name, caller) with
      | false =>
          obtain ⟨polls, stays⟩ := (rests (name, caller) (by simp) own).polls
          have distinct' : Distinct (kept ++ [(name, caller)] ++ todo) := by simpa using distinct
          obtain ⟨closed, seats, promoted⟩ :=
            @ih table desk (kept ++ [(name, caller)]) landed distinct' absent rests' astray' works'
          rw [List.filter_cons_of_neg (by simp [own]), sweep_stays distinct polls stays]
          exact ⟨closed, _, promoted.pass own⟩
      | true =>
          have mine : caller.key = key := of_decide_eq_true own
          have lost := astray (name, caller) List.mem_cons_self own
          rw [List.filter_cons_of_pos own, List.map_cons, Queues.promote]
          cases waits : desk.value? name with
          | none =>
              have begun : ({ caller.work with begun := true } : Errand) = ⟨name, true⟩ := by rw [work]
              have polls := Caller.poll_leads lost.joins (mine ▸ absent) (by rw [work, waits])
              rw [sweep_stays distinct polls rfl, mine, begun]
              exact ⟨_, _, .lead own work absent distinct rests' astray'⟩
          | some value =>
              have present : desk.value? caller.work.name = some value := by rw [work, waits]
              have polls := Caller.poll_completes lost.joins (mine ▸ absent) (Desk.advance_finished present)
              have taken : (desk.begin caller.work).without caller.work.name =
                  (desk.begin caller.work).without name := by rw [work]
              have begun : (desk.begin caller.work).value? = desk.value? := funext (desk.begin_value? _)
              have longer : table.channels <+: table.channels ++ [⟨some value, false⟩] :=
                List.prefix_append _ _
              obtain ⟨closed, seats, promoted⟩ := @ih
                ⟨table.entries, table.channels ++ [⟨some value, false⟩]⟩
                ((desk.begin caller.work).without name) kept (landed ++ [⟨name, value, false⟩])
                (distinct_middle.1 distinct).2 absent
                (fun seat member foreign => (rests' seat member foreign).mono longer
                  fun other waits => by simp [waits])
                (fun seat member own => (astray' seat member own).mono longer) works'
              rw [sweep_returns distinct polls rfl, taken, ← begun, promote_without _ key distinct]
              exact ⟨_, _, .complete own work promoted⟩

end Session

end SecretStore.Flight
