import Mathlib.Data.List.Nodup
import SecretStore.Flight.Session
import SecretStore.Proofs.Flight.Exclusion

namespace SecretStore.Flight

namespace Desk

variable {desk : Desk} {name : String}

def value? (desk : Desk) (name : String) : Option String := (desk.mail.find? (·.1 = name)).map (·.2)

def without (desk : Desk) (name : String) : Desk :=
  { desk with mail := desk.mail.filter (·.1 ≠ name) }

@[simp]
theorem without_value? (desk : Desk) (name other : String) :
    (desk.without name).value? other = if other = name then none else desk.value? other := by
  simp only [value?, without]
  induction desk.mail with
  | nil => simp
  | cons entry mail ih => grind

@[simp]
theorem deliver_value? (desk : Desk) (name value other : String) :
    (desk.deliver name value).value? other = if other = name then some value else desk.value? other := by
  have others := without_value? desk name other
  simp only [value?, without] at others
  simp only [value?, deliver, List.find?_cons]
  grind

@[simp]
theorem begin_value? (desk : Desk) (errand : Errand) (other : String) :
    (desk.begin errand).value? other = desk.value? other := by
  rw [begin]
  split <;> rfl

theorem advance_waiting {errand : Errand} (absent : desk.value? errand.name = none) :
    advance errand desk = (.waiting { errand with begun := true }, desk.begin errand) := by
  have nothing : (desk.begin errand).mail.find? (·.1 = errand.name) = none := by
    have same := begin_value? desk errand errand.name
    rw [absent] at same
    exact Option.map_eq_none_iff.1 same
  simp only [advance, nothing]

theorem advance_finished {errand : Errand} {value : String} (present : desk.value? errand.name = some value) :
    advance errand desk = (.finished value, (desk.begin errand).without errand.name) := by
  have something : ∃ entry, (desk.begin errand).mail.find? (·.1 = errand.name) = some entry ∧
      entry.2 = value := by
    have same := begin_value? desk errand errand.name
    rw [present] at same
    exact Option.map_eq_some_iff.1 same
  obtain ⟨⟨name, value⟩, found, rfl⟩ := something
  simp only [advance, found]
  rfl

end Desk

namespace Table

variable {V : Type} {table : Table V} {key : String} {flight : Nat} {value : V}

def complete (table : Table V) (key : String) (flight : Nat) (value : V) : Table V :=
  ((table.publish flight value).leave key).close flight

theorem modify_last {α : Type} (front : List α) (last : α) (change : α → α) :
    (front ++ [last]).modify front.length change = front ++ [change last] := by
  induction front with
  | nil => rfl
  | cons first front ih => simpa using ih

theorem join_complete (absent : table.flight? key = none) (value : V) :
    (table.join key).2.complete key table.channels.length value =
      ⟨table.entries, table.channels ++ [⟨some value, false⟩]⟩ := by
  have others : table.entries.filter (·.1 ≠ key) = table.entries := by
    rw [List.filter_eq_self]
    rintro ⟨other, flight⟩ member
    rw [decide_eq_true_eq]
    rintro rfl
    exact flight?_eq_none.1 absent flight member
  have left : ((key, table.channels.length) :: table.entries).filter (·.1 ≠ key) = table.entries := by
    rw [List.filter_cons_of_neg (by simp), others]
  rw [join_absent absent, complete, publish, leave, close, update, update, modify_last, left, modify_last]

theorem flight?_cons (table : Table V) (key other : String) (flight : Nat) (channels : List (Channel V)) :
    flight? ⟨(key, flight) :: table.entries, channels⟩ other =
      if other = key then some flight else table.flight? other := by
  simp only [flight?, List.find?_cons]
  grind

theorem flight?_filter (table : Table V) (key other : String) (channels : List (Channel V)) :
    flight? ⟨table.entries.filter (·.1 ≠ key), channels⟩ other =
      if other = key then none else table.flight? other := by
  simp only [flight?]
  induction table.entries with
  | nil => simp
  | cons entry entries ih => grind

theorem flight?_departed (table : Table V) (key : String) (channels : List (Channel V)) :
    flight? ⟨table.entries.filter (·.1 ≠ key), channels⟩ key = none :=
  (flight?_filter table key key channels).trans (if_pos rfl)

theorem complete_channels_length (table : Table V) (key : String) (flight : Nat) (value : V) :
    (table.complete key flight value).channels.length = table.channels.length := by
  simp [complete, publish, leave, close, update]

theorem complete_channels_self {channel : Channel V} (found : table.channels[flight]? = some channel) :
    (table.complete key flight value).channels[flight]? = some ⟨some value, false⟩ := by
  simp [complete, publish, leave, close, update, found]

theorem complete_channels_ne {other : Nat} (different : other ≠ flight) :
    (table.complete key flight value).channels[other]? = table.channels[other]? := by
  simp [complete, publish, leave, close, update, Ne.symm different]

end Table

namespace Caller

section Runs

variable {W V σ : Type} {advance : W → σ → Progress W V × σ} {caller : Caller W V} {table : Table V}
  {state after : σ} {flight : Nat} {work : W} {value : V}

theorem run_publishing (point : caller.point = .publishing flight value) (steps : Nat) :
    caller.run advance (steps + 4) table state =
      (caller.at (.returned value false), table.complete caller.key flight value, state) := by
  simp [run, act, point, Caller.at, Table.complete]

theorem run_finished (point : caller.point = .working flight work)
    (finished : advance work state = (.finished value, after)) (steps : Nat) :
    caller.run advance (steps + 5) table state =
      (caller.at (.returned value false), table.complete caller.key flight value, after) := by
  have published := @run_publishing W V σ advance (caller.progress flight (.finished value)) table after flight
    value rfl steps
  simp only [run, point, finished] at published ⊢
  exact published

theorem run_leads (absent : table.flight? caller.key = none) (steps : Nat) :
    (caller.at .joining).run advance (steps + 1) table state =
      (caller.at (.working table.channels.length caller.work)).run advance steps
        (table.join caller.key).2 state := by
  simp only [run, act, Table.join, absent, Caller.at]

theorem run_follows (present : table.flight? caller.key = some flight)
    (pending : table.look flight = .pending) (steps : Nat) :
    (caller.at .joining).run advance (steps + 2) table state =
      (caller.at (.following flight), table, state) := by
  simp only [run, act, Table.join, present, pending, Caller.at]

theorem run_lands (point : caller.point = .following flight) (sight : table.look flight = .value value)
    (steps : Nat) :
    caller.run advance (steps + 2) table state = (caller.at (.returned value true), table, state) := by
  simp only [run, act, point, sight, Caller.at]

theorem run_gone (point : caller.point = .following flight) (sight : table.look flight = .gone) (steps : Nat) :
    caller.run advance (steps + 1) table state = (caller.at .joining).run advance steps table state := by
  simp only [run, act, point, sight, Caller.at]

def HasToJoin (caller : Caller W V) (table : Table V) : Prop :=
  caller.point = .joining ∨ ∃ flight, caller.point = .following flight ∧ table.look flight = .gone

theorem poll_joins (advance : W → σ → Progress W V × σ) (state : σ) (joins : caller.HasToJoin table) :
    ∃ steps, caller.poll advance table state =
      (caller.at .joining).run advance (steps + 6) table state := by
  -- A caller whose flight is gone has spent one of its steps on seeing so.
  rcases joins with point | ⟨flight, point, sight⟩
  · refine ⟨1, ?_⟩
    rw [poll, mostSteps, Caller.at, ← point]
  · exact ⟨0, run_gone point sight 6⟩

theorem poll_pending (point : caller.point = .following flight) (pending : table.look flight = .pending) :
    caller.poll advance table state = (caller, table, state) := by
  simp only [poll, mostSteps, run, point, pending]

theorem poll_lands (point : caller.point = .following flight) (sight : table.look flight = .value value) :
    caller.poll advance table state = (caller.at (.returned value true), table, state) := by
  rw [poll, mostSteps, run_lands point sight]

theorem poll_follows (joins : caller.HasToJoin table) (present : table.flight? caller.key = some flight)
    (pending : table.look flight = .pending) :
    caller.poll advance table state = (caller.at (.following flight), table, state) := by
  obtain ⟨steps, polls⟩ := caller.poll_joins advance state joins
  rw [polls, run_follows present pending]

theorem poll_finished (point : caller.point = .working flight work)
    (finished : advance work state = (.finished value, after)) :
    caller.poll advance table state =
      (caller.at (.returned value false), table.complete caller.key flight value, after) := by
  rw [poll, mostSteps, run_finished point finished]

theorem poll_completes (joins : caller.HasToJoin table) (absent : table.flight? caller.key = none)
    (finished : advance caller.work state = (.finished value, after)) :
    caller.poll advance table state =
      (caller.at (.returned value false), ⟨table.entries, table.channels ++ [⟨some value, false⟩]⟩, after) := by
  obtain ⟨steps, polls⟩ := caller.poll_joins advance state joins
  rw [polls, run_leads absent, ← Table.join_complete absent]
  exact run_finished rfl finished _

def IsAstray (caller : Caller W V) (table : Table V) : Prop :=
  caller.point = .joining ∨ ∃ flight, caller.point = .following flight ∧
    table.channels[flight]? = some ⟨none, false⟩

theorem IsAstray.joins (astray : caller.IsAstray table) : caller.HasToJoin table := by
  rcases astray with point | ⟨flight, point, gone⟩
  · exact Or.inl point
  · exact Or.inr ⟨flight, point, by simp only [Table.look, gone]⟩

end Runs

variable {caller : Caller Errand String} {table : Table String} {desk : Desk} {flight : Nat}
  {errand : Errand} {value : String}

theorem run_waiting (point : caller.point = .working flight errand)
    (absent : desk.value? errand.name = none) (steps : Nat) :
    caller.run Desk.advance (steps + 1) table desk =
      (caller.at (.working flight { errand with begun := true }), table, desk.begin errand) := by
  simp [run, point, Desk.advance_waiting absent, progress, Caller.at]

theorem poll_waiting (point : caller.point = .working flight errand) (begun : errand.begun = true)
    (absent : desk.value? errand.name = none) : caller.poll Desk.advance table desk = (caller, table, desk) := by
  have again : ({ errand with begun := true } : Errand) = errand := by rw [← begun]
  rw [poll, mostSteps, run_waiting point absent, again, Caller.at, ← point, Desk.begin, if_pos begun]

theorem poll_delivered (point : caller.point = .working flight errand) (begun : errand.begun = true)
    (present : desk.value? errand.name = some value) :
    caller.poll Desk.advance table desk =
      (caller.at (.returned value false), table.complete caller.key flight value, desk.without errand.name) := by
  rw [poll_finished point (Desk.advance_finished present), Desk.begin, if_pos begun]

theorem poll_leads (joins : caller.HasToJoin table) (absent : table.flight? caller.key = none)
    (waits : desk.value? caller.work.name = none) :
    caller.poll Desk.advance table desk =
      (caller.at (.working table.channels.length { caller.work with begun := true }),
        (table.join caller.key).2, desk.begin caller.work) := by
  obtain ⟨steps, polls⟩ := caller.poll_joins Desk.advance desk joins
  rw [polls, run_leads absent]
  exact run_waiting rfl waits _

end Caller

abbrev Seat := String × Caller Errand String

def Seat.Rests (table : Table String) (desk : Desk) (seat : Seat) : Prop :=
  (∃ flight, seat.2.point = .working flight ⟨seat.1, true⟩ ∧ desk.value? seat.1 = none) ∨
    ∃ flight, seat.2.point = .following flight ∧ table.channels[flight]? = some ⟨none, true⟩

theorem look_pending {table : Table String} {flight : Nat}
    (found : table.channels[flight]? = some ⟨none, true⟩) : table.look flight = .pending := by
  simp only [Table.look, found]

theorem Seat.Rests.polls {table : Table String} {desk : Desk} {seat : Seat} (rests : seat.Rests table desk) :
    seat.2.poll Desk.advance table desk = (seat.2, table, desk) ∧ seat.2.result? = none := by
  rcases rests with ⟨flight, point, absent⟩ | ⟨flight, point, found⟩
  · exact ⟨Caller.poll_waiting point rfl absent, by simp only [Caller.result?, point]⟩
  · exact ⟨Caller.poll_pending point (look_pending found), by simp only [Caller.result?, point]⟩

namespace Session

variable {table table' : Table String} {desk desk' : Desk} {kept todo : List Seat} {name : String}
  {caller after : Caller Errand String} {landed : List Landing}

def Distinct (seats : List Seat) : Prop := (seats.map (·.1)).Nodup

theorem distinct_middle : Distinct (kept ++ (name, caller) :: todo) ↔
    (∀ seat ∈ kept ++ todo, seat.1 ≠ name) ∧ Distinct (kept ++ todo) := by
  rw [Distinct, List.map_append, List.map_cons, List.nodup_middle, List.nodup_cons, ← List.map_append]
  refine and_congr_left fun _ => ?_
  rw [List.mem_map, not_exists]
  exact forall_congr' fun seat => by rw [not_and]

theorem caller?_middle (others : ∀ seat ∈ kept ++ todo, seat.1 ≠ name) :
    caller? ⟨table, desk, kept ++ (name, caller) :: todo, landed⟩ name = some caller := by
  have passed : kept.find? (·.1 = name) = none := by
    rw [List.find?_eq_none]
    intro seat member
    rw [decide_eq_true_eq]
    exact others seat (List.mem_append_left _ member)
  simp [caller?, List.find?_append, passed]

theorem without_middle (others : ∀ seat ∈ kept ++ todo, seat.1 ≠ name) :
    without ⟨table, desk, kept ++ (name, caller) :: todo, landed⟩ name =
      ⟨table, desk, kept ++ todo, landed⟩ := by
  have passed : ∀ seat ∈ kept, ¬ decide (seat.1 = name) = true := by
    intro seat member
    rw [decide_eq_true_eq]
    exact others seat (List.mem_append_left _ member)
  rw [without, List.eraseP_append_right _ passed, List.eraseP_cons_of_pos (by simp)]

theorem map_middle (others : ∀ seat ∈ kept ++ todo, seat.1 ≠ name) :
    (kept ++ (name, caller) :: todo).map (fun c => if c.1 = name then (name, after) else c) =
      kept ++ (name, after) :: todo := by
  have same (seats : List Seat) (others : ∀ seat ∈ seats, seat.1 ≠ name) :
      seats.map (fun c => if c.1 = name then (name, after) else c) = seats := by
    refine (List.map_congr_left (g := id) ?_).trans (List.map_id seats)
    intro seat member
    exact if_neg (others seat member)
  rw [List.map_append, List.map_cons, if_pos rfl, same, same]
  · exact fun seat member => others seat (List.mem_append_right _ member)
  · exact fun seat member => others seat (List.mem_append_left _ member)

theorem poll_stays (distinct : Distinct (kept ++ (name, caller) :: todo))
    (polls : caller.poll Desk.advance table desk = (after, table', desk')) (stays : after.result? = none) :
    poll name ⟨table, desk, kept ++ (name, caller) :: todo, landed⟩ =
      ⟨table', desk', kept ++ (name, after) :: todo, landed⟩ := by
  have others := (distinct_middle.1 distinct).1
  simp only [poll, caller?_middle others, polls, stays, map_middle others]

theorem poll_returns {value : String} {shared : Bool} (distinct : Distinct (kept ++ (name, caller) :: todo))
    (polls : caller.poll Desk.advance table desk = (after, table', desk'))
    (returns : after.result? = some (value, shared)) :
    poll name ⟨table, desk, kept ++ (name, caller) :: todo, landed⟩ =
      ⟨table', desk', kept ++ todo, landed ++ [⟨name, value, shared⟩]⟩ := by
  have others := (distinct_middle.1 distinct).1
  simp only [poll, caller?_middle others, polls, returns, without_middle others]

/-- Polls the callers that are still to be polled in a round. -/
def sweep (table : Table String) (desk : Desk) (kept todo : List Seat) (landed : List Landing) : Session :=
  Rounds.each poll (todo.map (·.1)) ⟨table, desk, kept ++ todo, landed⟩

theorem round_eq_sweep (table : Table String) (desk : Desk) (callers : List Seat) (landed : List Landing) :
    round ⟨table, desk, callers, landed⟩ = sweep table desk [] callers landed := rfl

theorem sweep_stays (distinct : Distinct (kept ++ (name, caller) :: todo))
    (polls : caller.poll Desk.advance table desk = (after, table', desk')) (stays : after.result? = none) :
    sweep table desk kept ((name, caller) :: todo) landed =
      sweep table' desk' (kept ++ [(name, after)]) todo landed := by
  rw [sweep, List.map_cons, Rounds.each, List.foldl_cons, poll_stays distinct polls stays, sweep,
    List.append_assoc]
  rfl

theorem sweep_returns {value : String} {shared : Bool} (distinct : Distinct (kept ++ (name, caller) :: todo))
    (polls : caller.poll Desk.advance table desk = (after, table', desk'))
    (returns : after.result? = some (value, shared)) :
    sweep table desk kept ((name, caller) :: todo) landed =
      sweep table' desk' kept todo (landed ++ [⟨name, value, shared⟩]) := by
  rw [sweep, List.map_cons, Rounds.each, List.foldl_cons, poll_returns distinct polls returns, sweep]
  rfl

theorem sweep_append {front rest : List Seat} (distinct : Distinct (kept ++ (front ++ rest)))
    (rests : ∀ seat ∈ front, seat.Rests table desk) :
    sweep table desk kept (front ++ rest) landed = sweep table desk (kept ++ front) rest landed := by
  induction front generalizing kept with
  | nil => rw [List.nil_append, List.append_nil]
  | cons seat front ih =>
      obtain ⟨name, caller⟩ := seat
      obtain ⟨polls, stays⟩ := (rests (name, caller) (by simp)).polls
      rw [List.cons_append] at distinct ⊢
      rw [sweep_stays distinct polls stays, ih, List.append_assoc]
      · rfl
      · simpa using distinct
      · exact fun other member => rests other (List.mem_cons_of_mem _ member)

theorem sweep_rests {callers : List Seat} (distinct : Distinct callers)
    (rests : ∀ seat ∈ callers, seat.Rests table desk) :
    round ⟨table, desk, callers, landed⟩ = ⟨table, desk, callers, landed⟩ := by
  have whole : Distinct ([] ++ (callers ++ [])) := by simpa using distinct
  have passed : sweep table desk [] (callers ++ []) landed = sweep table desk ([] ++ callers) [] landed :=
    sweep_append whole rests
  rw [List.append_nil] at passed
  rw [round_eq_sweep, passed]
  simp [sweep, Rounds.each]

end Session

end SecretStore.Flight
