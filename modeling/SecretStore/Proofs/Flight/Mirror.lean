import Mathlib.Data.Finset.Card
import SecretStore.Proofs.Flight.Sweeps

namespace SecretStore.Flight

open scoped List

structure Table.Keyed (table : Table String) : Prop where
  once : (table.entries.map (·.1)).Nodup
  apart : ∀ one two flight, table.flight? one = some flight → table.flight? two = some flight → one = two
  bound : ∀ key flight, table.flight? key = some flight → flight < table.channels.length

namespace Table

variable {table : Table String} {key : String} {flight : Nat} {value : String}

theorem Keyed.empty : (Table.empty : Table String).Keyed where
  once := List.nodup_nil
  apart one two flight found := by cases found
  bound key flight found := by cases found

theorem Keyed.without (keyed : table.Keyed) (key : String) {channels : List (Channel String)}
    (same : channels.length = table.channels.length) :
    (⟨table.entries.filter (·.1 ≠ key), channels⟩ : Table String).Keyed where
  once := keyed.once.sublist (List.filter_sublist.map _)
  apart one two flight first second := by
    rw [flight?_filter] at first second
    split at first <;> split at second <;> first | contradiction | exact keyed.apart one two flight first second
  bound other flight found := by
    rw [flight?_filter] at found
    split at found
    · contradiction
    · exact same ▸ keyed.bound other flight found

theorem Keyed.append (keyed : table.Keyed) (closed : List (Channel String)) :
    (⟨table.entries, table.channels ++ closed⟩ : Table String).Keyed where
  once := keyed.once
  apart := keyed.apart
  bound key flight found := by
    rw [List.length_append]
    exact Nat.lt_add_right _ (keyed.bound key flight found)

theorem Keyed.join (keyed : table.Keyed) (absent : table.flight? key = none) : (table.join key).2.Keyed := by
  rw [join_absent absent]
  refine ⟨?_, ?_, ?_⟩
  · rw [List.map_cons, List.nodup_cons]
    refine ⟨?_, keyed.once⟩
    rintro member
    obtain ⟨⟨other, flight⟩, there, rfl⟩ := List.mem_map.1 member
    exact flight?_eq_none.1 absent flight there
  · intro one two flight first second
    rw [flight?_cons] at first second
    have older {other : String} (found : table.flight? other = some flight) : flight ≠ table.channels.length :=
      (keyed.bound other flight found).ne
    have apart := keyed.apart one two flight
    grind
  · intro other flight found
    rw [flight?_cons] at found
    rw [List.length_append, List.length_singleton]
    split at found
    · obtain rfl := Option.some.inj found
      exact Nat.lt_succ_self _
    · exact Nat.lt_succ_of_lt (keyed.bound other flight found)

theorem Keyed.inFlight (keyed : table.Keyed) : table.inFlight = {key | table.flight? key ≠ none}.ncard := by
  have keys : {key | table.flight? key ≠ none} = ((table.entries.map (·.1)).toFinset : Set String) := by
    ext key
    simp [flight?_eq_none]
  rw [keys, Set.ncard_coe_finset, List.toFinset_card_of_nodup keyed.once, List.length_map, Table.inFlight]

end Table

/-- The callers of a key at rest: none, or one that executes and its followers. -/
def Standing (table : Table String) (desk : Desk) (key : String) : List Seat → Prop
  | [] => table.flight? key = none
  | leader :: followers => ∃ flight, table.flight? key = some flight ∧
      table.channels[flight]? = some ⟨none, true⟩ ∧ leader.2.point = .working flight ⟨leader.1, true⟩ ∧
      desk.value? leader.1 = none ∧ ∀ seat ∈ followers, seat.2.point = .following flight

variable {table after : Table String} {desk left : Desk} {key : String} {seats callers : List Seat}
  {landed : List Landing}

theorem Standing.rests (stands : Standing table desk key seats) : ∀ seat ∈ seats, seat.Rests table desk := by
  intro seat member
  cases seats with
  | nil => cases member
  | cons leader followers =>
      obtain ⟨flight, -, open', works, waits, follow⟩ := stands
      rcases List.mem_cons.1 member with rfl | member
      · exact Or.inl ⟨flight, works, waits⟩
      · exact Or.inr ⟨flight, follow seat member, open'⟩

theorem Standing.flight?_eq_none (stands : Standing table desk key seats) :
    table.flight? key = none ↔ seats = [] := by
  cases seats with
  | nil => exact iff_of_true stands rfl
  | cons leader followers =>
      obtain ⟨flight, present, -⟩ := stands
      simp [present]

theorem Standing.mono (stands : Standing table desk key seats) (entry : after.flight? key = table.flight? key)
    (channel : ∀ flight, table.flight? key = some flight → after.channels[flight]? = table.channels[flight]?)
    (mail : ∀ leader followers, seats = leader :: followers → desk.value? leader.1 = none →
      left.value? leader.1 = none) : Standing after left key seats := by
  cases seats with
  | nil => exact entry.trans stands
  | cons leader followers =>
      obtain ⟨flight, present, open', works, waits, follow⟩ := stands
      exact ⟨flight, entry.trans present, (channel flight present).trans open', works,
        mail leader followers rfl waits, follow⟩

open Session in
structure Mirrors (queues : Queues) (calm : String → Prop) (session : Session) : Prop where
  distinct : Distinct session.callers
  keyed : session.table.Keyed
  works : ∀ seat ∈ session.callers, seat.2.work = ⟨seat.1, false⟩
  homes : ∀ seat ∈ session.callers, queues.home seat.1 = some seat.2.key
  stored : session.desk.value? = queues.stored
  stands : ∀ key, calm key → Standing session.table session.desk key (session.callers.filter (Seat.OfKey key))
  queue : ∀ key, calm key → (session.callers.filter (Seat.OfKey key)).map (·.1) = queues.queue key

namespace Mirrors

open Session

variable {queues : Queues} {calm : String → Prop} {session : Session} {name : String}

theorem initial : Mirrors .empty (fun _ => True) Session.initial where
  distinct := List.nodup_nil
  keyed := .empty
  works _ member := (List.not_mem_nil member).elim
  homes _ member := (List.not_mem_nil member).elim
  stored := rfl
  stands _ _ := rfl
  queue _ _ := rfl

theorem rests (mirrors : Mirrors queues calm session) {seat : Seat} (member : seat ∈ session.callers)
    (calms : calm seat.2.key) : seat.Rests session.table session.desk :=
  (mirrors.stands _ calms).rests seat (List.mem_filter.2 ⟨member, by simp [Seat.OfKey]⟩)

theorem round_eq (mirrors : Mirrors queues (fun _ => True) session) : session.round = session :=
  sweep_rests mirrors.distinct fun _ member => mirrors.rests member trivial

theorem inFlight (mirrors : Mirrors queues (fun _ => True) session) :
    session.table.inFlight = queues.inFlight := by
  rw [mirrors.keyed.inFlight, Queues.inFlight]
  congr 1
  ext key
  simp only [Set.mem_ofPred_eq, ne_eq]
  rw [(mirrors.stands key trivial).flight?_eq_none, ← mirrors.queue key trivial, List.map_eq_nil_iff]

theorem but (mirrors : Mirrors queues (fun _ => True) session) (key : String) : Mirrors queues (· ≠ key) session :=
  { mirrors with
    stands := fun other _ => mirrors.stands other trivial
    queue := fun other _ => mirrors.queue other trivial }

theorem fresh_ne (mirrors : Mirrors queues calm session) (fresh : queues.home name = none) :
    ∀ seat ∈ session.callers, seat.1 ≠ name := by
  rintro seat member rfl
  rw [mirrors.homes seat member] at fresh
  cases fresh

theorem home_of_first (mirrors : Mirrors queues calm session) {first : Seat} {rest : List Seat}
    (those : session.callers.filter (Seat.OfKey key) = first :: rest) : queues.home first.1 = some key := by
  have member : first ∈ session.callers.filter (Seat.OfKey key) := by simp [those]
  obtain ⟨member, own⟩ := List.mem_filter.1 member
  rw [mirrors.homes first member, of_decide_eq_true own]

theorem ne_of_home (mirrors : Mirrors queues calm session) (home : queues.home name = some key)
    {other : String} (different : other ≠ key) {first : Seat} {rest : List Seat}
    (those : session.callers.filter (Seat.OfKey other) = first :: rest) : first.1 ≠ name := by
  rintro rfl
  exact different (Option.some.inj ((mirrors.home_of_first those).symm.trans home))

theorem ne_of_idle (mirrors : Mirrors queues calm session) (idle : queues.executing? name = none)
    (calms : calm key) {first : Seat} {rest : List Seat}
    (those : session.callers.filter (Seat.OfKey key) = first :: rest) : first.1 ≠ name := by
  have queue := mirrors.queue key calms
  rw [those, List.map_cons] at queue
  rintro rfl
  simp only [Queues.executing?, mirrors.home_of_first those, ← queue, if_pos] at idle
  cases idle

theorem retable (mirrors : Mirrors queues calm ⟨table, desk, callers, landed⟩) (keyed : after.Keyed)
    {calm' : String → Prop} (fewer : ∀ key, calm' key → calm key)
    (entry : ∀ key, calm' key → after.flight? key = table.flight? key)
    (channel : ∀ key, calm' key → ∀ flight, table.flight? key = some flight →
      after.channels[flight]? = table.channels[flight]?) :
    Mirrors queues calm' ⟨after, desk, callers, landed⟩ :=
  { mirrors with
    keyed
    stands := fun key calms => (mirrors.stands key (fewer key calms)).mono (entry key calms) (channel key calms)
      fun _ _ _ waits => waits
    queue := fun key calms => mirrors.queue key (fewer key calms) }

theorem reseat (mirrors : Mirrors queues calm ⟨table, desk, callers, landed⟩)
    (names : seats.map (·.1) <+ callers.map (·.1))
    (same : ∀ seat ∈ seats, ∃ old ∈ callers, old.1 = seat.1 ∧ old.2.key = seat.2.key ∧ old.2.work = seat.2.work)
    (others : ∀ key, calm key → seats.filter (Seat.OfKey key) = callers.filter (Seat.OfKey key))
    (landed' : List Landing) : Mirrors queues calm ⟨table, desk, seats, landed'⟩ where
  distinct := mirrors.distinct.sublist names
  keyed := mirrors.keyed
  works seat member := by
    obtain ⟨old, there, name, -, work⟩ := same seat member
    rw [← work, ← name]
    exact mirrors.works old there
  homes seat member := by
    obtain ⟨old, there, name, key, -⟩ := same seat member
    rw [← key, ← name]
    exact mirrors.homes old there
  stored := mirrors.stored
  stands key calms := by
    have stands := mirrors.stands key calms
    rwa [← others key calms] at stands
  queue key calms := by
    have queue := mirrors.queue key calms
    rwa [← others key calms] at queue

theorem remail (mirrors : Mirrors queues calm ⟨table, desk, callers, landed⟩)
    {stored : String → Option String} (holds : left.value? = stored)
    (mail : ∀ key, calm key → ∀ leader followers, callers.filter (Seat.OfKey key) = leader :: followers →
      desk.value? leader.1 = none → left.value? leader.1 = none) (landed' : List Landing) :
    Mirrors { queues with stored } calm ⟨table, left, callers, landed'⟩ :=
  { mirrors with
    stored := holds
    stands := fun key calms => (mirrors.stands key calms).mono rfl (fun _ _ => rfl) (mail key calms) }

theorem calmed {waiting : List String} (mirrors : Mirrors queues (· ≠ key) session)
    (stands : Standing session.table session.desk key (session.callers.filter (Seat.OfKey key)))
    (queue : (session.callers.filter (Seat.OfKey key)).map (·.1) = waiting) :
    Mirrors (queues.withQueue key waiting) (fun _ => True) session :=
  { mirrors with
    stands := fun other _ => by
      rcases eq_or_ne other key with rfl | different
      · exact stands
      · exact mirrors.stands other different
    queue := fun other _ => by
      rcases eq_or_ne other key with rfl | different
      · rw [queue, Queues.withQueue_queue, if_pos rfl]
      · rw [mirrors.queue other different, Queues.withQueue_queue, if_neg different] }

theorem unseat (mirrors : Mirrors queues calm ⟨table, desk, callers, landed⟩) {seats : List Seat}
    (fewer : seats <+ callers)
    (others : ∀ key, calm key → seats.filter (Seat.OfKey key) = callers.filter (Seat.OfKey key))
    (landed' : List Landing) : Mirrors queues calm ⟨table, desk, seats, landed'⟩ :=
  mirrors.reseat (fewer.map _) (fun seat member => ⟨seat, fewer.subset member, rfl, rfl, rfl⟩) others landed'

theorem depart (mirrors : Mirrors queues (fun _ => True) ⟨table, desk, callers, landed⟩) {flight : Nat}
    (present : table.flight? key = some flight) {channels : List (Channel String)}
    (same : channels.length = table.channels.length)
    (elsewhere : ∀ other ≠ flight, channels[other]? = table.channels[other]?) :
    Mirrors queues (· ≠ key) ⟨⟨table.entries.filter (·.1 ≠ key), channels⟩, desk, callers, landed⟩ := by
  refine mirrors.retable (mirrors.keyed.without key same) (fun _ _ => trivial) ?_ ?_
  · intro other different
    rw [Table.flight?_filter, if_neg different]
  · intro other different theirs found
    -- No two keys have one flight, so this channel is another.
    refine elsewhere theirs ?_
    rintro rfl
    exact different (mirrors.keyed.apart _ _ _ found present)

theorem join (mirrors : Mirrors queues (fun _ => True) ⟨table, desk, callers, landed⟩)
    (fresh : queues.home name = none) {caller : Caller Errand String} (mine : caller.key = key)
    (work : caller.work = ⟨name, false⟩) :
    Mirrors { queues with home := Function.update queues.home name (some key) } (· ≠ key)
      ⟨table, desk, callers ++ [(name, caller)], landed⟩ where
  distinct := by
    refine distinct_middle.2 ⟨?_, ?_⟩
    · simpa using mirrors.fresh_ne fresh
    · simpa using mirrors.distinct
  keyed := mirrors.keyed
  works seat member := by
    rcases List.mem_append.1 member with member | member
    · exact mirrors.works seat member
    · obtain rfl := List.mem_singleton.1 member
      exact work
  homes seat member := by
    rcases List.mem_append.1 member with member | member
    · exact (Function.update_of_ne (mirrors.fresh_ne fresh seat member) ..).trans (mirrors.homes seat member)
    · obtain rfl := List.mem_singleton.1 member
      exact (Function.update_self ..).trans (congrArg some mine.symm)
  stored := mirrors.stored
  stands other different := by
    have foreign := Seat.ofKey_ne (decide_eq_true mine : Seat.OfKey key (name, caller) = true) different
    simpa [foreign] using mirrors.stands other trivial
  queue other different := by
    have foreign := Seat.ofKey_ne (decide_eq_true mine : Seat.OfKey key (name, caller) = true) different
    simpa [foreign] using mirrors.queue other trivial

theorem store (mirrors : Mirrors queues (fun _ => True) session) (idle : queues.executing? name = none)
    (value : String) :
    Mirrors (queues.store name value) (fun _ => True) { session with desk := session.desk.deliver name value } := by
  have holds : (session.desk.deliver name value).value? = Function.update queues.stored name (some value) := by
    funext other
    rw [Desk.deliver_value?, Function.update_apply, mirrors.stored]
  refine mirrors.remail holds ?_ session.landed
  intro key calms leader followers those waits
  simp [waits, mirrors.ne_of_idle idle calms those]

end Mirrors

end SecretStore.Flight
