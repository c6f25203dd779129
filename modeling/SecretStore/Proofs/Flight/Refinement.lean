import SecretStore.Proofs.Flight.Settling

namespace SecretStore.Flight

open scoped List

theorem Session.caller?_split (session : Session) (name : String) :
    (session.caller? name = none ∧ ∀ seat ∈ session.callers, seat.1 ≠ name) ∨
      ∃ kept caller todo, session.callers = kept ++ (name, caller) :: todo := by
  by_cases present : ∃ seat ∈ session.callers, seat.1 = name
  · obtain ⟨⟨_, caller⟩, member, rfl⟩ := present
    obtain ⟨kept, todo, split⟩ := List.append_of_mem member
    exact Or.inr ⟨kept, caller, todo, split⟩
  · have others : ∀ seat ∈ session.callers, seat.1 ≠ name :=
      fun seat member same => present ⟨seat, member, same⟩
    refine Or.inl ⟨?_, others⟩
    rw [Session.caller?, Option.map_eq_none_iff, List.find?_eq_none]
    simpa using others

structure Executes (table : Table String) (desk : Desk) (name key : String) (kept : List Seat)
    (leader : Caller Errand String) (todo : List Seat) (flight : Nat) : Prop where
  before : ∀ seat ∈ kept, Seat.OfKey key seat = false
  mine : leader.key = key
  present : table.flight? key = some flight
  live : table.channels[flight]? = some ⟨none, true⟩
  works : leader.point = .working flight ⟨name, true⟩
  waits : desk.value? name = none
  follow : ∀ seat ∈ todo, Seat.OfKey key seat = true → seat.2.point = .following flight

namespace Mirrors

open Session

variable {queues : Queues} {calm : String → Prop} {session : Session} {table : Table String} {desk : Desk}
  {kept todo callers : List Seat} {landed : List Landing} {name key : String}
  {caller leader : Caller Errand String} {flight : Nat}

theorem run_first (mirrors : Mirrors queues (fun _ => True) ⟨table, desk, callers, landed⟩)
    (fresh : queues.home name = none) (mine : caller.key = key) (work : caller.work = ⟨name, false⟩)
    (point : caller.point = .joining) (empty : callers.filter (Seat.OfKey key) = []) :
    (settle ⟨table, desk, callers ++ [(name, caller)], landed⟩).Shows
      ({ queues with home := Function.update queues.home name (some key) }.serve key [name]) := by
  have absent : Standing table desk key (callers.filter (Seat.OfKey key)) := mirrors.stands key trivial
  rw [empty] at absent
  have astray : ∀ seat ∈ callers ++ [(name, caller)], Seat.OfKey key seat = true → seat.2.IsAstray table := by
    intro seat member own
    rcases List.mem_append.1 member with old | new
    · have among := List.mem_filter.2 ⟨old, own⟩
      rw [empty] at among
      cases among
    · obtain rfl := List.mem_singleton.1 new
      exact Or.inl point
  have served := (mirrors.join fresh mine work).serves absent astray
  have own : Seat.OfKey key (name, caller) = true := decide_eq_true mine
  simpa only [List.filter_append, empty, List.nil_append, List.filter_cons_of_pos own, List.filter_nil,
    List.map_cons, List.map_nil] using served

theorem follow_round (mirrors : Mirrors queues (fun _ => True) ⟨table, desk, callers, landed⟩)
    (fresh : queues.home name = none) (point : caller.point = .joining)
    (work : caller.work = ⟨name, false⟩) (present : table.flight? caller.key = some flight)
    (live : table.channels[flight]? = some ⟨none, true⟩) :
    (Session.cleared ⟨table, desk, callers ++ [(name, caller)], landed⟩).round =
      Session.cleared ⟨table, desk, callers ++ [(name, caller.at (.following flight))], landed⟩ := by
  have rests : ∀ seat ∈ callers, seat.Rests table { desk with started := [] } :=
    fun seat member => mirrors.cleared.rests member trivial
  have polls : caller.poll Desk.advance table { desk with started := [] } = _ :=
    Caller.poll_follows (Or.inl point) present (look_pending live)
  have distinct : Distinct ([] ++ (callers ++ [(name, caller)])) := (mirrors.join fresh rfl work).distinct
  rw [Session.cleared, round_eq_sweep, sweep_append distinct rests, List.nil_append, sweep_stays distinct polls rfl]
  simp [sweep, Rounds.each, Session.cleared]

theorem run_behind (mirrors : Mirrors queues (fun _ => True) ⟨table, desk, callers, landed⟩)
    (fresh : queues.home name = none) (mine : caller.key = key) (work : caller.work = ⟨name, false⟩)
    (point : caller.point = .joining) {leader : Seat} {followers : List Seat}
    (those : callers.filter (Seat.OfKey key) = leader :: followers) :
    (settle ⟨table, desk, callers ++ [(name, caller)], landed⟩).Shows
      ({ queues with home := Function.update queues.home name (some key) }.withQueue key
        (queues.queue key ++ [name]), [], []) := by
  have stands : Standing table desk key (callers.filter (Seat.OfKey key)) := mirrors.stands key trivial
  have queue : (callers.filter (Seat.OfKey key)).map (·.1) = queues.queue key := mirrors.queue key trivial
  rw [those] at stands
  obtain ⟨flight, present, live, works, waits, follow⟩ := stands
  have own : Seat.OfKey key (name, caller.at (.following flight)) = true := decide_eq_true mine
  have behind : (callers ++ [(name, caller.at (.following flight))]).filter (Seat.OfKey key) =
      leader :: (followers ++ [(name, caller.at (.following flight))]) := by
    rw [List.filter_append, those, List.filter_cons_of_pos own]
    rfl
  have joined : Mirrors _ _ ⟨table, desk, callers ++ [(name, caller.at (.following flight))], landed⟩ :=
    mirrors.join fresh mine work
  refine .of_round (mirrors.follow_round fresh point work (mine ▸ present) live)
    ⟨joined.cleared.calmed ?_ ?_, rfl, rfl⟩
  · simp only [Session.cleared, behind]
    refine ⟨flight, present, live, works, waits, ?_⟩
    intro seat member
    rcases List.mem_append.1 member with old | new
    · exact follow seat old
    · obtain rfl := List.mem_singleton.1 new
      rfl
  · simp only [Session.cleared, behind, ← queue, those]
    simp

theorem home_of (mirrors : Mirrors queues calm ⟨table, desk, kept ++ (name, leader) :: todo, landed⟩)
    (mine : leader.key = key) : queues.home name = some key :=
  mine ▸ mirrors.homes (name, leader) (List.mem_append_right _ List.mem_cons_self)

theorem executing (mirrors : Mirrors queues (fun _ => True) ⟨table, desk, callers, landed⟩) {others : List String}
    (executes : queues.executing? name = some (key, others)) :
    ∃ kept leader todo flight, callers = kept ++ (name, leader) :: todo ∧
      Executes table desk name key kept leader todo flight ∧ (todo.filter (Seat.OfKey key)).map (·.1) = others := by
  have first : queues.queue key = name :: others := by
    rw [Queues.executing?] at executes
    grind
  have stands : Standing table desk key (callers.filter (Seat.OfKey key)) := mirrors.stands key trivial
  have queue : (callers.filter (Seat.OfKey key)).map (·.1) = queues.queue key := mirrors.queue key trivial
  rw [first, List.map_eq_cons_iff] at queue
  obtain ⟨⟨_, leader⟩, followers, those, rfl, names⟩ := queue
  rw [those] at stands
  obtain ⟨flight, present, live, works, waits, follow⟩ := stands
  obtain ⟨kept, todo, rfl, before, own, rest⟩ := List.filter_eq_cons_iff.1 those
  refine ⟨kept, leader, todo, flight, rfl, ⟨?_, of_decide_eq_true own, present, live, works, waits, ?_⟩, ?_⟩
  · simpa using before
  · intro seat member mine
    exact follow seat (rest ▸ List.mem_filter.2 ⟨member, mine⟩)
  · rw [rest, names]

theorem delivered (mirrors : Mirrors queues (fun _ => True) ⟨table, desk, callers, landed⟩)
    (home : queues.home name = some key) (value : String) :
    Mirrors { queues with stored := (desk.deliver name value).value? } (· ≠ key)
      ⟨table, desk.deliver name value, callers, landed⟩ := by
  refine (mirrors.but key).remail rfl ?_ landed
  intro other different first rest those waits
  simp [waits, mirrors.ne_of_home home different those]

theorem completed (mirrors : Mirrors queues (fun _ => True) ⟨table, desk, callers, landed⟩)
    (present : table.flight? key = some flight) (waits : desk.value? name = none) (value : String) :
    Mirrors queues (· ≠ key)
      ⟨table.complete key flight value, (desk.deliver name value).without name, callers, landed⟩ := by
  have departed : Mirrors queues (· ≠ key) ⟨table.complete key flight value, desk, callers, landed⟩ :=
    mirrors.depart present (table.complete_channels_length key flight value) fun other different =>
      Table.complete_channels_ne different
  have same : ((desk.deliver name value).without name).value? = desk.value? := by
    funext other
    by_cases own : other = name
    · simp [own, waits]
    · simp [own]
  refine departed.remail (same.trans mirrors.stored) ?_ landed
  intro other different first rest those waits
  rw [same, waits]

theorem finish_round (mirrors : Mirrors queues (fun _ => True) ⟨table, desk, kept ++ (name, leader) :: todo, landed⟩)
    (executes : Executes table desk name key kept leader todo flight)
    (value : String) :
    (Session.cleared ⟨table, desk.deliver name value, kept ++ (name, leader) :: todo, landed⟩).round =
      ⟨table.complete key flight value, { (desk.deliver name value).without name with started := [] },
        kept ++ todo.filter (!Seat.OfKey key ·),
        ⟨name, value, false⟩ :: (todo.filter (Seat.OfKey key)).map fun seat => ⟨seat.1, value, true⟩⟩ := by
  have polls := @Caller.poll_delivered leader table { desk.deliver name value with started := [] } flight
    ⟨name, true⟩ value executes.works rfl (by simp [Desk.value?, Desk.deliver])
  have distinct : Distinct ([] ++ (kept ++ (name, leader) :: todo)) := mirrors.distinct
  -- Callers before the leader are polled while its value is on the desk, and callers behind it after it is done.
  have rests : ∀ seat ∈ kept, seat.Rests table { desk.deliver name value with started := [] } := by
    intro seat member
    exact (mirrors.delivered (mirrors.home_of executes.mine) value).cleared.rests
      (List.mem_append_left _ member) (of_decide_eq_false (executes.before seat member))
  have rests' : ∀ seat ∈ todo, Seat.OfKey key seat = false → seat.Rests (table.complete key flight value)
      { (desk.deliver name value).without name with started := [] } := by
    intro seat member foreign
    exact (mirrors.completed executes.present executes.waits value).cleared.rests
      (List.mem_append_right _ (List.mem_cons_of_mem _ member)) (of_decide_eq_false foreign)
  have sight : (table.complete key flight value).look flight = .value value := by
    simp only [Table.look, Table.complete_channels_self executes.live]
  rw [Session.cleared, round_eq_sweep, sweep_append distinct rests, List.nil_append,
    sweep_returns distinct polls rfl, executes.mine]
  exact sweep_lands (distinct_middle.1 mirrors.distinct).2 sight rests' executes.follow

theorem filter_unseat (mine : leader.key = key) {other : String} (different : other ≠ key) :
    (kept ++ todo).filter (Seat.OfKey other) = (kept ++ (name, leader) :: todo).filter (Seat.OfKey other) := by
  have foreign := Seat.ofKey_ne (decide_eq_true mine : Seat.OfKey key (name, leader) = true) different
  rw [List.filter_append, List.filter_append, List.filter_cons_of_neg (by simp [foreign])]

theorem finish_first (mirrors : Mirrors queues (fun _ => True) ⟨table, desk, callers, landed⟩)
    {others : List String} (first : queues.executing? name = some (key, others)) (value : String) :
    (settle ⟨table, desk.deliver name value, callers, landed⟩).Shows
      (queues.withQueue key [], [], ⟨name, value, false⟩ :: others.map fun other => ⟨other, value, true⟩) := by
  obtain ⟨kept, leader, todo, flight, rfl, executes, rfl⟩ := mirrors.executing first
  have nobody : (kept ++ todo.filter (!Seat.OfKey key ·)).filter (Seat.OfKey key) = [] := by
    rw [List.filter_eq_nil_iff]
    intro seat member
    rcases List.mem_append.1 member with before | after
    · simp [executes.before seat before]
    · simpa using (List.mem_filter.1 after).2
  have rest : ∀ other ≠ key, (kept ++ todo.filter (!Seat.OfKey key ·)).filter (Seat.OfKey other) =
      (kept ++ (name, leader) :: todo).filter (Seat.OfKey other) := by
    intro other different
    rw [← filter_unseat executes.mine different, List.filter_append, List.filter_append, List.filter_filter]
    congr 1
    refine List.filter_congr ?_
    intro seat member
    cases own : Seat.OfKey other seat with
    | false => rfl
    | true => simp [Seat.ofKey_ne own different.symm]
  have fewer : kept ++ todo.filter (!Seat.OfKey key ·) <+ kept ++ (name, leader) :: todo :=
    (List.filter_sublist.trans (List.sublist_cons_self _ _)).append_left kept
  have left := (mirrors.completed executes.present executes.waits value).cleared.unseat fewer rest
    (⟨name, value, false⟩ :: (todo.filter (Seat.OfKey key)).map fun seat => ⟨seat.1, value, true⟩)
  refine .of_round (mirrors.finish_round executes value) ⟨left.calmed ?_ (by rw [nobody]; rfl), rfl, ?_⟩
  · rw [nobody]
    exact table.flight?_departed key _
  · rw [List.map_map]
    rfl

theorem apply_drop (mirrors : Mirrors queues calm ⟨table, desk, kept ++ (name, caller) :: todo, landed⟩) :
    apply ⟨table, desk, kept ++ (name, caller) :: todo, landed⟩ (.drop name) =
      ⟨caller.drop table, desk, kept ++ todo, landed⟩ := by
  have others := (distinct_middle.1 mirrors.distinct).1
  simp only [apply, caller?_middle others, without_middle others]

theorem drop_first (mirrors : Mirrors queues (fun _ => True) session) {others : List String}
    (first : queues.executing? name = some (key, others)) :
    (session.run (.drop name)).Shows (queues.serve key others) := by
  obtain ⟨table, desk, callers, landed⟩ := session
  obtain ⟨kept, leader, todo, flight, rfl, executes, rfl⟩ := mirrors.executing first
  have drops : leader.drop table = ⟨table.entries.filter (·.1 ≠ key),
      table.channels.modify flight fun channel => { channel with live := false }⟩ := by
    simp [Caller.drop, Caller.abandon, Caller.act, executes.works, executes.mine, Table.leave, Table.close,
      Table.update]
  have nobody : kept.filter (Seat.OfKey key) = [] := List.filter_eq_nil_iff.2 fun seat member => by
    simp [executes.before seat member]
  have departed : Mirrors queues (· ≠ key) ⟨leader.drop table, desk, kept ++ todo, landed⟩ := by
    rw [drops]
    refine (mirrors.depart executes.present (by simp) ?_).unseat
      ((List.sublist_cons_self _ _).append_left kept)
      (fun other different => filter_unseat executes.mine different) landed
    intro other different
    simp [Ne.symm different]
  have served := departed.serves ?_ ?_
  · rw [run, mirrors.apply_drop]
    simpa only [List.filter_append, nobody, List.nil_append] using served
  · rw [drops]
    exact table.flight?_departed key _
  · intro seat member own
    refine Or.inr ⟨flight, ?_, ?_⟩
    · rcases List.mem_append.1 member with before | after
      · rw [executes.before seat before] at own
        cases own
      · exact executes.follow seat after own
    · rw [drops]
      simp [executes.live]

theorem drop_absent (mirrors : Mirrors queues (fun _ => True) session) (absent : session.caller? name = none)
    (others : ∀ seat ∈ session.callers, seat.1 ≠ name) (key : String) :
    (session.run (.drop name)).Shows (queues.withQueue key ((queues.queue key).erase name), [], []) := by
  have same : (queues.queue key).erase name = queues.queue key := by
    refine List.erase_of_not_mem ?_
    rw [← mirrors.queue key trivial]
    intro member
    obtain ⟨seat, there, own⟩ := List.mem_map.1 member
    exact others seat (List.mem_filter.1 there).1 own
  have stays : session.apply (.drop name) = session := by simp only [apply, absent]
  rw [run, stays, same, Queues.withQueue, Function.update_eq_self]
  exact mirrors.quiet

theorem drop_follower (mirrors : Mirrors queues (fun _ => True) ⟨table, desk, kept ++ (name, caller) :: todo, landed⟩)
    (idle : queues.executing? name = none) (mine : caller.key = key) :
    (run ⟨table, desk, kept ++ (name, caller) :: todo, landed⟩ (.drop name)).Shows
      (queues.withQueue key ((queues.queue key).erase name), [], []) := by
  have those : (kept ++ (name, caller) :: todo).filter (Seat.OfKey key) =
      kept.filter (Seat.OfKey key) ++ (name, caller) :: todo.filter (Seat.OfKey key) := by
    have own : Seat.OfKey key (name, caller) = true := decide_eq_true mine
    rw [List.filter_append, List.filter_cons_of_pos own]
  have queue := mirrors.queue key trivial
  have stands : Standing table desk key ((kept ++ (name, caller) :: todo).filter (Seat.OfKey key)) :=
    mirrors.stands key trivial
  have left := (mirrors.but key).unseat ((List.sublist_cons_self _ _).append_left kept)
    (fun other different => filter_unseat mine different) landed
  cases ahead : kept.filter (Seat.OfKey key) with
  | nil =>
      -- Without a caller of its key ahead, it would execute itself.
      rw [ahead, List.nil_append] at those
      exact absurd rfl (mirrors.ne_of_idle idle trivial those)
  | cons leader followers =>
      rw [those, ahead] at stands
      obtain ⟨flight, present, live, works, waits, follow⟩ := stands
      have point : caller.point = .following flight := follow (name, caller) (by simp)
      have drops : caller.drop table = table := by simp [Caller.drop, Caller.abandon, Caller.act, point]
      rw [run, mirrors.apply_drop, drops]
      refine (left.calmed ?_ ?_).quiet
      · simp only [List.filter_append, ahead, List.cons_append]
        refine ⟨flight, present, live, works, waits, ?_⟩
        intro seat member
        rcases List.mem_append.1 member with before | after
        · exact follow seat (List.mem_append_left _ before)
        · exact follow seat (List.mem_append_right _ (List.mem_cons_of_mem _ after))
      · have before : name ∉ (kept.filter (Seat.OfKey key)).map (·.1) := by
          intro member
          obtain ⟨seat, there, own⟩ := List.mem_map.1 member
          exact (distinct_middle.1 mirrors.distinct).1 seat
            (List.mem_append_left _ (List.mem_filter.1 there).1) own
        simp only [those, List.map_append, List.map_cons] at queue
        rw [List.filter_append, List.map_append, ← queue, List.erase_append_right _ before, List.erase_cons_head]

theorem drop_behind (mirrors : Mirrors queues (fun _ => True) session) (idle : queues.executing? name = none)
    (home : queues.home name = some key) :
    (session.run (.drop name)).Shows (queues.withQueue key ((queues.queue key).erase name), [], []) := by
  rcases session.caller?_split name with ⟨absent, others⟩ | ⟨kept, caller, todo, split⟩
  · exact mirrors.drop_absent absent others key
  · obtain ⟨table, desk, callers, landed⟩ := session
    obtain rfl : callers = _ := split
    exact mirrors.drop_follower idle (Option.some.inj ((mirrors.home_of rfl).symm.trans home))

theorem arrive (mirrors : Mirrors queues (fun _ => True) session) (fresh : queues.home name = none)
    (key : String) :
    (settle { session with callers := session.callers ++ [(name, Caller.arrive key ⟨name, false⟩)] }).Shows
      (queues.arrive name key) := by
  have mine : (Caller.arrive (V := String) key (⟨name, false⟩ : Errand)).key = key := rfl
  have queue := mirrors.queue key trivial
  cases those : session.callers.filter (Seat.OfKey key) with
  | nil =>
      have served := mirrors.run_first fresh mine rfl rfl those
      rw [those] at queue
      simpa only [Queues.arrive, ← queue, List.map_nil] using served
  | cons leader followers =>
      have behind := mirrors.run_behind fresh mine rfl rfl those
      rw [those] at queue
      simpa only [Queues.arrive, ← queue, List.map_cons] using behind

theorem run (mirrors : Mirrors queues (fun _ => True) session) (command : Command)
    (fresh : ∀ name, command.newcomer? = some name → queues.home name = none) :
    (session.run command).Shows (queues.command command) := by
  cases command with
  | run name key value =>
      have unknown : queues.home name = none := fresh name rfl
      cases value with
      | none => exact mirrors.arrive unknown key
      | some value =>
          have idle : queues.executing? name = none := by simp only [Queues.executing?, unknown]
          exact (mirrors.store idle value).arrive unknown key
  | finish name value =>
      cases executes : queues.executing? name with
      | none =>
          simpa only [Queues.command, executes, Session.run, apply] using (mirrors.store executes value).quiet
      | some first =>
          simpa only [Queues.command, executes, Session.run, apply] using mirrors.finish_first executes value
  | drop name =>
      cases executes : queues.executing? name with
      | some first => simpa only [Queues.command, executes] using mirrors.drop_first executes
      | none =>
          cases home : queues.home name with
          | some key => simpa only [Queues.command, executes, home] using mirrors.drop_behind executes home
          | none =>
              have stays : session.apply (.drop name) = session := by
                rcases session.caller?_split name with ⟨absent, -⟩ | ⟨kept, caller, todo, split⟩
                · simp only [apply, absent]
                · exact absurd rfl (mirrors.fresh_ne home (name, caller) (by simp [split]))
              rw [Session.run, stays]
              simpa only [Queues.command, executes, home] using mirrors.quiet
  | look => exact mirrors.quiet

end Mirrors

namespace Queues

variable {queues : Queues}

theorem arrive_home {name other : String} (different : other ≠ name) (key : String) :
    (queues.arrive name key).1.home other = queues.home other := by
  rw [arrive]
  split
  · exact Function.update_of_ne different ..
  · exact Function.update_of_ne different ..

theorem command_home (command : Command) {other : String} (different : command.newcomer? ≠ some other) :
    (queues.command command).1.home other = queues.home other := by
  cases command with
  | run name key value =>
      have others : other ≠ name := fun same => different (congrArg some same.symm)
      cases value with
      | none => exact arrive_home others key
      | some value => exact arrive_home others key
  | finish name value =>
      simp only [command]
      split <;> rfl
  | drop name =>
      simp only [command]
      split
      · rfl
      · split <;> rfl
  | look => rfl

end Queues

theorem Mirrors.reports {queues : Queues} {session : Session} (mirrors : Mirrors queues (fun _ => True) session)
    (commands : List Command) (fresh : ∀ name ∈ commands.filterMap Command.newcomer?, queues.home name = none)
    (unique : (commands.filterMap Command.newcomer?).Nodup) :
    session.reports commands = queues.reports commands ∧
      (commands.foldl Session.run session).round = commands.foldl Session.run session := by
  induction commands generalizing queues session with
  | nil => exact ⟨rfl, mirrors.round_eq⟩
  | cons command commands ih =>
      have shows := mirrors.run command fun name comes => fresh name (by simp [comes])
      have others : ∀ name ∈ commands.filterMap Command.newcomer?, command.newcomer? ≠ some name := by
        intro name member comes
        rw [List.filterMap_cons_some comes, List.nodup_cons] at unique
        exact unique.1 member
      have fewer : commands.filterMap Command.newcomer? <+ (command :: commands).filterMap Command.newcomer? :=
        (List.sublist_cons_self _ _).filterMap _
      obtain ⟨reports, rests⟩ := ih shows.mirrors
        (fun name member => (Queues.command_home command (others name member)).trans
          (fresh name (fewer.subset member))) (unique.sublist fewer)
      refine ⟨?_, rests⟩
      rw [Session.reports, Queues.reports, reports, shows.started, shows.landed, shows.mirrors.inFlight]

/-- After every command a session shows what the queues show, and further polls change nothing. -/
theorem refines_queues (commands : List Command) (unique : (commands.filterMap Command.newcomer?).Nodup) :
    Session.initial.reports commands = Queues.empty.reports commands ∧
      (commands.foldl Session.run Session.initial).round = commands.foldl Session.run Session.initial :=
  Mirrors.initial.reports commands (fun _ _ => rfl) unique

theorem refines_queues_handed_over :
    Queues.empty.reports [.run "first" "key" none, .run "second" "key" (some "early"), .run "third" "key" none,
        .run "other" "another key" none, .drop "first", .finish "third" "late"] =
      [⟨["first"], [], 1⟩, ⟨[], [], 1⟩, ⟨[], [], 1⟩, ⟨["other"], [], 2⟩,
        ⟨["second", "third"], [⟨"second", "early", false⟩], 2⟩, ⟨[], [⟨"third", "late", false⟩], 1⟩] :=
  (refines_queues _ (by decide)).1.symm.trans rfl

end SecretStore.Flight
