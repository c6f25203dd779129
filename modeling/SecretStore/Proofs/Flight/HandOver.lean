import SecretStore.Proofs.Flight.Joining

namespace SecretStore.Flight.Crowd

variable {ι W V : Type} [DecidableEq ι] {moves : List (Move ι W V)}

/-! ## What is assumed -/

/-- A leader is abandoned while the heirs follow it. None of them is abandoned later, and no later leader of the key
is. -/
structure Abandonment (moves : List (Move ι W V)) (start : Nat) (key : String) (leader : ι) (flight : Nat)
    (heirs : List ι) : Prop where
  keyed : HasKey moves start leader key
  works : ∃ work, pointAt moves start leader = some (.working flight work)
  dropped : Dropped moves start leader
  heirs_follow : ∀ heir ∈ heirs, (crowdAt moves start).Follows heir key flight
  heirs_stay : ∀ heir ∈ heirs, ∀ time ≥ start, ¬ Dropped moves time heir
  leaders_stay : ∀ time > start, ∀ id, (crowdAt moves time).Works id key → ¬ Dropped moves time id

/-- The first execution of the key that is completed after `start`. -/
structure FirstDone (moves : List (Move ι W V)) (start : Nat) (key : String) (time : Nat) (id : ι) (flight : Nat)
    (value : V) : Prop where
  later : start < time
  keyed : HasKey moves time id key
  completed : Completed moves time id flight value
  first : ∀ earlier > start, earlier < time → ∀ other flight value,
    Completed moves earlier other flight value → ¬ HasKey moves earlier other key

/-! ## Taking part -/

def TakesPart (moves : List (Move ι W V)) (id : ι) (flight : Nat) : Prop :=
  ∃ time, pointAt moves time id = some (.following flight) ∨
    ∃ work, pointAt moves time id = some (.working flight work)

theorem Joins.takesPart {join : Nat} {id : ι} {flight : Nat} (joins : Joins moves join id flight) :
    TakesPart moves id flight := ⟨join + 1, joins.2⟩

/-! ## The leader that is abandoned -/

theorem Flies.leads_or_left {time flight : Nat} {id : ι} {key : String} (flies : Flies moves time id flight)
    (keyed : HasKey moves time id key) : (crowdAt moves time).Leads id key flight ∨ HasLeft moves time id := by
  cases flies with
  | working work here => exact .inl (leads_of_guards keyed here rfl)
  | publishing value here => exact .inl (leads_of_guards keyed here rfl)
  | settled value here _ =>
      rcases here with leaving | closing | returned
      · exact .inl (leads_of_guards keyed leaving rfl)
      · exact .inr ⟨value, .inl ⟨flight, closing⟩⟩
      · exact .inr ⟨value, .inr returned⟩

theorem HasLeft.stays {start time : Nat} {id : ι} (left : HasLeft moves start id) (le : start ≤ time) :
    HasLeft moves time id := by
  obtain ⟨value, left⟩ := left
  have kept (caller : Caller W V) (table : Table V) (point : Point W V) (next : Table V)
      (turn : Turn caller table point next)
      (good : (∃ flight, caller.point = .closing flight value) ∨ caller.point = .returned value false) :
      (∃ flight, point = .closing flight value) ∨ point = .returned value false := by
    cases turn <;> simp_all
  obtain ⟨point, here, good⟩ := pointAt_stays
    (fun point => (∃ flight, point = .closing flight value) ∨ point = .returned value false) le kept
    (by rcases left with ⟨flight, here⟩ | here
        · exact ⟨_, here, .inl ⟨flight, rfl⟩⟩
        · exact ⟨_, here, .inr rfl⟩)
  rcases good with ⟨flight, rfl⟩ | rfl
  · exact ⟨value, .inl ⟨flight, here⟩⟩
  · exact ⟨value, .inr here⟩

namespace Abandonment

variable {start flight : Nat} {key : String} {leader : ι} {heirs : List ι}
  (lost : Abandonment moves start key leader flight heirs)

include lost

theorem leads : (crowdAt moves start).Leads leader key flight := by
  obtain ⟨work, working⟩ := lost.works
  exact leads_of_guards lost.keyed working rfl

theorem quits : pointAt moves (start + 1) leader = some (.quitting flight) := by
  obtain ⟨work, working⟩ := lost.works
  rcases lost.dropped with ⟨other, _, before, after⟩ | ⟨joining | ⟨_, following⟩, -⟩
  · rw [working] at before
    cases before
    exact after
  · simp [working] at joining
  · simp [working] at following

theorem leader_after {time : Nat} (later : start < time) :
    pointAt moves time leader = some (.quitting flight) ∨
      pointAt moves time leader = some (.hangingUp flight) ∨ pointAt moves time leader = some .gone := by
  have kept (caller : Caller W V) (table : Table V) (point : Point W V) (next : Table V)
      (turn : Turn caller table point next)
      (good : caller.point ∈ [.quitting flight, .hangingUp flight, .gone]) :
      point ∈ [Point.quitting flight, .hangingUp flight, .gone] := by
    cases turn <;> simp_all
  obtain ⟨point, here, good⟩ := pointAt_stays (· ∈ [Point.quitting flight, .hangingUp flight, .gone]) later kept
    ⟨_, lost.quits, by simp⟩
  simpa [here] using good

theorem not_completed {time : Nat} {id : ι} {value : V} : ¬ Completed moves time id flight value := by
  intro completed
  obtain rfl := holder_unique_ever lost.leads.holds completed.holds
  obtain ⟨work, working⟩ := lost.works
  rcases Nat.lt_or_ge time start with before | le
  · obtain ⟨point, here, ending⟩ := completed.ending before
    rw [working, Option.some.injEq] at here
    subst here
    simp [Ending] at ending
  · have after := lost.leader_after (Nat.lt_succ_of_le le)
    simp [completed.2] at after

theorem leader_gone {early time : Nat} (le : start ≤ early) (lt : early < time)
    (look : (crowdAt moves early).table.look flight = .gone) : pointAt moves time leader = some .gone := by
  have unheld {point : Point W V} (here : pointAt moves early leader = some point) :
      point.sends ≠ some flight := by
    intro sends
    obtain ⟨caller, present, rfl⟩ := Option.map_eq_some_iff.1 here
    exact (((sound_crowdAt moves early).open_iff flight).2 ⟨leader, caller, present, sends⟩).look_ne_gone look
  have already : pointAt moves early leader = some .gone := by
    rcases Nat.eq_or_lt_of_le le with rfl | later
    · obtain ⟨work, working⟩ := lost.works
      exact absurd rfl (unheld working)
    · rcases lost.leader_after later with quits | hangs | gone
      · exact absurd rfl (unheld quits)
      · exact absurd rfl (unheld hangs)
      · exact gone
  obtain ⟨point, here, rfl⟩ := pointAt_stays (· = .gone) (Nat.le_of_lt lt)
    (fun caller table point next turn good => by cases turn <;> simp_all) ⟨_, already, rfl⟩
  exact here

/-! ## The leaders after it -/

theorem leads_since {time mine : Nat} {id : ι} (later : start < time) (leads : (crowdAt moves time).Leads id key mine)
    (other : id ≠ leader) :
    ∃ began > start, began < time ∧ Began moves began id ∧
      ∃ work, pointAt moves (began + 1) id = some (.working mine work) := by
  obtain ⟨began, lt, begins, work, working⟩ := began_of_leads leads
  have keyed := (guards_of_leads leads).1
  refine ⟨began, ?_, lt, begins, work, working⟩
  by_contra early
  rcases Nat.eq_or_lt_of_le (Nat.le_of_not_lt early) with rfl | before
  · have mine := leads_of_guards (keyed.earlier lt working) working rfl
    have old := leads_of_guards (lost.keyed.stays (Nat.le_succ _)) lost.quits rfl
    exact other ((sound_crowdAt moves _).leader_unique mine old)
  · obtain ⟨point, here, begun⟩ := begins.begun before
    cases guards : point.guards with
    | none => exact not_leads_of_begun (Nat.le_of_lt later) here begun guards leads
    | some held =>
        exact other ((sound_crowdAt moves start).leader_unique
          (leads_of_guards (keyed.earlier (Nat.le_of_lt later) here) here guards) lost.leads)

theorem flies {began time mine : Nat} {id : ι} {work : W} (later : start < began) (keyed : HasKey moves began id key)
    (begins : Began moves began id) (working : pointAt moves (began + 1) id = some (.working mine work))
    (lt : began < time) : Flies moves time id mine := by
  refine (Flies.working work working).stays lt ?_
  intro meanwhile le dropped
  have begun := begins.begun le
  rcases dropped with ⟨held, left, works, quits⟩ | ⟨joining | ⟨other, following⟩, -⟩
  · obtain ⟨caller, present, same⟩ := keyed.stays (Nat.le_of_lt le)
    have point := pointAt_of_callers present
    rw [works, Option.some.injEq] at point
    exact lost.leaders_stay meanwhile (by omega) id ⟨caller, held, left, present, same, point.symm⟩
      (.inl ⟨held, left, works, quits⟩)
  · simp [joining, Begun] at begun
  · simp [following, Begun] at begun

/-! ## Its followers -/

variable {heir : ι} (member : heir ∈ heirs)

include member

theorem heir_at : pointAt moves start heir = some (.following flight) := by
  obtain ⟨caller, here, -, following⟩ := lost.heirs_follow heir member
  rw [pointAt_of_callers here, following]

theorem heir_key {time : Nat} (le : start ≤ time) : HasKey moves time heir key := by
  obtain ⟨caller, here, same, -⟩ := lost.heirs_follow heir member
  exact HasKey.stays ⟨caller, here, same⟩ le

theorem began_since {began : Nat} (le : start ≤ began) (begins : Began moves began heir) : start < began := by
  refine Nat.lt_of_le_of_ne le ?_
  rintro rfl
  have waits := lost.heir_at member
  simp [begins.1] at waits

theorem heir_cases {time : Nat} (le : start ≤ time) :
    pointAt moves time heir = some (.following flight) ∨
      (∃ early ≥ start, early < time ∧ (crowdAt moves early).table.look flight = .gone) ∧
        (pointAt moves time heir = some .joining ∨
          ∃ join > start, join < time ∧ ∃ mine, Joins moves join heir mine) := by
  induction le with
  | refl => exact .inl (lost.heir_at member)
  | @step time le ih =>
      have kept : ¬ Dropped moves time heir := lost.heirs_stay heir member time le
      rcases ih with waits | ⟨⟨early, since, lt, gone⟩, joining | ⟨join, later, before, mine, joins⟩⟩
      · rcases pointAt_cases moves time heir with same | ⟨absent, -⟩ | ⟨caller, point, table, old, -, turn, after⟩
        · exact .inl (same ▸ waits)
        · simp [waits] at absent
        · rw [waits, Option.some.injEq] at old
          cases turn with
          | land following sight =>
              rw [following] at old
              cases old
              obtain ⟨_, _, _, completed⟩ := completed_of_look sight
              exact absurd completed lost.not_completed
          | rejoin following sight =>
              rw [following] at old
              cases old
              exact .inr ⟨⟨time, le, by omega, sight⟩, .inl after⟩
          | resign following => exact absurd (.inr ⟨.inr ⟨_, waits⟩, after⟩) kept
          | _ => simp_all
      · have seen : ∃ early ≥ start, early < time + 1 ∧ (crowdAt moves early).table.look flight = .gone :=
          ⟨early, since, by omega, gone⟩
        refine .inr ⟨seen, ?_⟩
        rcases pointAt_cases moves time heir with same | ⟨absent, -⟩ | ⟨caller, point, table, old, -, turn, after⟩
        · exact .inl (same ▸ joining)
        · simp [joining] at absent
        · rw [joining, Option.some.injEq] at old
          cases turn with
          | lead _ absent => exact .inr ⟨time, by omega, by omega, _, joining, .inr ⟨_, after⟩⟩
          | follow _ found => exact .inr ⟨time, by omega, by omega, _, joining, .inl after⟩
          | withdraw _ => exact absurd (.inr ⟨.inl joining, after⟩) kept
          | _ => simp_all
      · exact .inr ⟨⟨early, since, by omega, gone⟩, .inr ⟨join, later, by omega, mine, joins⟩⟩

theorem leader_gone_of_joins {join mine : Nat} (later : start < join) (joins : Joins moves join heir mine) :
    pointAt moves join leader = some .gone := by
  rcases lost.heir_cases member (Nat.le_of_lt later) with waits | ⟨⟨early, since, lt, gone⟩, -⟩
  · simp [joins.1] at waits
  · exact lost.leader_gone since lt gone

theorem joined {join mine : Nat} (later : start < join) (joins : Joins moves join heir mine) :
    (Began moves join heir ∧ ∃ work, pointAt moves (join + 1) heir = some (.working mine work)) ∨
      (pointAt moves (join + 1) heir = some (.following mine) ∧
        ∃ other, (crowdAt moves join).Leads other key mine ∧ ∃ began > start, began < join ∧
          Began moves began other ∧ ∃ work, pointAt moves (began + 1) other = some (.working mine work)) := by
  rcases joins.cases (lost.heir_key member (Nat.le_of_lt later)) with ⟨follows, entry⟩ | ⟨begins, -⟩
  · obtain ⟨other, leads⟩ := ((sound_crowdAt moves join).entry_iff key mine).1 entry
    have foreign : other ≠ leader := by
      rintro rfl
      obtain ⟨-, point, here, guards⟩ := guards_of_leads leads
      rw [lost.leader_gone_of_joins member later joins, Option.some.injEq] at here
      subst here
      cases guards
    exact .inr ⟨follows, other, leads, lost.leads_since later leads foreign⟩
  · obtain ⟨-, follows | works⟩ := joins
    · obtain ⟨-, other, work, working⟩ := begins
      simp [follows] at working
    · exact .inl ⟨begins, works⟩

theorem after_joined {join time mine : Nat} (later : start < join) (joins : Joins moves join heir mine)
    (lt : join < time) :
    (Began moves join heir ∧ Flies moves time heir mine) ∨
      (pointAt moves (join + 1) heir = some (.following mine) ∧
        (pointAt moves time heir = some (.following mine) ∨
          ∃ value, pointAt moves time heir = some (.returned value true) ∧
            ∃ earlier < time, ∃ other, Completed moves earlier other mine value)) := by
  rcases lost.joined member later joins with ⟨begins, work, working⟩ | ⟨follows, other, leads, began, since, before,
    begins, work, working⟩
  · exact .inl ⟨begins, lost.flies later (lost.heir_key member (Nat.le_of_lt later)) begins working lt⟩
  · have keyed := (guards_of_leads leads).1.earlier (Nat.le_of_lt before) begins.1
    exact .inr ⟨follows, follows_stays lt follows
      (fun meanwhile le => lost.flies since keyed begins working (by omega))
      fun meanwhile le => lost.heirs_stay heir member meanwhile (by omega)⟩

theorem joins_once {first second mine other : Nat} (one : start < first) (two : start < second)
    (joins : Joins moves first heir mine) (again : Joins moves second heir other) :
    first = second ∧ mine = other := by
  have never {first second mine other : Nat} (one : start < first) (joins : Joins moves first heir mine)
      (again : Joins moves second heir other) : ¬ first < second := by
    intro lt
    have joining := again.1
    rcases lost.after_joined member one joins lt with ⟨begins, -⟩ | ⟨-, follows | ⟨value, returned, -⟩⟩
    · obtain ⟨point, here, begun⟩ := begins.begun lt
      rw [joining, Option.some.injEq] at here
      subst here
      exact begun
    · simp [joining] at follows
    · simp [joining] at returned
  have same : first = second := by
    have := never one joins again
    have := never two again joins
    omega
  subst same
  refine ⟨rfl, ?_⟩
  rcases joins.2 with follows | ⟨work, working⟩ <;> rcases again.2 with follows' | ⟨work', working'⟩ <;> simp_all

theorem rejoins {instant : Nat} {own : V} {shared : Bool} (le : start ≤ instant)
    (returned : pointAt moves instant heir = some (.returned own shared)) :
    ∃ join > start, join < instant ∧ ∃ flight, Joins moves join heir flight := by
  rcases lost.heir_cases member le with waits | ⟨-, joining | joined⟩
  · simp [returned] at waits
  · simp [returned] at joining
  · exact joined

theorem others {mine : Nat} (apart : ¬ TakesPart moves heir mine) {instant : Nat} {own : V} {shared : Bool}
    (le : start ≤ instant) (returned : pointAt moves instant heir = some (.returned own shared)) :
    ∃ done < instant, ∃ other flight, flight ≠ mine ∧ Completed moves done other flight own := by
  obtain ⟨join, later, lt, held, joins⟩ := lost.rejoins member le returned
  have different : held ≠ mine := by
    rintro rfl
    exact apart joins.takesPart
  rcases lost.after_joined member later joins lt with ⟨-, flies⟩ | ⟨-, follows | ⟨made, back, done, early, other,
    completed⟩⟩
  · have unshared := flies.unshared returned
    subst unshared
    obtain ⟨done, early, held', completed⟩ := completed_of_returned returned
    refine ⟨done, early, heir, held', ?_, completed⟩
    rintro rfl
    exact apart ⟨done, .inr completed.1⟩
  · simp [returned] at follows
  · rw [returned, Option.some.injEq, Point.returned.injEq] at back
    obtain ⟨rfl, rfl⟩ := back
    exact ⟨done, early, other, held, different, completed⟩

end Abandonment

/-! ## The first execution after it -/

section first

variable {start flight time mine : Nat} {key : String} {leader lead heir : ι} {heirs : List ι} {value : V}

theorem FirstDone.eq_lead (first : FirstDone moves start key time lead mine value) {other : ι} {instant : Nat}
    (holds : (crowdAt moves instant).Holds other mine) : other = lead :=
  holder_unique_ever holds first.completed.holds

theorem FirstDone.returns (first : FirstDone moves start key time lead mine value) {instant : Nat}
    (follows : pointAt moves instant heir = some (.following mine)) (settled : Settled moves instant mine) :
    (((crowdAt moves instant).move (.act heir)).callers heir).map (·.point) = some (.returned value true) := by
  obtain ⟨caller, here, point⟩ := Option.map_eq_some_iff.1 follows
  obtain ⟨own, look⟩ := settled.look
  obtain ⟨done, -, other, completed⟩ := completed_of_look look
  obtain ⟨-, -, rfl⟩ := completed.unique first.completed
  rw [move_act _ here, place_callers_self]
  simp [Caller.act, point, look]

theorem not_left_of_guards {point : Point W V} {instant held : Nat} {id : ι}
    (here : pointAt moves instant id = some point) (guards : point.guards = some held) :
    ¬ HasLeft moves instant id := by
  rintro ⟨value, ⟨flight, closing⟩ | returned⟩
  · rw [here, Option.some.injEq] at closing
    subst closing
    cases guards
  · rw [here, Option.some.injEq] at returned
    subst returned
    cases guards

theorem holds_of_working {instant held : Nat} {id : ι}
    (works : ∃ work, pointAt moves instant id = some (.working held work)) : (crowdAt moves instant).Holds id held := by
  obtain ⟨work, working⟩ := works
  obtain ⟨caller, present, point⟩ := Option.map_eq_some_iff.1 working
  exact ⟨caller, present, by rw [point]; rfl⟩

section

variable (first : FirstDone moves start key time lead mine value)
  (lost : Abandonment moves start key leader flight heirs)

include first lost

theorem FirstDone.began :
    ∃ began > start, began < time ∧ Began moves began lead ∧
      ∃ work, pointAt moves (began + 1) lead = some (.working mine work) := by
  obtain ⟨work, working⟩ := first.completed.1
  refine lost.leads_since first.later (leads_of_guards first.keyed working rfl) ?_
  rintro rfl
  have after := lost.leader_after first.later
  simp [working] at after

theorem FirstDone.unrivalled {rival : ι} {began : Nat} (later : start < began)
    (begins : Began moves began rival) (keyed : HasKey moves began rival key) (there : ¬ HasLeft moves began lead) :
    rival = lead := by
  obtain ⟨own, later', lt, begins', work', working'⟩ := first.began lost
  have keyed' : HasKey moves own lead key := first.keyed.earlier (Nat.le_of_lt lt) begins'.1
  -- A caller begins only if the table has no entry of the key.
  have alone {id : ι} {instant : Nat} (begins : Began moves instant id) (keyed : HasKey moves instant id key)
      {other : ι} {held : Nat} : ¬ (crowdAt moves instant).Leads other key held := by
    intro leads
    obtain ⟨held', joins⟩ := begins.joins
    rcases joins.cases keyed with ⟨follows, -⟩ | ⟨-, absent⟩
    · obtain ⟨-, held', work, working⟩ := begins
      simp [follows] at working
    · exact absent held (((sound_crowdAt moves instant).entry_iff key held).2 ⟨other, leads⟩)
  rcases Nat.lt_trichotomy began own with before | rfl | after
  · obtain ⟨held, work, working⟩ := begins.2
    have flies := lost.flies later keyed begins working before
    rcases flies.leads_or_left (keyed.stays (Nat.le_of_lt before)) with leads | left
    · exact absurd leads (alone begins' keyed')
    · obtain ⟨done, early, other, result, completed⟩ := left.completed
      have since := begins.lt_completed completed
      exact absurd (keyed.stays (Nat.le_of_lt since)) (first.first done (by omega) (by omega) _ _ _ completed)
  · obtain ⟨-, held, work, working⟩ := begins
    exact (sound_crowdAt moves _).leader_unique (leads_of_guards (keyed.stays (Nat.le_succ _)) working rfl)
      (leads_of_guards (keyed'.stays (Nat.le_succ _)) working' rfl)
  · have flies := lost.flies later' keyed' begins' working' after
    exact absurd ((flies.leads_or_left (keyed'.stays (Nat.le_of_lt after))).resolve_right there)
      (alone begins keyed)

theorem FirstDone.same_flight {other : ι} {began held : Nat} (later : start < began)
    (begins : Began moves began other) (keyed : HasKey moves began other key) (there : ¬ HasLeft moves began lead)
    (works : ∃ work, pointAt moves (began + 1) other = some (.working held work)) : other = lead ∧ held = mine := by
  obtain rfl := first.unrivalled lost later begins keyed there
  obtain ⟨own, -, -, begins', work', working'⟩ := first.began lost
  obtain rfl := begins.once begins'
  obtain ⟨work, working⟩ := works
  simp_all

variable (member : heir ∈ heirs)

include member

theorem FirstDone.joined (takes : TakesPart moves heir mine) : ∃ join > start, Joins moves join heir mine := by
  obtain ⟨instant, here⟩ := takes
  obtain ⟨join, -, joins⟩ := joins_of_point here
  refine ⟨join, ?_, joins⟩
  by_contra early
  have le : join ≤ start := Nat.le_of_not_lt early
  obtain ⟨own, later, -, begins, -⟩ := first.began lost
  rcases joins.cases ((lost.heir_key member (Nat.le_refl _)).earlier le joins.1) with ⟨-, entry⟩ | ⟨begins', -⟩
  · obtain ⟨other, leads⟩ := ((sound_crowdAt moves join).entry_iff key mine).1 entry
    obtain rfl := first.eq_lead leads.holds
    obtain ⟨since, lt, begins', -⟩ := began_of_leads leads
    have same := begins.once begins'
    omega
  · obtain rfl := first.eq_lead (holds_of_working (joins.works begins'))
    have same := begins.once begins'
    omega

theorem FirstDone.takesPart_iff {join held : Nat} (later : start < join) (joins : Joins moves join heir held) :
    TakesPart moves heir mine ↔ ¬ HasLeft moves join lead := by
  constructor
  · intro takes
    obtain ⟨join', later', joins'⟩ := first.joined lost member takes
    obtain ⟨rfl, rfl⟩ := lost.joins_once member later' later joins' joins
    rcases lost.joined member later joins with ⟨begins, works⟩ | ⟨-, other, leads, -⟩
    · obtain rfl := first.eq_lead (holds_of_working works)
      rintro ⟨other, ⟨flight, closing⟩ | returned⟩
      · simp [joins.1] at closing
      · simp [joins.1] at returned
    · obtain rfl := first.eq_lead leads.holds
      obtain ⟨-, point, here, guards⟩ := guards_of_leads leads
      exact not_left_of_guards here guards
  · intro there
    rcases lost.joined member later joins with ⟨begins, works⟩ | ⟨-, other, leads, began, later', before, begins,
      works⟩
    · obtain ⟨-, rfl⟩ := first.same_flight lost later begins (lost.heir_key member (Nat.le_of_lt later)) there works
      exact joins.takesPart
    · have keyed := (guards_of_leads leads).1.earlier (Nat.le_of_lt before) begins.1
      obtain ⟨-, rfl⟩ := first.same_flight lost later' begins keyed
        (fun left => there (left.stays (Nat.le_of_lt before))) works
      exact joins.takesPart

theorem FirstDone.shares (takes : TakesPart moves heir mine) {instant : Nat} {own : V} {shared : Bool}
    (le : start ≤ instant) (returned : pointAt moves instant heir = some (.returned own shared)) :
    own = value ∧ (shared = false ↔ heir = lead) := by
  obtain ⟨join, later, joins⟩ := first.joined lost member takes
  obtain ⟨join', later', lt, flight', joins'⟩ := lost.rejoins member le returned
  obtain ⟨rfl, rfl⟩ := lost.joins_once member later later' joins joins'
  rcases lost.after_joined member later joins lt with ⟨begins, flies⟩ | ⟨-, follows | ⟨made, back, _, _, _, done⟩⟩
  · have unshared := flies.unshared returned
    obtain rfl := first.eq_lead (holds_of_working (joins.works begins))
    subst unshared
    obtain ⟨done, -, held, completed⟩ := completed_of_returned returned
    exact ⟨(completed.once first.completed).2, by simp⟩
  · simp [returned] at follows
  · rw [returned, Option.some.injEq, Point.returned.injEq] at back
    obtain ⟨rfl, rfl⟩ := back
    refine ⟨(done.unique first.completed).2.2, iff_of_false (by simp) ?_⟩
    rintro rfl
    obtain ⟨own', -, -, begins, -⟩ := first.began lost
    exact not_began_of_shared returned begins

theorem FirstDone.one_worker (takes : TakesPart moves heir mine) {began : Nat} (le : start ≤ began)
    (begins : Began moves began heir) : heir = lead := by
  obtain ⟨join, later, joins⟩ := first.joined lost member takes
  have since := lost.began_since member le begins
  obtain ⟨joining, held, work, working⟩ := begins
  obtain ⟨rfl, rfl⟩ := lost.joins_once member later since joins ⟨joining, .inr ⟨work, working⟩⟩
  exact first.eq_lead (holds_of_working ⟨work, working⟩)

end

/-! ## The statement -/

/-- All heirs that return do so with one value, and at most one of them has worked for it. -/
structure OneExecution (moves : List (Move ι W V)) (start : Nat) (heirs : List ι) (value : V) : Prop where
  one_value : ∀ heir ∈ heirs, ∀ time ≥ start, ∀ own shared,
    pointAt moves time heir = some (.returned own shared) → own = value
  one_worker : ∀ first ∈ heirs, ∀ second ∈ heirs, ∀ early ≥ start, ∀ late ≥ start,
    Began moves early first → Began moves late second → first = second

structure HandedOver (moves : List (Move ι W V)) (start : Nat) (heirs : List ι) (lead : ι) (mine : Nat) (value : V) :
    Prop where
  rejoins : ∀ heir ∈ heirs, ∀ time ≥ start, ∀ own shared,
    pointAt moves time heir = some (.returned own shared) →
      ∃ join > start, join < time ∧ ∃ flight, Joins moves join heir flight
  rejoins_once : ∀ heir ∈ heirs, ∀ first > start, ∀ second > start, ∀ flight other,
    Joins moves first heir flight → Joins moves second heir other → first = second ∧ flight = other
  /-- Exactly the heirs that join before the leader has left the table take part. -/
  takes_part_iff : ∀ heir ∈ heirs, ∀ join > start, ∀ flight, Joins moves join heir flight →
    (TakesPart moves heir mine ↔ ¬ HasLeft moves join lead)
  shares : ∀ heir ∈ heirs, TakesPart moves heir mine → ∀ time ≥ start, ∀ own shared,
    pointAt moves time heir = some (.returned own shared) → own = value ∧ (shared = false ↔ heir = lead)
  one_worker : ∀ heir ∈ heirs, TakesPart moves heir mine → ∀ began ≥ start, Began moves began heir → heir = lead
  others : ∀ heir ∈ heirs, ¬ TakesPart moves heir mine → ∀ time ≥ start, ∀ own shared,
    pointAt moves time heir = some (.returned own shared) →
      ∃ done < time, ∃ other flight, flight ≠ mine ∧ Completed moves done other flight own
  returns : ∀ heir ∈ heirs, ∀ time, pointAt moves time heir = some (.following mine) → Settled moves time mine →
    (((crowdAt moves time).move (.act heir)).callers heir).map (·.point) = some (.returned value true)
  one_execution : (∀ heir ∈ heirs, ∀ join > start, ∀ flight, Joins moves join heir flight →
    ¬ HasLeft moves join lead) → OneExecution moves start heirs value

/-- The followers of an abandoned leader share the next execution exactly as far as they join it while it is in the
table. -/
theorem handed_over (lost : Abandonment moves start key leader flight heirs)
    (first : FirstDone moves start key time lead mine value) :
    HandedOver moves start heirs lead mine value where
  rejoins _ member _ le _ _ returned := lost.rejoins member le returned
  rejoins_once _ member _ one _ two _ _ joins again := lost.joins_once member one two joins again
  takes_part_iff _ member _ later _ joins := first.takesPart_iff lost member later joins
  shares _ member takes _ le _ _ returned := first.shares lost member takes le returned
  one_worker _ member takes _ le begins := first.one_worker lost member takes le begins
  others _ member apart _ le _ _ returned := lost.others member apart le returned
  returns _ _ _ follows settled := first.returns follows settled
  one_execution inTime := by
    have working {heir : ι} (member : heir ∈ heirs) {began : Nat} (le : start ≤ began)
        (begins : Began moves began heir) : heir = lead := by
      have since := lost.began_since member le begins
      obtain ⟨held, joins⟩ := begins.joins
      have takes := (first.takesPart_iff lost member since joins).2 (inTime heir member began since held joins)
      exact first.one_worker lost member takes le begins
    constructor
    · intro heir member instant le own shared returned
      obtain ⟨join, later, -, held, joins⟩ := lost.rejoins member le returned
      have takes := (first.takesPart_iff lost member later joins).2 (inTime heir member join later held joins)
      exact (first.shares lost member takes le returned).1
    · intro one member two member' early le late le' begins begins'
      rw [working member le begins, working member' le' begins']

end first

/-! ### A hand-over to quick work -/

theorem crowdAt_of_le {time : Nat} (le : moves.length ≤ time) : crowdAt moves time = crowdAt moves moves.length := by
  rw [crowdAt, crowdAt, List.take_of_length_le le, List.take_length]

theorem Dropped.lt_length {time : Nat} {id : ι} (dropped : Dropped moves time id) : time < moves.length := by
  by_contra late
  have stays : pointAt moves (time + 1) id = pointAt moves time id := by
    rw [pointAt, pointAt, crowdAt_of_le (by omega), crowdAt_of_le (by omega : moves.length ≤ time)]
  rw [Dropped, stays] at dropped
  rcases dropped with ⟨flight, work, before, after⟩ | ⟨before | ⟨flight, before⟩, after⟩ <;>
    simp [before] at after

def stops : Option (Point W V) → Option (Point W V) → Bool
  | some (.working flight _), some (.quitting other) => flight = other
  | some .joining, some .gone | some (.following _), some .gone => true
  | _, _ => false

theorem dropped_iff {time : Nat} {id : ι} :
    Dropped moves time id ↔ stops (pointAt moves time id) (pointAt moves (time + 1) id) = true := by
  rw [Dropped]
  fun_cases stops (pointAt moves time id) (pointAt moves (time + 1) id) with
  | case4 _ _ noWork noJoining noFollowing =>
      simp only [Bool.false_eq_true, iff_false]
      rintro (⟨flight, work, works, quits⟩ | ⟨joining | ⟨flight, follows⟩, gone⟩)
      · exact noWork flight work flight works quits
      · exact noJoining joining gone
      · exact noFollowing flight follows gone
  | _ => simp_all [eq_comm]

instance (moves : List (Move ι W V)) (time : Nat) (id : ι) : Decidable (Dropped moves time id) :=
  decidable_of_iff' _ dropped_iff

/-- The second follower is polled when the first has already worked and returned. -/
def rushed : List (Move (Fin 3) Unit Nat) :=
  [.arrive 0 "k" (), .act 0, .arrive 1 "k" (), .act 1, .arrive 2 "k" (), .act 2,
    .abandon 0, .act 0, .act 0,
    .act 1, .act 1, .advance 1 (.finished 1), .act 1, .act 1, .act 1,
    .act 2, .act 2, .advance 2 (.finished 2), .act 2, .act 2, .act 2]

def isWorking : Point W V → Bool
  | .working .. => true
  | _ => false

theorem rushed_dropped : ∀ time < rushed.length, ∀ id : Fin 3, Dropped rushed time id → time = 6 ∧ id = 0 := by
  decide +kernel

theorem rushed_kept {time : Nat} {id : Fin 3} (apart : ¬ (time = 6 ∧ id = 0)) : ¬ Dropped rushed time id :=
  fun dropped => apart (rushed_dropped time dropped.lt_length id dropped)

theorem abandonment_rushed : Abandonment rushed 6 "k" 0 0 [1, 2] where
  keyed := ⟨_, rfl, rfl⟩
  works := ⟨(), by decide +kernel⟩
  dropped := .inl ⟨0, (), by decide +kernel, by decide +kernel⟩
  heirs_follow heir member := by
    simp only [List.mem_cons, List.not_mem_nil, or_false] at member
    rcases member with rfl | rfl <;> exact ⟨_, rfl, rfl, rfl⟩
  heirs_stay heir member time _ := by
    refine rushed_kept ?_
    rintro ⟨-, rfl⟩
    simp at member
  leaders_stay time later id _ := rushed_kept fun same => by omega

theorem firstDone_rushed : FirstDone rushed 6 "k" 11 1 1 1 where
  later := by decide
  keyed := ⟨_, rfl, rfl⟩
  completed := ⟨⟨(), by decide +kernel⟩, by decide +kernel⟩
  first earlier later lt other flight value completed := by
    have idle : ∀ earlier < 11, 6 < earlier → ∀ other : Fin 3,
        (pointAt rushed earlier other).any isWorking = false := by
      decide +kernel
    obtain ⟨⟨work, working⟩, -⟩ := completed
    have never := idle earlier lt later other
    rw [working] at never
    cases never

theorem handed_over_rushed :
    HandedOver rushed 6 [1, 2] 1 1 1 ∧ TakesPart rushed 1 1 ∧ ¬ TakesPart rushed 2 1 := by
  have lost := handed_over abandonment_rushed firstDone_rushed
  have joins : Joins rushed 10 1 1 := ⟨by decide +kernel, .inr ⟨(), by decide +kernel⟩⟩
  have late : Joins rushed 16 2 2 := ⟨by decide +kernel, .inr ⟨(), by decide +kernel⟩⟩
  refine ⟨lost, joins.takesPart, ?_⟩
  rw [lost.takes_part_iff 2 (by simp) 16 (by decide) 2 late, not_not]
  exact ⟨1, .inr (by decide +kernel)⟩

theorem not_oneExecution_rushed :
    Abandonment rushed 6 "k" 0 0 [1, 2] ∧ FirstDone rushed 6 "k" 11 1 1 1 ∧
      Began rushed 10 1 ∧ Began rushed 16 2 ∧ ¬ OneExecution rushed 6 [1, 2] 1 := by
  refine ⟨abandonment_rushed, firstDone_rushed, ⟨by decide +kernel, 1, (), by decide +kernel⟩,
    ⟨by decide +kernel, 2, (), by decide +kernel⟩, fun one => ?_⟩
  have value := one.one_value 2 (by simp) 21 (by decide) 2 false (by decide +kernel)
  cases value

end SecretStore.Flight.Crowd
