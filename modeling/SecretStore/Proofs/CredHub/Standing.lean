import SecretStore.Proofs.CredHub.Insight

namespace SecretStore.CredHub

open Http

/-! ## What the server has -/

namespace Vault

def Has (vault : Vault) (name : String) : Prop := vault.text? name ≠ none

def Grows (before after : Vault) : Prop := ∀ name, before.Has name → after.Has name

theorem has_write (vault : Vault) (name text : String) : (vault.write name text).Has name := by
  simp [Has]

theorem Grants.grows {vault after : Vault} {request : Request} {response : Response}
    (grants : vault.Grants request response after) (harmless : Harmless request) : vault.Grows after := by
  intro other has
  cases grants with
  | written asks =>
      rw [Has, text?_write]
      split
      · exact Option.some_ne_none _
      · exact has
  | removed asks => exact absurd asks (harmless _)
  | _ => exact has

end Vault

def Told (settings : Settings) (vault : Vault) (name : String) : Except Failure Unit → Prop
  | .ok () => vault.Has name
  | .error (.alreadyExists key) => settings.nameOf key = name ∧ vault.Has name
  | .error _ => True

theorem Told.mono {settings : Settings} {before after : Vault} {name : String}
    {value : Except Failure Unit} (told : Told settings before name value) (grows : before.Grows after) :
    Told settings after name value := by
  cases value with
  | ok _ => exact grows name told
  | error failure =>
      cases failure with
      | alreadyExists key => exact ⟨told.1, grows name told.2⟩
      | _ => trivial

theorem Warrants.told {settings : Settings} {vault : Vault} {key : String} {known : Insight}
    {value : Except Failure Unit} (warrants : Warrants key known value)
    (present : known.present = true → vault.Has (settings.nameOf key))
    (wrote : known.wrote = true → known.present = true) :
    Told settings vault (settings.nameOf key) value := by
  cases value with
  | ok _ => exact present (wrote warrants)
  | error failure =>
      cases failure with
      | alreadyExists other => exact ⟨by rw [warrants.1], present warrants.2⟩
      | _ => trivial

/-! ## Channels -/

/-- Every flight has a name, and a result that is published is true of the vault. -/
structure Owned (settings : Settings) (vault : Vault) (creates : Creates) (owners : List String) :
    Prop where
  length : owners.length = creates.channels.length
  entry : ∀ (name : String) (flight : Nat), (name, flight) ∈ creates.entries → owners[flight]? = some name
  told : ∀ (flight : Nat) (channel : Flight.Channel (Except Failure Unit)) value name,
    creates.channels[flight]? = some channel →
    channel.value = some value → owners[flight]? = some name → Told settings vault name value

namespace Owned

variable {settings : Settings} {vault : Vault} {creates : Creates} {owners : List String}

theorem mono {after : Vault} (owned : Owned settings vault creates owners) (grows : vault.Grows after) :
    Owned settings after creates owners where
  length := owned.length
  entry := owned.entry
  told flight channel value name found published mine :=
    (owned.told flight channel value name found published mine).mono grows

theorem join (owned : Owned settings vault creates owners) {name : String}
    (absent : creates.flight? name = none) :
    Owned settings vault (creates.join name).2 (owners ++ [name]) := by
  have length := owned.length
  rw [Flight.Table.join_absent absent]
  refine ⟨by simp [length], ?_, ?_⟩
  · intro other flight member
    rcases List.mem_cons.mp member with new | old
    · cases new
      rw [← length, List.getElem?_concat_length]
    · have mine := owned.entry other flight old
      rw [List.getElem?_append_left (List.getElem?_eq_some_iff.mp mine).1, mine]
  · intro flight channel value other found published mine
    rcases Nat.lt_or_ge flight creates.channels.length with old | new
    · rw [List.getElem?_append_left old] at found
      rw [List.getElem?_append_left (by omega)] at mine
      exact owned.told flight channel value other found published mine
    · rw [List.getElem?_append_right new] at found
      have fresh := List.mem_of_getElem? found
      simp only [List.mem_singleton] at fresh
      rw [fresh] at published
      cases published

theorem publish (owned : Owned settings vault creates owners) {flight : Nat} {name : String}
    {value : Except Failure Unit} (mine : owners[flight]? = some name)
    (told : Told settings vault name value) :
    Owned settings vault (creates.publish flight value) owners where
  length := by simp [Flight.Table.publish, Flight.Table.update, owned.length]
  entry := owned.entry
  told other channel seen name' found published theirs := by
    rw [Flight.Table.publish, Flight.Table.update_channels] at found
    split at found
    · rename_i same
      subst same
      obtain ⟨before, -, rfl⟩ := Option.map_eq_some_iff.mp found
      cases published
      rw [mine] at theirs
      cases theirs
      exact told
    · exact owned.told other channel seen name' found published theirs

theorem leave (owned : Owned settings vault creates owners) (key : String) :
    Owned settings vault (creates.leave key) owners where
  length := owned.length
  entry name flight member := owned.entry name flight (List.mem_filter.mp member).1
  told := owned.told

theorem close (owned : Owned settings vault creates owners) (flight : Nat) :
    Owned settings vault (creates.close flight) owners where
  length := by simp [Flight.Table.close, Flight.Table.update, owned.length]
  entry := owned.entry
  told other channel value name found published mine := by
    rw [Flight.Table.close, Flight.Table.update_channels] at found
    split at found
    · obtain ⟨before, seen, rfl⟩ := Option.map_eq_some_iff.mp found
      exact owned.told other before value name seen published mine
    · exact owned.told other channel value name found published mine

theorem told_look (owned : Owned settings vault creates owners) {flight : Nat} {name : String}
    {value : Except Failure Unit} (sight : creates.look flight = .value value)
    (mine : owners[flight]? = some name) : Told settings vault name value := by
  cases found : creates.channels[flight]? with
  | none => simp [Flight.Table.look, found] at sight
  | some channel =>
      obtain ⟨published, live⟩ := channel
      cases published with
      | none => cases live <;> simp [Flight.Table.look, found] at sight
      | some shown =>
          simp only [Flight.Table.look, found, Flight.Sight.value.injEq] at sight
          subst sight
          exact owned.told flight _ shown name found rfl mine

end Owned

/-! ## Points -/

def Ready (settings : Settings) (key : String) (known : Insight) (work : CreateWork) :
    Option Letter → Prop
  | none => work.Meets (creation settings key) (Warrants key) known
  | some (.posted request) =>
      (∃ next, work = .await request next) ∧ work.Meets (creation settings key) (Warrants key) known
  | some (.answered request response) =>
      work.MeetsOnce (creation settings key) (Warrants key) request response known

namespace Ready

variable {settings : Settings} {key : String} {known : Insight} {work next : CreateWork}
  {letter : Option Letter} {request : Request}

theorem quiet {deed : Deed} (ready : Ready settings key known work letter) (step : work.Step deed next)
    (quiet : deed.IsQuiet) : Ready settings key known next letter := by
  match letter with
  | none => exact Program.Meets.quiet ready step quiet
  | some (.posted request) =>
      obtain ⟨⟨rest, rfl⟩, meets⟩ := ready
      cases step <;> exact quiet.elim
  | some (.answered request response) => exact absurd quiet (Program.MeetsOnce.not_quiet ready step)

theorem sends (ready : Ready settings key known work letter) (step : work.Step (.sends request) next) :
    Harmless request ∧ Ready settings key known next (some (.posted request)) := by
  have meets : work.Meets (creation settings key) (Warrants key) known := by
    match letter with
    | none => exact ready
    | some (.posted asked) => exact ready.2
    | some (.answered asked response) => exact absurd step (Program.MeetsOnce.not_sends ready)
  obtain ⟨permitted, meets, awaits⟩ := meets.sends step
  refine ⟨?_, awaits, meets⟩
  intro name asks
  rcases permitted with reads | ⟨-, text, writes⟩
  · rw [reads] at asks
    cases asks
  · rw [writes] at asks
    cases asks

theorem fails {failure : Failure} (ready : Ready settings key known work letter)
    (step : work.Step (.fails request failure) next) : Ready settings key known next none := by
  match letter with
  | none => exact Program.Meets.fails ready step known
  | some (.posted asked) => exact ready.2.fails step known
  | some (.answered asked response) => exact Program.MeetsOnce.fails ready step known

theorem done {value : Except Failure Unit} (ready : Ready settings key known (.done value) letter) :
    letter = none ∧ Warrants key known value := by
  match letter with
  | none => exact ⟨rfl, ready⟩
  | some (.posted request) =>
      obtain ⟨⟨rest, awaits⟩, -⟩ := ready
      cases awaits
  | some (.answered request response) =>
      obtain ⟨rest, awaits, -⟩ := ready
      cases awaits

end Ready

def Stands (settings : Settings) (vault : Vault) (key : String) (known : Insight)
    (letter : Option Letter) (owners : List String) :
    Flight.Point CreateWork (Except Failure Unit) → Prop
  | .joining => letter = none ∧ known = {}
  | .following flight =>
      letter = none ∧ known = {} ∧ owners[flight]? = some (settings.nameOf key)
  | .working flight work =>
      owners[flight]? = some (settings.nameOf key) ∧ Ready settings key known work letter
  | .publishing flight value =>
      letter = none ∧ Warrants key known value ∧ owners[flight]? = some (settings.nameOf key)
  | .leaving _ value | .closing _ value | .returned value false =>
      letter = none ∧ Warrants key known value
  | .returned value true => letter = none ∧ Told settings vault (settings.nameOf key) value
  | .quitting _ | .hangingUp _ | .gone => letter = none

structure Insight.Correct (initial vault : Vault) (name : String) (known : Insight) : Prop where
  present : known.present = true → vault.Has name
  cleared : known.cleared = true → ¬ initial.Has name
  wrote : known.wrote = true → known.present = true ∧ known.cleared = true

theorem Insight.Correct.mono {initial before after : Vault} {name : String} {known : Insight}
    (correct : known.Correct initial before name) (grows : before.Grows after) :
    known.Correct initial after name where
  present heard := grows name (correct.present heard)
  cleared := correct.cleared
  wrote := correct.wrote

namespace Stands

variable {settings : Settings} {initial vault : Vault} {key : String} {known : Insight}
  {letter : Option Letter} {owners : List String} {point : Flight.Point CreateWork (Except Failure Unit)}

theorem mono {after : Vault} (stands : Stands settings vault key known letter owners point)
    (grows : vault.Grows after) : Stands settings after key known letter owners point := by
  cases point with
  | returned value shared =>
      cases shared with
      | true => exact ⟨stands.1, stands.2.mono grows⟩
      | false => exact stands
  | _ => exact stands

theorem extend {more : List String} (stands : Stands settings vault key known letter owners point)
    (longer : owners <+: more) : Stands settings vault key known letter more point := by
  have kept {flight : Nat} (mine : owners[flight]? = some (settings.nameOf key)) :
      more[flight]? = some (settings.nameOf key) := by
    obtain ⟨new, rfl⟩ := longer
    rw [List.getElem?_append_left (List.getElem?_eq_some_iff.mp mine).1, mine]
  cases point with
  | following flight => exact ⟨stands.1, stands.2.1, kept stands.2.2⟩
  | working flight work => exact ⟨kept stands.1, stands.2⟩
  | publishing flight value => exact ⟨stands.1, stands.2.1, kept stands.2.2⟩
  | returned value shared => cases shared <;> exact stands
  | _ => exact stands

theorem working_of_letter (stands : Stands settings vault key known letter owners point)
    (waits : letter ≠ none) : ∃ flight work, point = .working flight work := by
  cases point with
  | working flight work => exact ⟨flight, work, rfl⟩
  | joining => exact absurd stands.1 waits
  | following flight => exact absurd stands.1 waits
  | publishing flight value => exact absurd stands.1 waits
  | leaving flight value => exact absurd stands.1 waits
  | closing flight value => exact absurd stands.1 waits
  | returned value shared => cases shared <;> exact absurd stands.1 waits
  | _ => exact absurd stands waits

theorem act {caller : Creator} {creates : Creates} {value : Bytes}
    (stands : Stands settings vault key known letter owners caller.point)
    (owned : Owned settings vault creates owners)
    (correct : known.Correct initial vault (settings.nameOf key))
    (mine : caller.key = settings.nameOf key) (work : caller.work = createWork settings key value) :
    ∃ more, owners <+: more ∧ Owned settings vault (caller.act creates).2 more ∧
      Stands settings vault key known letter more (caller.act creates).1.point := by
  obtain ⟨name, start, point⟩ := caller
  subst mine work
  cases point with
  | joining =>
      obtain ⟨rfl, rfl⟩ := stands
      cases entry : creates.flight? (settings.nameOf key) with
      | none =>
          have joined := owned.join entry
          simp only [Flight.Table.join, entry] at joined
          simp only [Flight.Caller.act, Flight.Table.join, entry]
          refine ⟨_, List.prefix_append _ _, joined, ?_, createWork_meets settings key value _⟩
          rw [← owned.length, List.getElem?_concat_length]
      | some flight =>
          simp only [Flight.Caller.act, Flight.Table.join, entry]
          have theirs := owned.entry _ _ (Flight.Table.mem_of_flight? entry)
          exact ⟨owners, List.prefix_rfl, owned, rfl, rfl, theirs⟩
  | following flight =>
      obtain ⟨rfl, rfl, theirs⟩ := stands
      cases sight : creates.look flight with
      | pending =>
          simp only [Flight.Caller.act, sight]
          exact ⟨owners, List.prefix_rfl, owned, rfl, rfl, theirs⟩
      | gone =>
          simp only [Flight.Caller.act, sight]
          exact ⟨owners, List.prefix_rfl, owned, rfl, rfl⟩
      | value told =>
          simp only [Flight.Caller.act, sight]
          exact ⟨owners, List.prefix_rfl, owned, rfl, owned.told_look sight theirs⟩
  | publishing flight result =>
      obtain ⟨rfl, warrants, theirs⟩ := stands
      have told := warrants.told correct.present fun wrote => (correct.wrote wrote).1
      exact ⟨owners, List.prefix_rfl, owned.publish theirs told, rfl, warrants⟩
  | leaving flight result => exact ⟨owners, List.prefix_rfl, owned.leave _, stands⟩
  | closing flight result => exact ⟨owners, List.prefix_rfl, owned.close _, stands⟩
  | quitting flight => exact ⟨owners, List.prefix_rfl, owned.leave _, stands⟩
  | hangingUp flight => exact ⟨owners, List.prefix_rfl, owned.close _, stands⟩
  | _ => exact ⟨owners, List.prefix_rfl, owned, stands⟩

theorem abandon {caller : Creator} (stands : Stands settings vault key known letter owners caller.point)
    (rest : caller.point.AtRest) : Stands settings vault key known none owners caller.abandon.point := by
  obtain ⟨name, start, point⟩ := caller
  cases point with
  | returned value shared => cases shared <;> exact ⟨rfl, stands.2⟩
  | joining => exact rfl
  | working flight work => exact rfl
  | following flight => exact rfl
  | gone => exact rfl
  | _ => exact rest.elim

end Stands

/-! ## Tasks -/

structure Creating (settings : Settings) (initial vault : Vault) (key : String) (known : Insight)
    (letter : Option Letter) (owners : List String) (call : Call) (caller : Creator) : Prop where
  asked : ∃ value, call = .create key value ∧ caller.work = createWork settings key value
  name : caller.key = settings.nameOf key
  correct : known.Correct initial vault (settings.nameOf key)
  stands : Stands settings vault key known letter owners caller.point

namespace Creating

variable {settings : Settings} {initial vault : Vault} {key : String} {known : Insight}
  {letter : Option Letter} {owners : List String} {call : Call} {caller : Creator} {flight : Nat}
  {work : CreateWork}

theorem working (creating : Creating settings initial vault key known letter owners call caller)
    (point : caller.point = .working flight work) :
    owners[flight]? = some (settings.nameOf key) ∧ Ready settings key known work letter := by
  have stands := creating.stands
  rwa [point] at stands

theorem progress {next : CreateWork} {later : Option Letter}
    (creating : Creating settings initial vault key known letter owners call caller)
    (point : caller.point = .working flight work) (ready : Ready settings key known next later) :
    Creating settings initial vault key known later owners call
      (caller.progress flight (.waiting next)) :=
  ⟨creating.asked, creating.name, creating.correct, (creating.working point).1, ready⟩

end Creating

def Task.Stands (settings : Settings) (initial vault : Vault) (known : Insight)
    (letter : Option Letter) (owners : List String) (call : Call) : Task → Prop
  | .plain program => (∀ key value, call ≠ .create key value) ∧ Spares program
  | .create key _ caller => Creating settings initial vault key known letter owners call caller

def Task.IsCreation (key : String) : Task → Prop
  | .plain _ => False
  | .create own _ _ => own = key

def Task.Works (key : String) : Task → Prop
  | .plain _ => False
  | .create own _ caller => own = key ∧ ∃ flight work, caller.point = .working flight work

/-- The creation has written its name, or may still do so. -/
def Task.Dares (known : Insight) (key : String) (task : Task) : Prop :=
  task.IsCreation key ∧ known.wrote = true ∨ task.Works key ∧ known.cleared = true

theorem act_working {caller : Creator} {creates : Creates} {flight : Nat} {work : CreateWork}
    (working : (caller.act creates).1.point = .working flight work) :
    caller.point = .joining ∨ caller.point = .working flight work := by
  obtain ⟨name, start, point⟩ := caller
  cases point with
  | joining => exact Or.inl rfl
  | working flight work => exact Or.inr working
  | following flight =>
      simp only [Flight.Caller.act] at working
      split at working <;> cases working
  | _ => cases working

namespace Task.Stands

variable {settings : Settings} {initial vault : Vault} {known : Insight} {letter : Option Letter}
  {owners : List String} {call : Call} {task after : Task} {creates left : Creates}

theorem mono {later : Vault} (stands : task.Stands settings initial vault known letter owners call)
    (grows : vault.Grows later) : task.Stands settings initial later known letter owners call := by
  cases task with
  | plain program => exact stands
  | create key announced caller =>
      exact ⟨stands.asked, stands.name, stands.correct.mono grows, stands.stands.mono grows⟩

theorem extend {more : List String}
    (stands : task.Stands settings initial vault known letter owners call) (longer : owners <+: more) :
    task.Stands settings initial vault known letter more call := by
  cases task with
  | plain program => exact stands
  | create key announced caller =>
      exact ⟨stands.asked, stands.name, stands.correct, stands.stands.extend longer⟩

theorem start (settings : Settings) (initial vault : Vault) (owners : List String) {call : Call}
    (kept : ∀ key, call ≠ .delete key) :
    (Task.start settings call).Stands settings initial vault {} none owners call := by
  cases call with
  | create key value =>
      refine ⟨⟨value, rfl, rfl⟩, rfl, ⟨?_, ?_, ?_⟩, rfl, rfl⟩ <;> exact fun heard => by cases heard
  | _ =>
      refine ⟨?_, program_harmless settings kept ?_⟩ <;> exact fun key value same => by cases same

theorem dares {deed : Deed} {key : String}
    (stands : task.Stands settings initial vault known letter owners call)
    (step : Task.Step settings task creates deed after left) (dares : after.Dares known key) :
    task.Dares known key := by
  rcases dares with ⟨own, wrote⟩ | ⟨works, cleared⟩
  · refine Or.inl ⟨?_, wrote⟩
    cases step <;> exact own
  · refine Or.inr ⟨?_, cleared⟩
    cases step with
    | plain creates step => exact works.elim
    | announce own caller creates => exact works
    | work own creates point step => exact ⟨works.1, _, _, point⟩
    | finish own creates point =>
        obtain ⟨-, flight, work, moved⟩ := works
        cases moved
    | act own caller creates =>
        obtain ⟨same, flight, work, working⟩ := works
        rcases act_working working with joining | working
        · have here := stands.stands
          rw [joining] at here
          obtain ⟨-, rfl⟩ := here
          cases cleared
        · exact ⟨same, flight, work, working⟩

theorem goesOn {deed : Deed} (stands : task.Stands settings initial vault known letter owners call)
    (owned : Owned settings vault creates owners)
    (step : Task.Step settings task creates deed after left) (quiet : deed.IsQuiet) :
    ∃ more, owners <+: more ∧ Owned settings vault left more ∧
      after.Stands settings initial vault known letter more call := by
  cases step with
  | plain creates step => exact ⟨owners, List.prefix_rfl, owned, stands.1, stands.2.quiet step quiet⟩
  | announce key caller creates => exact ⟨owners, List.prefix_rfl, owned, stands⟩
  | work key creates point step =>
      have ready := (Creating.working stands point).2.quiet step quiet
      exact ⟨owners, List.prefix_rfl, owned, Creating.progress stands point ready⟩
  | finish key creates point =>
      obtain ⟨mine, ready⟩ := Creating.working stands point
      obtain ⟨silent, warrants⟩ := ready.done
      exact ⟨owners, List.prefix_rfl, owned, stands.asked, stands.name, stands.correct, silent, warrants,
        mine⟩
  | act key caller creates =>
      obtain ⟨value, asked, work⟩ := stands.asked
      obtain ⟨more, longer, owned, here⟩ := stands.stands.act owned stands.correct stands.name work
      obtain ⟨key_same, work_same⟩ := caller.act_same creates
      exact ⟨more, longer, owned, ⟨value, asked, work_same.trans work⟩, key_same.trans stands.name,
        stands.correct, here⟩

theorem sends {request : Request} (stands : task.Stands settings initial vault known letter owners call)
    (step : Task.Step settings task creates (.sends request) after left) :
    left = creates ∧ Harmless request ∧
      after.Stands settings initial vault known (some (.posted request)) owners call := by
  cases step with
  | plain creates step =>
      obtain ⟨harmless, meets, -⟩ := stands.2.sends step
      exact ⟨rfl, harmless, stands.1, meets⟩
  | work key creates point step =>
      obtain ⟨harmless, ready⟩ := (Creating.working stands point).2.sends step
      exact ⟨rfl, harmless, Creating.progress stands point ready⟩

theorem receives {request : Request} {response : Response}
    (stands : task.Stands settings initial vault known (some (.answered request response)) owners call)
    (step : Task.Step settings task creates (.receives request response) after left) :
    left = creates ∧ after.Stands settings initial vault known none owners call := by
  cases step with
  | plain creates step => exact ⟨rfl, stands.1, stands.2.receives step trivial⟩
  | work key creates point step =>
      have ready := (Creating.working stands point).2.receives step
      exact ⟨rfl, Creating.progress stands point ready⟩

theorem fails {request : Request} {failure : Failure}
    (stands : task.Stands settings initial vault known letter owners call)
    (step : Task.Step settings task creates (.fails request failure) after left) :
    left = creates ∧ after.Stands settings initial vault known none owners call := by
  cases step with
  | plain creates step => exact ⟨rfl, stands.1, stands.2.fails step ()⟩
  | work key creates point step =>
      have ready := (Creating.working stands point).2.fails step
      exact ⟨rfl, Creating.progress stands point ready⟩

theorem drops (stands : task.Stands settings initial vault known letter owners call)
    (abandons : task.Abandons after) :
    after.Stands settings initial vault known none owners call := by
  cases abandons with
  | plain program => exact stands
  | @create caller key announced rest =>
      obtain ⟨key_same, work_same⟩ := caller.abandon_same
      obtain ⟨value, asked, work⟩ := stands.asked
      exact ⟨⟨value, asked, work_same.trans work⟩, key_same.trans stands.name, stands.correct,
        stands.stands.abandon rest⟩

end Task.Stands

end SecretStore.CredHub
