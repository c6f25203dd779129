import SecretStore.Proofs.CredHub.Standing

/-!
# A key is created once

The invariant `Scene.Kept` says that the insight of every creation is true, and that a name which one of them has found
absent can be written by no other while that one works.
-/

namespace SecretStore.CredHub

open Http

/-! ## What answers tell -/

inductive Heard (before after : Vault) (name : String) (known : Insight) : Insight → Prop where
  | found : before.Has name → Heard before after name known { known with present := true }
  | missing : ¬ before.Has name → Heard before after name known { known with cleared := true }
  | written : known.cleared = true → after.Has name →
      Heard before after name known { known with present := true, wrote := true }
  | nothing : Heard before after name known known

section Heard

variable {settings : Settings} {initial before after : Vault} {key name : String}
  {known later : Insight} {request : Request} {response : Response}

theorem heard_grants (permitted : (creation settings key).permits known request)
    (grants : before.Grants request response after) :
    Heard before after (settings.nameOf key) known (known.learn request response) := by
  rcases permitted with reads | ⟨cleared, text, writes⟩
  · cases grants with
    | @found name text asks holds shows =>
        rw [reads] at asks
        cases asks
        have absent := isNotFound_of_isSuccess shows.1
        simp only [Insight.learn, reads, shows.1, absent, Bool.false_eq_true, ↓reduceIte]
        exact .found (by rw [Vault.Has, holds]; exact Option.some_ne_none _)
    | missing asks lacks absent =>
        rw [reads] at asks
        cases asks
        simp only [Insight.learn, reads, absent, ↓reduceIte]
        exact .missing fun has => has lacks
    | written asks | removed asks | listed asks | other asks =>
        rw [reads] at asks
        cases asks
  · cases grants with
    | @written name text asks =>
        rw [writes] at asks
        cases asks
        cases success : response.isSuccess with
        | true =>
            simp only [Insight.learn, writes, success, ↓reduceIte]
            exact .written cleared (before.has_write _ _)
        | false =>
            simp only [Insight.learn, writes, success, Bool.false_eq_true, ↓reduceIte]
            exact .nothing
    | found asks | missing asks | removed asks | listed asks | other asks =>
        rw [writes] at asks
        cases asks

theorem learn_declines (declines : Declines request response) : known.learn request response = known := by
  obtain ⟨fails, keeps⟩ := declines
  cases asks : Wish.ofRequest? request with
  | none => simp only [Insight.learn, asks]
  | some wish =>
      cases wish with
      | read name =>
          have absent := keeps name asks
          simp only [Insight.learn, asks, absent, fails, Bool.false_eq_true, ↓reduceIte]
      | write name text => simp only [Insight.learn, asks, fails, Bool.false_eq_true, ↓reduceIte]
      | _ => simp only [Insight.learn, asks]

theorem answers_grants (genuine : Genuine response) (grants : before.Grants request response after) :
    (creation settings key).answers request response := by
  apply And.intro genuine
  intro name reads success
  cases grants with
  | found asks holds shows => exact ⟨_, shows⟩
  | missing asks lacks absent =>
      rw [isNotFound_of_isSuccess success] at absent
      cases absent
  | written asks | removed asks | listed asks | other asks =>
      rw [reads] at asks
      cases asks

theorem answers_declines (genuine : Genuine response) (declines : Declines request response) :
    (creation settings key).answers request response := by
  apply And.intro genuine
  intro name reads success
  rw [declines.1] at success
  cases success

theorem Insight.Correct.heard (correct : known.Correct initial before name)
    (heard : Heard before after name known later) (grown : initial.Grows before)
    (grows : before.Grows after) : later.Correct initial after name := by
  have correct' := correct.mono grows
  cases heard with
  | found has =>
      exact ⟨fun _ => grows name has, correct.cleared, fun wrote => ⟨rfl, (correct.wrote wrote).2⟩⟩
  | missing lacks =>
      have lacked : ¬ initial.Has name := fun had => lacks (grown name had)
      exact ⟨correct'.present, fun _ => lacked, fun wrote => ⟨(correct.wrote wrote).1, rfl⟩⟩
  | written cleared has => exact ⟨fun _ => has, correct.cleared, fun _ => ⟨rfl, cleared⟩⟩
  | nothing => exact correct'

theorem Task.Dares.heard {task : Task} (dares : task.Dares later key) (works : task.Works key)
    (heard : Heard before after name known later) : task.Dares known key ∨ ¬ before.Has name := by
  cases heard with
  | found has => exact Or.inl dares
  | missing lacks => exact Or.inr lacks
  | written cleared has => exact Or.inl (Or.inr ⟨works, cleared⟩)
  | nothing => exact Or.inl dares

theorem Task.Abandons.dares {task left : Task} (abandons : task.Abandons left)
    (dares : left.Dares known key) : task.Dares known key := by
  cases abandons with
  | plain program => exact dares
  | @create caller own announced rest =>
      rcases dares with ⟨mine, wrote⟩ | ⟨⟨mine, flight, work, point⟩, cleared⟩
      · exact Or.inl ⟨mine, wrote⟩
      · refine Or.inr ⟨⟨mine, flight, work, ?_⟩, cleared⟩
        obtain ⟨name, start, here⟩ := caller
        cases here <;> cases point

theorem Task.Works.isCreation {task : Task} (works : task.Works key) : task.IsCreation key := by
  cases task with
  | plain program => exact works
  | create own announced caller => exact works.1

theorem Task.Dares.isCreation {task : Task} (dares : task.Dares known key) : task.IsCreation key := by
  rcases dares with ⟨own, -⟩ | ⟨works, -⟩
  · exact own
  · exact works.isCreation

theorem Task.Stands.awaits {owners : List String} {call : Call} {task : Task}
    (stands : task.Stands settings initial before known (some (.posted request)) owners call)
    (own : task.IsCreation key) : task.Works key ∧ (creation settings key).permits known request := by
  cases task with
  | plain program => exact own.elim
  | create own' announced caller =>
      cases own
      have here := stands.stands
      obtain ⟨flight, work, point⟩ := here.working_of_letter (Option.some_ne_none _)
      rw [point] at here
      obtain ⟨mine, ⟨next, rfl⟩, meets⟩ := here
      exact ⟨⟨rfl, flight, _, point⟩, meets.1⟩

theorem Task.Stands.answered {owners : List String} {call : Call} {task : Task}
    (stands : task.Stands settings initial before known (some (.posted request)) owners call)
    (grown : initial.Grows before) (grows : before.Grows after)
    (answers : ∀ key, (creation settings key).answers request response)
    (heard : ∀ key, (creation settings key).permits known request →
      Heard before after (settings.nameOf key) known (known.learn request response)) :
    task.Stands settings initial after (known.learn request response)
      (some (.answered request response)) owners call := by
  cases task with
  | plain program => exact stands
  | create key announced caller =>
      obtain ⟨asked, name, correct, here⟩ := stands
      obtain ⟨flight, work, point⟩ := here.working_of_letter (Option.some_ne_none _)
      rw [point] at here
      obtain ⟨mine, ⟨next, rfl⟩, meets⟩ := here
      refine ⟨asked, name, correct.heard (heard key meets.1) grown grows, ?_⟩
      rw [point]
      exact ⟨mine, meets.once (answers key)⟩

end Heard

/-! ## The invariant -/

namespace Scene

variable {ι : Type} {settings : Settings} {initial : Vault}

structure Kept (settings : Settings) (initial : Vault) (scene : Scene ι) (insight : ι → Insight)
    (owners : List String) : Prop where
  sound : scene.service.crowd.Sound
  grown : initial.Grows scene.vault
  owned : Owned settings scene.vault scene.service.creates owners
  vacant : ∀ id, scene.service.visits id = none → scene.letters id = none ∧ insight id = {}
  stands : ∀ id visit, scene.service.visits id = some visit →
    visit.task.Stands settings initial scene.vault (insight id) (scene.letters id) owners visit.call
  posted : ∀ id request, scene.letters id = some (.posted request) → Harmless request
  strays : ∀ request ∈ scene.strays, Harmless request
  alone : ∀ i j one two key, scene.service.visits i = some one → scene.service.visits j = some two →
    one.task.Dares (insight i) key → two.task.Dares (insight j) key → i = j

namespace Kept

variable {scene : Scene ι} {insight : ι → Insight} {owners : List String} {id : ι}

theorem start (settings : Settings) (initial : Vault) :
    Kept settings initial (Scene.start initial : Scene ι) (fun _ => {}) [] where
  sound := Service.sound_empty
  grown name had := had
  owned := ⟨rfl, fun name flight member => (List.not_mem_nil member).elim,
    fun flight channel value name found => by cases found⟩
  vacant id free := ⟨rfl, rfl⟩
  stands id visit here := by cases here
  posted id request here := by cases here
  strays request member := (List.not_mem_nil member).elim
  alone i j one two key here := by cases here

theorem leftBy (kept : scene.Kept settings initial insight owners) (id : ι) :
    ∀ request ∈ scene.leftBy id ++ scene.strays, Harmless request := by
  intro request member
  rcases List.mem_append.mp member with left | stray
  · cases letter : scene.letters id with
    | none => simp [Scene.leftBy, letter] at left
    | some letter' =>
        cases letter' with
        | posted asked =>
            simp only [Scene.leftBy, letter, List.mem_singleton] at left
            rw [left]
            exact kept.posted id asked letter
        | answered asked response => simp [Scene.leftBy, letter] at left
  · exact kept.strays request stray

theorem works (kept : scene.Kept settings initial insight owners) {visit : Visit} {key : String}
    (here : scene.service.visits id = some visit) (works : visit.task.Works key) :
    scene.service.crowd.Works id (settings.nameOf key) := by
  have stands := kept.stands id visit here
  cases task : visit.task with
  | plain program =>
      rw [task] at works
      exact works.elim
  | create own announced caller =>
      rw [task] at works stands
      obtain ⟨rfl, flight, work, point⟩ := works
      exact ⟨caller, flight, work, Service.crowd_creator here task, stands.name, point⟩

theorem one_works (kept : scene.Kept settings initial insight owners) {i j : ι} {one two : Visit}
    {key : String} (here : scene.service.visits i = some one) (there : scene.service.visits j = some two)
    (works : one.task.Works key) (works' : two.task.Works key) : i = j := by
  obtain ⟨first, leads⟩ := (kept.works here works).leads
  obtain ⟨second, leads'⟩ := (kept.works there works').leads
  exact kept.sound.leader_unique leads leads'

theorem has_of_wrote (kept : scene.Kept settings initial insight owners) {visit : Visit} {key : String}
    (here : scene.service.visits id = some visit) (own : visit.task.IsCreation key)
    (wrote : (insight id).wrote = true) : scene.vault.Has (settings.nameOf key) := by
  have stands := kept.stands id visit here
  cases task : visit.task with
  | plain program =>
      rw [task] at own
      exact own.elim
  | create own' announced caller =>
      rw [task] at own stands
      cases own
      exact stands.correct.present (stands.correct.wrote wrote).1

/-- At most one call may write a name that it has found absent. -/
theorem lone (kept : scene.Kept settings initial insight owners) {i j : ι} {one two : Visit}
    {key : String} (here : scene.service.visits i = some one) (there : scene.service.visits j = some two)
    (dare : one.task.Dares (insight i) key) (works : two.task.Works key)
    (lacks : ¬ scene.vault.Has (settings.nameOf key)) : i = j := by
  rcases dare with ⟨own, wrote⟩ | ⟨works', -⟩
  · exact absurd (kept.has_of_wrote here own wrote) lacks
  · exact kept.one_works here there works' works

theorem grow (kept : scene.Kept settings initial insight owners) {vault : Vault} {strays : List Request}
    (grows : scene.vault.Grows vault) (harmless : ∀ request ∈ strays, Harmless request) :
    Kept settings initial ⟨scene.service, vault, scene.letters, strays⟩ insight owners where
  sound := kept.sound
  grown name had := grows name (kept.grown name had)
  owned := kept.owned.mono grows
  vacant := kept.vacant
  stands id visit here := (kept.stands id visit here).mono grows
  posted := kept.posted
  strays := harmless
  alone := kept.alone

variable [DecidableEq ι]

theorem place (kept : scene.Kept settings initial insight owners) {visit : Visit} {creates : Creates}
    {letter : Option Letter} {strays : List Request} {more : List String}
    (sound : (scene.service.place id visit creates).crowd.Sound)
    (longer : owners <+: more) (owned : Owned settings scene.vault creates more)
    (stands : visit.task.Stands settings initial scene.vault (insight id) letter more visit.call)
    (posted : ∀ request, letter = some (.posted request) → Harmless request)
    (harmless : ∀ request ∈ strays, Harmless request)
    (dares : ∀ key, visit.task.Dares (insight id) key →
      ∃ old, scene.service.visits id = some old ∧ old.task.Dares (insight id) key) :
    Kept settings initial
      ⟨scene.service.place id visit creates, scene.vault, Function.update scene.letters id letter, strays⟩
      insight more where
  sound := sound
  grown := kept.grown
  owned := owned
  vacant other free := by
    rw [Service.place_visits] at free
    split at free
    · cases free
    · rename_i different
      obtain ⟨none, nothing⟩ := kept.vacant other free
      refine ⟨?_, nothing⟩
      simpa only [Function.update_of_ne different] using none
  stands other visit' here := by
    rw [Service.place_visits] at here
    split at here
    · rename_i same
      cases here
      subst same
      simpa only [Function.update_self] using stands
    · rename_i different
      simpa only [Function.update_of_ne different] using (kept.stands other visit' here).extend longer
  posted other request sent := by
    change Function.update scene.letters id letter other = _ at sent
    rw [Function.update_apply] at sent
    split at sent
    · exact posted request sent
    · exact kept.posted other request sent
  strays := harmless
  alone i j one two key here there dare dare' := by
    have earlier {i : ι} {one : Visit} (here : (scene.service.place id visit creates).visits i = some one)
        (dare : one.task.Dares (insight i) key) :
        ∃ old, scene.service.visits i = some old ∧ old.task.Dares (insight i) key := by
      rw [Service.place_visits] at here
      split at here
      · rename_i same
        cases here
        subst same
        exact dares key dare
      · exact ⟨one, here, dare⟩
    obtain ⟨one', here', dare⟩ := earlier here dare
    obtain ⟨two', there', dare'⟩ := earlier there dare'
    exact kept.alone i j one' two' key here' there' dare dare'

theorem answer (kept : scene.Kept settings initial insight owners) {request : Request}
    {response : Response} {vault : Vault} {strays : List Request}
    (letter : scene.letters id = some (.posted request)) (grows : scene.vault.Grows vault)
    (answers : ∀ key, (creation settings key).answers request response)
    (heard : ∀ key, (creation settings key).permits (insight id) request →
      Heard scene.vault vault (settings.nameOf key) (insight id) ((insight id).learn request response))
    (harmless : ∀ request ∈ strays, Harmless request) :
    Kept settings initial
      ⟨scene.service, vault, Function.update scene.letters id (some (.answered request response)), strays⟩
      (Function.update insight id ((insight id).learn request response)) owners where
  sound := kept.sound
  grown name had := grows name (kept.grown name had)
  owned := kept.owned.mono grows
  vacant other free := by
    obtain ⟨none, nothing⟩ := kept.vacant other free
    have different : other ≠ id := by
      rintro rfl
      rw [letter] at none
      cases none
    refine ⟨?_, ?_⟩
    · simpa only [Function.update_of_ne different] using none
    · simpa only [Function.update_of_ne different] using nothing
  stands other visit here := by
    have stands := kept.stands other visit here
    rcases eq_or_ne other id with rfl | different
    · rw [letter] at stands
      simp only [Function.update_self]
      exact stands.answered kept.grown grows answers heard
    · simpa only [Function.update_of_ne different] using stands.mono grows
  posted other asked sent := by
    change Function.update scene.letters id _ other = _ at sent
    rw [Function.update_apply] at sent
    split at sent
    · cases sent
    · exact kept.posted other asked sent
  strays := harmless
  alone i j one two key here there dare dare' := by
    -- Only the call that is answered can become one that may write, and only if the name is absent.
    have earlier {k : ι} {visit : Visit} (here : scene.service.visits k = some visit)
        (dare : visit.task.Dares (Function.update insight id ((insight id).learn request response) k) key) :
        visit.task.Dares (insight k) key ∨
          k = id ∧ visit.task.Works key ∧ ¬ scene.vault.Has (settings.nameOf key) := by
      rw [Function.update_apply] at dare
      split at dare
      · rename_i same
        have stands := kept.stands k visit here
        rw [same, letter] at stands
        obtain ⟨works, permitted⟩ := stands.awaits dare.isCreation
        rcases dare.heard works (heard key permitted) with old | lacks
        · exact Or.inl (same ▸ old)
        · exact Or.inr ⟨same, works, lacks⟩
      · exact Or.inl dare
    rcases earlier here dare with old | ⟨same, works, lacks⟩
    · rcases earlier there dare' with old' | ⟨-, works, lacks⟩
      · exact kept.alone i j one two key here there old old'
      · exact kept.lone here there old works lacks
    · rcases earlier there dare' with old' | ⟨same', -, -⟩
      · exact (kept.lone there here old' works lacks).symm
      · exact same.trans same'.symm

theorem move (kept : scene.Kept settings initial insight owners) {visit : Visit} {task : Task}
    {dropped : Bool} {creates : Creates} {letter : Option Letter} {strays : List Request}
    {more : List String} (here : scene.service.visits id = some visit)
    (sound : (scene.service.place id ⟨visit.call, task, dropped⟩ creates).crowd.Sound)
    (longer : owners <+: more) (owned : Owned settings scene.vault creates more)
    (stands : task.Stands settings initial scene.vault (insight id) letter more visit.call)
    (posted : ∀ request, letter = some (.posted request) → Harmless request)
    (harmless : ∀ request ∈ strays, Harmless request)
    (dares : ∀ key, task.Dares (insight id) key → visit.task.Dares (insight id) key) :
    ∃ insight owners, Kept settings initial
      ⟨scene.service.place id ⟨visit.call, task, dropped⟩ creates, scene.vault,
        Function.update scene.letters id letter, strays⟩ insight owners :=
  ⟨insight, _, kept.place sound longer owned stands posted harmless fun key dare => ⟨visit, here, dares key dare⟩⟩

theorem step {after : Scene ι} (kept : scene.Kept settings initial insight owners)
    (step : scene.Step settings after) : ∃ insight owners, after.Kept settings initial insight owners := by
  have nothing (request : Request) (sent : (none : Option Letter) = some (.posted request)) :
      Harmless request := by
    cases sent
  cases step with
  | @begins id call free plain =>
      -- A name that is taken again starts with an empty insight, so the new call may not write.
      obtain ⟨none, unheard⟩ := kept.vacant id free
      have stands := Task.Stands.start settings initial scene.vault owners plain
      have sound := Service.begin_sound kept.sound settings call free
      have meek : ∀ key, ¬ (Task.start settings call).Dares (insight id) key := by
        rw [unheard]
        rintro key (⟨-, wrote⟩ | ⟨-, cleared⟩)
        · cases wrote
        · cases cleared
      rw [← unheard] at stands
      have placed := kept.place sound List.prefix_rfl kept.owned stands nothing kept.strays
        fun key dare => absurd dare (meek key)
      rw [← none, Function.update_eq_self] at placed
      exact ⟨_, _, placed⟩
  | @goesOn id deed service quiet does =>
      have sound := Service.does_sound kept.sound does
      obtain ⟨visit, task, creates, here, may, step, rfl⟩ := does
      have before := kept.stands id visit here
      obtain ⟨more, longer, owned, stands⟩ := before.goesOn kept.owned step quiet
      have moved := kept.move here sound longer owned stands (kept.posted id) kept.strays
        fun key => before.dares step
      rwa [Function.update_eq_self] at moved
  | @posts id request service does =>
      have sound := Service.does_sound kept.sound does
      obtain ⟨visit, task, creates, here, may, step, rfl⟩ := does
      have before := kept.stands id visit here
      obtain ⟨rfl, harmless, stands⟩ := before.sends step
      have posted (asked : Request) (sent : some (Letter.posted request) = some (.posted asked)) :
          Harmless asked := by
        cases sent
        exact harmless
      exact kept.move here sound List.prefix_rfl kept.owned stands posted kept.strays
        fun key => before.dares step
  | @receives id request response service letter does =>
      have sound := Service.does_sound kept.sound does
      obtain ⟨visit, task, creates, here, may, step, rfl⟩ := does
      have before := kept.stands id visit here
      have before' := before
      rw [letter] at before'
      obtain ⟨rfl, stands⟩ := before'.receives step
      exact kept.move here sound List.prefix_rfl kept.owned stands nothing kept.strays
        fun key => before.dares step
  | @fails id request failure service does =>
      -- The request may still be carried out, so it becomes a stray one.
      have sound := Service.does_sound kept.sound does
      obtain ⟨visit, task, creates, here, may, step, rfl⟩ := does
      have before := kept.stands id visit here
      obtain ⟨rfl, stands⟩ := before.fails step
      exact kept.move here sound List.prefix_rfl kept.owned stands nothing (kept.leftBy id)
        fun key => before.dares step
  | @drops id service drops =>
      have sound := Service.drops_sound kept.sound drops
      obtain ⟨visit, task, here, abandons, rfl⟩ := drops
      have before := kept.stands id visit here
      have stands := before.drops abandons
      exact kept.move here sound List.prefix_rfl kept.owned stands nothing (kept.leftBy id)
        fun key => abandons.dares
  | @grants id request response vault letter genuine grants =>
      have grows := grants.grows (kept.posted id request letter)
      exact ⟨_, _, kept.answer letter grows (fun key => answers_grants genuine grants)
        (fun key permitted => heard_grants permitted grants) kept.strays⟩
  | @declines id request response letter genuine declines =>
      have heard (key : String) : Heard scene.vault scene.vault (settings.nameOf key) (insight id)
          ((insight id).learn request response) := by
        rw [learn_declines declines]
        exact .nothing
      have harmless : ∀ asked ∈ request :: scene.strays, Harmless asked := by
        intro asked member
        rcases List.mem_cons.mp member with rfl | stray
        · exact kept.posted id asked letter
        · exact kept.strays asked stray
      exact ⟨_, _, kept.answer letter (fun name has => has) (fun key => answers_declines genuine declines)
        (fun key _ => heard key) harmless⟩
  | @late request response vault first rest split grants =>
      have member : request ∈ scene.strays := by simp [split]
      refine ⟨insight, owners, kept.grow (grants.grows (kept.strays request member)) ?_⟩
      intro asked remains
      apply kept.strays asked
      rw [split]
      rcases List.mem_append.mp remains with left | right
      · exact List.mem_append_left _ left
      · exact List.mem_append_right _ (List.mem_cons_of_mem _ right)

end Kept

theorem kept_reached [DecidableEq ι] {scene : Scene ι} (reached : Reached settings initial scene) :
    ∃ insight owners, scene.Kept settings initial insight owners := by
  induction reached with
  | start => exact ⟨_, _, Kept.start settings initial⟩
  | step before step ih =>
      obtain ⟨insight, owners, kept⟩ := ih
      exact kept.step step

/-! ## The statement -/

def Returns (scene : Scene ι) (id : ι) (call : Call) (outcome : Outcome) : Prop :=
  ∃ visit, scene.service.visits id = some visit ∧ visit.call = call ∧
    visit.task.outcome? = some outcome

structure CreatesOnce (settings : Settings) (initial : Vault) (scene : Scene ι) : Prop where
  one_succeeds : ∀ {i j : ι} {key : String} {value value' : Bytes} {answer answer' : Answer},
    scene.Returns i (.create key value) (.ok answer) →
    scene.Returns j (.create key value') (.ok answer') → i = j
  none_if_present : ∀ {id : ι} {key : String} {value : Bytes} {answer : Answer},
    initial.text? (settings.nameOf key) ≠ none → ¬ scene.Returns id (.create key value) (.ok answer)
  exists_if_told : ∀ {id : ι} {key told : String} {value : Bytes},
    scene.Returns id (.create key value) (.error (.alreadyExists told)) →
    told = key ∧ scene.vault.text? (settings.nameOf key) ≠ none

namespace Kept

variable {scene : Scene ι} {insight : ι → Insight} {owners : List String} {id : ι} {key : String}
  {value : Bytes}

theorem returned (kept : scene.Kept settings initial insight owners) {outcome : Outcome}
    (returns : scene.Returns id (.create key value) outcome) :
    ∃ visit caller result shared, scene.service.visits id = some visit ∧ visit.task.IsCreation key ∧
      Creating settings initial scene.vault key (insight id) (scene.letters id) owners visit.call caller ∧
      caller.point = .returned result shared ∧ createOutcome key shared result = outcome := by
  obtain ⟨visit, here, called, ended⟩ := returns
  have stands := kept.stands id visit here
  cases task : visit.task with
  | plain program =>
      rw [task] at stands
      exact absurd called (stands.1 key value)
  | create own announced caller =>
      rw [task] at stands ended
      obtain ⟨value', asked, -⟩ := stands.asked
      cases called.symm.trans asked
      cases point : caller.point with
      | returned result shared =>
          simp only [Task.outcome?, Flight.Caller.result?, point, Option.map_some,
            Option.some.injEq] at ended
          exact ⟨visit, caller, result, shared, here, task ▸ rfl, stands, point, ended⟩
      | _ => simp [Task.outcome?, Flight.Caller.result?, point] at ended

theorem wrote_of_ok (kept : scene.Kept settings initial insight owners) {answer : Answer}
    (returns : scene.Returns id (.create key value) (.ok answer)) :
    ∃ visit, scene.service.visits id = some visit ∧ visit.task.IsCreation key ∧
      (insight id).wrote = true ∧ ¬ initial.Has (settings.nameOf key) := by
  obtain ⟨visit, caller, result, shared, here, own, creating, point, ended⟩ := kept.returned returns
  have stands := creating.stands
  rw [point] at stands
  cases result with
  | error failure => cases ended
  | ok _ =>
      cases shared with
      | true => cases ended
      | false =>
          have wrote : (insight id).wrote = true := stands.2
          exact ⟨visit, here, own, wrote, creating.correct.cleared (creating.correct.wrote wrote).2⟩

theorem exists_of_told (kept : scene.Kept settings initial insight owners) {told : String}
    (returns : scene.Returns id (.create key value) (.error (.alreadyExists told))) :
    told = key ∧ scene.vault.Has (settings.nameOf key) := by
  obtain ⟨visit, caller, result, shared, here, own, creating, point, ended⟩ := kept.returned returns
  have stands := creating.stands
  rw [point] at stands
  cases shared with
  | true =>
      cases result with
      | ok _ =>
          cases ended
          exact ⟨rfl, stands.2⟩
      | error failure =>
          cases ended
          exact ⟨nameOf_inj.mp stands.2.1, stands.2.2⟩
  | false =>
      cases result with
      | ok _ => cases ended
      | error failure =>
          cases ended
          exact ⟨stands.2.1, creating.correct.present stands.2.2⟩

end Kept

/-- In every scene that can be reached, at most one creation of a key has succeeded, and none if the server held the
key at first. A caller that learns that the key exists is right. -/
theorem creates_once [DecidableEq ι] {scene : Scene ι} (reached : Reached settings initial scene) :
    scene.CreatesOnce settings initial := by
  obtain ⟨insight, owners, kept⟩ := kept_reached reached
  constructor
  · intro i j key value value' answer answer' first second
    obtain ⟨one, here, own, wrote, -⟩ := kept.wrote_of_ok first
    obtain ⟨two, there, own', wrote', -⟩ := kept.wrote_of_ok second
    exact kept.alone i j one two key here there (Or.inl ⟨own, wrote⟩) (Or.inl ⟨own', wrote'⟩)
  · intro id key value answer had returns
    obtain ⟨visit, -, -, -, lacked⟩ := kept.wrote_of_ok returns
    exact lacked had
  · intro id key told value returns
    exact kept.exists_of_told returns

theorem creates_once_shared :
    ∃ scene : Scene Bool, Reached {} .empty scene ∧
      scene.Returns true (.create "k" [49]) (.ok .done) ∧
      scene.Returns false (.create "k" [50]) (.error (.alreadyExists "k")) ∧
      scene.CreatesOnce {} .empty := by
  have nobody : Reached {} .empty (Scene.start .empty : Scene Bool) := .start
  have one := nobody.step
    (@Step.begins Bool _ {} _ true (.create "k" [49]) rfl fun key same => by cases same)
  have both := one.step
    (@Step.begins Bool _ {} _ false (.create "k" [50]) rfl fun key same => by cases same)
  have announced := both.goesOn true rfl (.announce _ _ _) trivial
  have leads := announced.goesOn true rfl (.act _ _ _) trivial
  have asks := leads.step (.posts (Service.does_alive true rfl (.work _ _ rfl (.send _ _))))
  have lacks := asks.step
    (@Step.grants Bool _ {} _ true (getRequest (Settings.nameOf {} "k")) ⟨404, "", []⟩ .empty rfl
      (fun failure member => by cases member) (.missing (ofRequest?_getRequest _) rfl rfl))
  have hears := lacks.step
    (.receives rfl (Service.does_alive true rfl (.work _ _ rfl (.receive _ _ _))))
  have writes := hears.step (.posts (Service.does_alive true rfl (.work _ _ rfl (.send _ _))))
  have written := writes.step
    (@Step.grants Bool _ {} _ true (putRequest (Settings.nameOf {} "k") (encodeValue [49] false))
      ⟨204, "", []⟩ _ rfl (fun failure member => by cases member) (.written (ofRequest?_putRequest _ _)))
  have announced' := written.goesOn false rfl (.announce _ _ _) trivial
  have follows := announced'.goesOn false rfl (.act _ _ _) trivial
  have hears' := follows.step
    (.receives rfl (Service.does_alive true rfl (.work _ _ rfl (.receive _ _ _))))
  have finished := hears'.goesOn true rfl (.finish _ _ rfl) trivial
  have published := finished.goesOn true rfl (.act _ _ _) trivial
  have left := published.goesOn true rfl (.act _ _ _) trivial
  have closed := left.goesOn true rfl (.act _ _ _) trivial
  have landed := closed.goesOn false rfl (.act _ _ _) trivial
  exact ⟨_, landed, ⟨_, rfl, rfl, rfl⟩, ⟨_, rfl, rfl, rfl⟩, creates_once landed⟩

end Scene

end SecretStore.CredHub
