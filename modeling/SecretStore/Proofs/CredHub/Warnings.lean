import Mathlib.Data.List.Perm.Basic
import SecretStore.Proofs.CredHub.Ledger

namespace SecretStore.CredHub

open Http

/-- The warnings due for a result: one for a remote failure, unless the status of the reply was a success. -/
def due : Except Failure Unit → List Log.Line
  | .error (.remote operation status _ _) =>
    if operation = healthOperation ∧ 200 ≤ status ∧ status ≤ 299 then [] else [warning operation status]
  | _ => []

theorem Fits.warned {α : Type} {account : Account} {result : Except Failure α} (fits : Fits account result)
    (fair : account.IsFair) : account.warned = due (result.map fun _ => ()) := by
  have nothing (quiet : account.IsQuiet) (other : ∀ operation status reason text,
      result ≠ .error (.remote operation status reason text)) : account.warned = due (result.map fun _ => ()) := by
    rw [quiet]
    cases result with
    | ok value => rfl
    | error failure =>
        cases failure with
        | remote operation status reason text => exact absurd rfl (other operation status reason text)
        | _ => rfl
  cases fits with
  | refused heard failed transcribes warned =>
      rw [warned, Except.map, due, if_neg fun healthy => failed healthy.2]
  | unhealthy heard success whole quiet =>
      rw [quiet, Except.map, due, if_pos ⟨rfl, success⟩]
  | passedOn heard member quiet =>
      refine nothing quiet fun operation status reason text same => ?_
      cases same
      cases fair _ heard _ member
  | plain other quiet => exact nothing quiet other

variable {ι : Type} {settings : Settings}

def Moment.warnings (moment : Moment ι) : List Log.Line :=
  match moment.deed with
  | some (_, deed) => deed.warnings
  | none => []

def warnings (past : List (Moment ι)) : List Log.Line := past.flatMap (·.warnings)

variable [DecidableEq ι]

def Moment.warned (moment : Moment ι) (id : ι) : List Log.Line := (moment.deeds id).flatMap Deed.warnings

def warned (past : List (Moment ι)) (id : ι) : List Log.Line := past.flatMap (·.warned id)

variable {past : List (Moment ι)} {service after : Service ι} {deed : Option (ι × Deed)}

theorem accountOf_warned (past : List (Moment ι)) (id : ι) : (accountOf past id).warned = warned past id := by
  rw [accountOf, Account.ofDeeds_warned, List.flatMap_assoc]
  rfl

structure AreCalls (past : List (Moment ι)) (service : Service ι) (calls : List ι) : Prop where
  once : calls.Nodup
  present : ∀ id, id ∈ calls ↔ (service.visits id).isSome
  acted : ∀ moment ∈ past, ∀ id deed, moment.deed = some (id, deed) → id ∈ calls

theorem AreCalls.place {calls : List ι} (areCalls : AreCalls past service calls) {id : ι} {visit : Visit}
    {creates : Creates} (doer : ∀ other deed', deed = some (other, deed') → other = id) :
    AreCalls (past ++ [⟨service, deed⟩]) (service.place id visit creates) (calls.insert id) where
  once := areCalls.once.insert
  present other := by
    rw [Service.place_visits, List.mem_insert_iff, areCalls.present]
    by_cases same : other = id <;> simp [same]
  acted moment member other deed' did := by
    rcases List.mem_append.1 member with old | new
    · exact List.mem_insert_of_mem (areCalls.acted moment old other deed' did)
    · rw [List.mem_singleton.1 new] at did
      rw [doer other deed' did]
      exact List.mem_insert_self

theorem warnings_perm {calls : List ι} (once : calls.Nodup)
    (all : ∀ moment ∈ past, ∀ id deed, moment.deed = some (id, deed) → id ∈ calls) :
    (warnings past).Perm (calls.flatMap (warned past)) := by
  induction past with
  | nil => simp [warnings, warned]
  | cons moment past ih =>
      have rest := ih fun moment member => all moment (List.mem_cons_of_mem _ member)
      -- Only the call whose step it is adds to the warnings, and it is among the calls once.
      have first : calls.flatMap moment.warned = moment.warnings := by
        obtain ⟨service, deed⟩ := moment
        cases deed with
        | none => simp [Moment.warned, Moment.deeds, Moment.warnings]
        | some done =>
            obtain ⟨id, deed⟩ := done
            obtain ⟨front, back, rfl⟩ := List.append_of_mem (all _ (List.mem_cons_self ..) id deed rfl)
            have apart : id ∉ front ++ back := (List.nodup_middle.1 once).notMem
            have others (part : List ι) (within : part ⊆ front ++ back) :
                part.flatMap (Moment.mk service (some (id, deed))).warned = [] := by
              refine List.flatMap_eq_nil_iff.2 fun other member => ?_
              have different : other ≠ id := by
                rintro rfl
                exact apart (within member)
              rw [Moment.warned, Moment.deeds_other service different deed, List.flatMap_nil]
            rw [List.flatMap_append, List.flatMap_cons, others front (List.subset_append_left ..),
              others back (List.subset_append_right ..), Moment.warned, Moment.deeds_own]
            simp [Moment.warnings]
      have parted := List.flatMap_append_perm calls moment.warned (warned past)
      rw [first] at parted
      exact (rest.append_left moment.warnings).trans parted

structure WarnedOnce (past : List (Moment ι)) (service : Service ι) : Prop where
  by_result : ∀ id, warned past id = (resultOf? past service id).elim [] due
  ended : ∀ {id visit outcome}, service.visits id = some visit → visit.task.outcome? = some outcome →
    ComesTo past service id visit.call outcome
  in_all : ∃ calls : List ι, calls.Nodup ∧ (∀ id, id ∈ calls ↔ (service.visits id).isSome) ∧
    (warnings past).Perm (calls.flatMap fun id => (resultOf? past service id).elim [] due)

namespace Course

theorem calls (course : Course settings past service) : ∃ calls, AreCalls past service calls := by
  induction course with
  | start => exact ⟨[], List.nodup_nil, fun id => by simp [Service.empty], fun moment member => by cases member⟩
  | step course goes ih =>
      obtain ⟨calls, areCalls⟩ := ih
      cases goes with
      | begins call free => exact ⟨_, areCalls.place fun other deed' same => by cases same⟩
      | does fair does =>
          obtain ⟨visit, task, creates, here, -, step, rfl⟩ := does
          exact ⟨_, areCalls.place fun other deed' same => by cases same; rfl⟩
      | drops drops =>
          obtain ⟨visit, task, here, abandons, rfl⟩ := drops
          exact ⟨_, areCalls.place fun other deed' same => by cases same⟩

theorem by_result (course : Course settings past service) (id : ι) :
    warned past id = (resultOf? past service id).elim [] due := by
  rw [← accountOf_warned]
  cases found : resultOf? past service id with
  | none => exact course.quiet found
  | some result =>
      obtain ⟨fair, fits⟩ := course.fits found
      rw [fits.warned fair]
      cases result <;> rfl

/-- In every course each remote failure is warned of once, by the call that has received it, unless the status of the
reply was a success. There are no other warnings. -/
theorem warned_once (course : Course settings past service) : WarnedOnce past service where
  by_result := course.by_result
  ended := course.comesTo
  in_all := by
    obtain ⟨calls, areCalls⟩ := course.calls
    refine ⟨calls, areCalls.once, areCalls.present, ?_⟩
    rw [← funext course.by_result]
    exact warnings_perm areCalls.once areCalls.acted

theorem warned_once_refused :
    ∃ (past : List (Moment Bool)) (service : Service Bool), Course {} past service ∧ WarnedOnce past service ∧
      (∀ id, (service.visits id).bind (·.task.outcome?) =
        some (.error (.remote "get entry" 503 "Service Unavailable" ""))) ∧
      warned past true = [.warn "credhub: failed to get entry (status: 503)"] ∧ warned past false = [] := by
  have nobody : Course {} [] (Service.empty : Service Bool) := .start
  have one := nobody.step (@Service.Goes.begins Bool _ {} _ true (.create "k" [49]) rfl)
  have both := one.step (@Service.Goes.begins Bool _ {} _ false (.create "k" [50]) rfl)
  have announced := both.goesOn true rfl (.announce _ _ _) trivial
  have leads := announced.goesOn true rfl (.act _ _ _) trivial
  have announced' := leads.goesOn false rfl (.announce _ _ _) trivial
  have follows := announced'.goesOn false rfl (.act _ _ _) trivial
  have asks := follows.goesOn true rfl (.work _ _ rfl (.send _ _)) trivial
  have refused := asks.goesOn true rfl (.work _ _ rfl (.receive _ _ ⟨503, "Service Unavailable", []⟩))
    (fun _ member => by cases member)
  have read := refused.goesOn true rfl (.work _ _ rfl (@Program.Step.read _ _ false _ _ _ rfl)) trivial
  have warns := read.goesOn true rfl (.work _ _ rfl (.log _ _)) trivial
  have finished := warns.goesOn true rfl (.finish _ _ rfl) trivial
  have published := finished.goesOn true rfl (.act _ _ _) trivial
  have left := published.goesOn true rfl (.act _ _ _) trivial
  have closed := left.goesOn true rfl (.act _ _ _) trivial
  have landed := closed.goesOn false rfl (.act _ _ _) trivial
  exact ⟨_, _, landed, warned_once landed, fun id => by cases id <;> rfl, rfl, rfl⟩

/-- An unhealthy reply with status 200 is a remote failure without a warning. -/
theorem unhealthy_unwarned :
    ∃ (past : List (Moment Unit)) (service : Service Unit), Course {} past service ∧
      (service.visits ()).bind (·.task.outcome?) =
        some (.error (.remote "check health" 200 "OK" "\x7b\"status\":\"DOWN\"\x7d")) ∧
      warnings past = [] := by
  have nobody : Course {} [] (Service.empty : Service Unit) := .start
  have begun := nobody.step (@Service.Goes.begins Unit _ {} _ () .status rfl)
  have asks := begun.goesOn () rfl (.plain _ (.send _ _)) trivial
  have answered := asks.goesOn () rfl
    (.plain _ (.receive _ _ (.ofBytes 200 "OK" (Utf8.bytes "\x7b\"status\":\"DOWN\"\x7d"))))
    (fun failure member => by cases member with | tail _ member => cases member)
  have read := answered.goesOn () rfl (.plain _ (@Program.Step.read _ _ false _ _ _ rfl)) trivial
  have decodes : Action.decode healthReader (Utf8.bytes "\x7b\"status\":\"DOWN\"\x7d") = .ok "DOWN" :=
    congrArg (Except.mapError _)
      (show healthReader.whole (Utf8.bytes "\x7b\"status\":\"DOWN\"\x7d") = .ok "DOWN" by decide +kernel)
  refine ⟨_, _, read, ?_, rfl⟩
  rw [Service.place_visits_self, Option.bind_some, Task.outcome?, List.nil_append]
  simp only [Program.bind, ExceptT.bindCont, decodes]
  exact congrArg (fun text => some (Except.error (Failure.remote "check health" 200 "OK" text)))
    (Utf8.lossy_bytes "\x7b\"status\":\"DOWN\"\x7d")

end Course

end SecretStore.CredHub
