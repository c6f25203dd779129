import Mathlib.Data.List.Induction
import SecretStore.Proofs.Http.Contract
import SecretStore.Proofs.Http.Reading

namespace SecretStore.Http

variable {α β : Type}

def Deed.warnings : Deed → List Log.Line
  | .logs line => if line.level = .warn then [line] else []
  | _ => []

structure Account where
  heard : List Response
  warned : List Log.Line

namespace Account

def empty : Account := ⟨[], []⟩

def record (account : Account) : Deed → Account
  | .logs line => if line.level = .warn then { account with warned := account.warned ++ [line] } else account
  | .receives _ response => { account with heard := account.heard ++ [response] }
  | _ => account

def ofDeeds (deeds : List Deed) : Account := deeds.foldl record empty

def IsQuiet (account : Account) : Prop := account.warned = []

theorem isQuiet_empty : empty.IsQuiet := rfl

theorem IsQuiet.hears {account : Account} (quiet : account.IsQuiet) (request : Request) (response : Response) :
    (account.record (.receives request response)).IsQuiet := quiet

theorem heard_record (account : Account) (request : Request) (response : Response) :
    response ∈ (account.record (.receives request response)).heard :=
  List.mem_append_right _ (List.mem_singleton_self _)

theorem record_warned (account : Account) (deed : Deed) :
    (account.record deed).warned = account.warned ++ deed.warnings := by
  cases deed with
  | logs line =>
      by_cases loud : line.level = .warn
      · simp only [record, Deed.warnings, loud, ↓reduceIte]
      · simp only [record, Deed.warnings, loud, ↓reduceIte, List.append_nil]
  | _ => exact (List.append_nil _).symm

theorem ofDeeds_snoc (deeds : List Deed) (deed : Deed) : ofDeeds (deeds ++ [deed]) = (ofDeeds deeds).record deed := by
  rw [ofDeeds, List.foldl_append]
  rfl

theorem ofDeeds_warned (deeds : List Deed) : (ofDeeds deeds).warned = deeds.flatMap Deed.warnings := by
  induction deeds using List.reverseRecOn with
  | nil => rfl
  | append_singleton deeds deed ih => simp [ofDeeds_snoc, record_warned, ih]

theorem received_of_heard {deeds : List Deed} {response : Response} (heard : response ∈ (ofDeeds deeds).heard) :
    ∃ request, .receives request response ∈ deeds := by
  induction deeds using List.reverseRecOn with
  | nil => cases heard
  | append_singleton deeds deed ih =>
      have old (heard : response ∈ (ofDeeds deeds).heard) : ∃ request, .receives request response ∈ deeds ++ [deed] :=
        (ih heard).imp fun request => List.mem_append_left _
      rw [ofDeeds_snoc] at heard
      cases deed with
      | receives request found =>
          rcases List.mem_append.1 heard with before | new
          · exact old before
          · rw [List.mem_singleton.1 new]
            exact ⟨request, List.mem_append_right _ (List.mem_singleton_self _)⟩
      | logs line =>
          rw [record] at heard
          split at heard <;> exact old heard
      | _ => exact old heard

end Account

namespace Program

/-- There is no warning before the program is done, and `post` holds of its record then. -/
def Reports (post : Account → α → Prop) : Program α → Account → Prop
  | .done value, account => post account value
  | .log line next, account => account.IsQuiet ∧ next.Reports post (account.record (.logs line))
  | .send request next, account | .await request next, account =>
    account.IsQuiet ∧
      (∀ failure, failure.isTransport = true → (next (.error failure)).Reports post account) ∧
      ∀ response, (next (.ok response)).Reports post (account.record (.receives request response))
  | .read taken body next, account =>
    account.IsQuiet ∧
      ∀ cancelled result, readOn cancelled taken body = .read result → (next result).Reports post account

variable {post : Account → α → Prop} {account : Account}

theorem Reports.bind {program : Program α} {next : α → Program β} {post : Account → β → Prop}
    (reports : program.Reports (fun account value => (next value).Reports post account) account) :
    (program >>= next).Reports post account := by
  change (program.bind next).Reports post account
  induction program generalizing account with
  | done value => exact reports
  | log line program ih => exact ⟨reports.1, ih reports.2⟩
  | send request rest ih | await request rest ih =>
      obtain ⟨quiet, failing, answered⟩ := reports
      exact ⟨quiet, fun failure outside => ih _ (failing failure outside), fun response => ih _ (answered response)⟩
  | read taken body rest ih =>
      exact ⟨reports.1, fun cancelled result reading => ih _ (reports.2 cancelled result reading)⟩

theorem Reports.imp {program : Program α} {weaker : Account → α → Prop} (reports : program.Reports post account)
    (implies : ∀ account value, post account value → weaker account value) : program.Reports weaker account := by
  induction program generalizing account with
  | done value => exact implies account value reports
  | log line program ih => exact ⟨reports.1, ih reports.2⟩
  | send request rest ih | await request rest ih =>
      obtain ⟨quiet, failing, answered⟩ := reports
      exact ⟨quiet, fun failure outside => ih _ (failing failure outside), fun response => ih _ (answered response)⟩
  | read taken body rest ih =>
      exact ⟨reports.1, fun cancelled result reading => ih _ (reports.2 cancelled result reading)⟩

variable {program after : Program α} {deed : Deed}

theorem Reports.quiet (reports : program.Reports post account) (goesOn : program.result? = none) :
    account.IsQuiet := by
  cases program with
  | done value => cases goesOn
  | log line next => exact reports.1
  | send request next => exact reports.1
  | await request next => exact reports.1
  | read taken body next => exact reports.1

theorem Step.goesOn (step : Step program deed after) : program.result? = none := by
  cases step <;> rfl

theorem Reports.step (reports : program.Reports post account) (step : Step program deed after) :
    after.Reports post (account.record deed) := by
  cases step with
  | log line next => exact reports.2
  | send request next => exact reports
  | refuse request next outside => exact reports.2.1 _ outside
  | receive request next response => exact reports.2.2 response
  | lose request next outside => exact reports.2.1 _ outside
  | read next reading => exact reports.2 _ _ reading
  | @wait next taken left body rest waiting =>
      -- A body that is waited for can be read only once it goes on, so no reading that is not cancelled ends here.
      refine ⟨reports.1, fun cancelled result reading => ?_⟩
      cases cancelled with
      | true => exact reports.2 true result reading
      | false => simp [readOn, takeChunks_waiting waiting] at reading

theorem Reports.steps {deeds : List Deed} (reports : program.Reports post account)
    (steps : Steps program deeds after) : after.Reports post (deeds.foldl Account.record account) := by
  induction steps generalizing account with
  | refl program => exact reports
  | head step steps ih => exact ih (reports.step step)

end Program

namespace Action

variable {account : Account}

theorem reports_bind {action : Action α} {next : α → Action β} {post : Account → Except Failure β → Prop}
    (reports : action.run.Reports
      (fun account result => match result with
        | .ok value => (next value).run.Reports post account
        | .error failure => post account (.error failure)) account) :
    (action >>= next).run.Reports post account := by
  apply Program.Reports.bind
  apply reports.imp
  intro later result holds
  cases result with
  | ok value => exact holds
  | error failure => exact holds

theorem reports_request {request : Request} {post : Account → Except Failure Response → Prop}
    (quiet : account.IsQuiet)
    (failing : ∀ failure, failure.isTransport = true → post account (.error failure))
    (answered : ∀ response, post (account.record (.receives request response)) (.ok response)) :
    (Action.request request).run.Reports post account :=
  ⟨quiet, failing, answered⟩

end Action

end SecretStore.Http
