import Mathlib.Data.List.Nodup
import Mathlib.Logic.Function.Basic
import SecretStore.CredHub.Session
import SecretStore.Proofs.CredHub.Server
import SecretStore.Proofs.CredHub.Value

namespace SecretStore.CredHub

open Http

abbrev Contents := String → Option Bytes

inductive Operation where
  | create (key : String) (value : Bytes)
  | set (key : String) (value : Bytes)
  | get (key : String)
  | delete (key : String)
  | list
  deriving DecidableEq, Repr

def Operation.call : Operation → Call
  | .create key value => .create key value
  | .set key value => .set key value
  | .get key => .get key
  | .delete key => .delete key
  | .list => .list

namespace Contents

def write (contents : Contents) (key : String) (value : Bytes) : Contents :=
  Function.update contents key (some value)

def erase (contents : Contents) (key : String) : Contents := Function.update contents key none

/-- The outcomes of an operation on a map, with the map after it. Keys are listed in any order, each once. -/
inductive Answers (contents : Contents) : Operation → Outcome → Contents → Prop where
  | created {key : String} (value : Bytes) :
      contents key = none → Answers contents (.create key value) (.ok .done) (contents.write key value)
  | taken {key : String} {old : Bytes} (value : Bytes) :
      contents key = some old →
      Answers contents (.create key value) (.error (.alreadyExists key)) contents
  | written (key : String) (value : Bytes) :
      Answers contents (.set key value) (.ok .done) (contents.write key value)
  | found {key : String} {value : Bytes} :
      contents key = some value → Answers contents (.get key) (.ok (.value value)) contents
  | missing {key : String} :
      contents key = none → Answers contents (.get key) (.error (.notFound key)) contents
  | deleted {key : String} {old : Bytes} :
      contents key = some old → Answers contents (.delete key) (.ok .done) (contents.erase key)
  | absent {key : String} :
      contents key = none → Answers contents (.delete key) (.error (.notFound key)) contents
  | listed {keys : List String} :
      keys.Nodup → (∀ key, key ∈ keys ↔ contents key ≠ none) →
      Answers contents .list (.ok (.keys keys)) contents

inductive Spares (contents : Contents) : Operation → Prop where
  | get (key : String) : Spares contents (.get key)
  | create {key : String} {old : Bytes} (value : Bytes) : contents key = some old →
      Spares contents (.create key value)
  | delete {key : String} : contents key = none → Spares contents (.delete key)
  | list : Spares contents .list

inductive AnswersAll : Contents → List Operation → List Outcome → Contents → Prop where
  | nil (contents : Contents) : AnswersAll contents [] [] contents
  | cons {before middle after : Contents} {operation : Operation} {operations : List Operation}
      {outcome : Outcome} {outcomes : List Outcome} :
      before.Answers operation outcome middle → AnswersAll middle operations outcomes after →
      AnswersAll before (operation :: operations) (outcome :: outcomes) after

end Contents

namespace Server

def perform (server : Server) (settings : Settings) (token : Token) (operation : Operation)
    (creates : Creates) (vault : Vault) : Option Outcome × Creates × Vault :=
  let (task, creates, vault) :=
    (Task.start settings operation.call).poll server.host settings token creates vault
  (task.outcome?, creates, vault)

def performAll (server : Server) (settings : Settings) :
    List (Token × Operation) → Creates → Vault → List (Option Outcome) × Creates × Vault
  | [], creates, vault => ([], creates, vault)
  | (token, operation) :: rest, creates, vault =>
    let (outcome, creates, vault) := server.perform settings token operation creates vault
    let (outcomes, creates, vault) := server.performAll settings rest creates vault
    (outcome :: outcomes, creates, vault)

end Server

/-- The texts under the names of the keys encode the values, in either way. There may be other names. -/
def Vault.Keeps (vault : Vault) (settings : Settings) (contents : Contents) : Prop :=
  ∀ key, match contents key with
    | none => vault.text? (settings.nameOf key) = none
    | some value => ∃ force, vault.text? (settings.nameOf key) = some (encodeValue value force)

namespace Vault.Keeps

variable {vault : Vault} {settings : Settings} {contents : Contents} {key : String}

theorem text?_none (keeps : vault.Keeps settings contents) (absent : contents key = none) :
    vault.text? (settings.nameOf key) = none := by
  have kept := keeps key
  rwa [absent] at kept

theorem text?_some (keeps : vault.Keeps settings contents) {value : Bytes}
    (present : contents key = some value) :
    ∃ force, vault.text? (settings.nameOf key) = some (encodeValue value force) := by
  have kept := keeps key
  rwa [present] at kept

theorem text?_eq_none_iff (keeps : vault.Keeps settings contents) :
    vault.text? (settings.nameOf key) = none ↔ contents key = none := by
  cases kept : contents key with
  | none => simp [keeps.text?_none kept]
  | some value =>
      obtain ⟨force, text⟩ := keeps.text?_some kept
      simp [text]

theorem write (keeps : vault.Keeps settings contents) (key : String) (value : Bytes) (force : Bool) :
    (vault.write (settings.nameOf key) (encodeValue value force)).Keeps settings
      (contents.write key value) := by
  intro other
  rcases eq_or_ne other key with rfl | different
  · simp only [Contents.write, Function.update_self]
    exact ⟨force, by simp⟩
  · have kept := keeps other
    simpa [Contents.write, different, nameOf_inj] using kept

theorem erase (keeps : vault.Keeps settings contents) (key : String) :
    (vault.remove (settings.nameOf key)).Keeps settings (contents.erase key) := by
  intro other
  rcases eq_or_ne other key with rfl | different
  · simp [Contents.erase]
  · have kept := keeps other
    simpa [Contents.erase, different, nameOf_inj] using kept

end Vault.Keeps

section Operations

variable {server : Server} {settings : Settings} {contents : Contents} {token : Token} {key : String}
  {value : Bytes} {vault : Vault}

theorem get_nothing (absent : vault.text? (settings.nameOf key) = none) :
    Action.Runs server.host token (get settings key) vault (.error (.notFound key)) vault := by
  have answered : Program.Answered server.host token (getRequest (settings.nameOf key)) vault _ _ :=
    Server.answered (ofRequest?_getRequest (settings.nameOf key))
  simp only [Server.grant, absent] at answered
  exact get_missing answered rfl

theorem get_text {text : String} (present : vault.text? (settings.nameOf key) = some text) :
    Action.Runs server.host token (get settings key) vault (decodeValue text) vault := by
  have answered : Program.Answered server.host token (getRequest (settings.nameOf key)) vault _ _ :=
    Server.answered (ofRequest?_getRequest (settings.nameOf key))
  simp only [Server.grant, present] at answered
  exact get_read answered rfl rfl (server.reads_versionsBody _)

theorem get_absent (keeps : vault.Keeps settings contents) (absent : contents key = none) :
    Action.Runs server.host token (get settings key) vault (.error (.notFound key)) vault :=
  get_nothing (keeps.text?_none absent)

theorem get_present (keeps : vault.Keeps settings contents) (present : contents key = some value) :
    Action.Runs server.host token (get settings key) vault (.ok value) vault := by
  obtain ⟨force, text⟩ := keeps.text?_some present
  have runs : Action.Runs server.host token (get settings key) vault _ vault := get_text text
  rwa [decodeValue_encodeValue] at runs

theorem put_writes (settings : Settings) (key : String) (value : Bytes) (vault : Vault) :
    Action.Runs server.host token (put settings key value) vault (.ok ())
      (vault.write (settings.nameOf key) (encodeValue value settings.forceBase64)) :=
  put_done (Server.answered (ofRequest?_putRequest _ _)) rfl

theorem delete_nothing (absent : vault.text? (settings.nameOf key) = none) :
    Action.Runs server.host token (delete settings key) vault (.error (.notFound key)) vault := by
  have answered : Program.Answered server.host token (deleteRequest (settings.nameOf key)) vault _ _ :=
    Server.answered (ofRequest?_deleteRequest (settings.nameOf key))
  simp only [Server.grant, absent] at answered
  exact delete_missing answered rfl

theorem delete_text {text : String} (present : vault.text? (settings.nameOf key) = some text) :
    Action.Runs server.host token (delete settings key) vault (.ok ())
      (vault.remove (settings.nameOf key)) := by
  have answered : Program.Answered server.host token (deleteRequest (settings.nameOf key)) vault _ _ :=
    Server.answered (ofRequest?_deleteRequest (settings.nameOf key))
  simp only [Server.grant, present] at answered
  have success : (Response.ofBytes server.removed "" []).isSuccess = true := by
    simp [Response.isSuccess, Response.ofBytes, server.removes]
  exact delete_done answered success

theorem delete_absent (keeps : vault.Keeps settings contents) (absent : contents key = none) :
    Action.Runs server.host token (delete settings key) vault (.error (.notFound key)) vault :=
  delete_nothing (keeps.text?_none absent)

theorem delete_present (keeps : vault.Keeps settings contents) (present : contents key = some value) :
    Action.Runs server.host token (delete settings key) vault (.ok ())
      (vault.remove (settings.nameOf key)) := by
  obtain ⟨force, text⟩ := keeps.text?_some present
  exact delete_text text

theorem list_keys (settings : Settings) (vault : Vault) :
    Action.Runs server.host token (list settings) vault
      (.ok ((server.arrange (vault.names (settings.keyspace ++ "/"))).map
        (bareKey (settings.keyspace ++ "/")))) vault :=
  list_read (Server.answered (ofRequest?_listRequest _)) rfl rfl (server.reads_namesBody _)

theorem nodup_keys (server : Server) (settings : Settings) (vault : Vault) :
    ((server.arrange (vault.names (settings.keyspace ++ "/"))).map
      (bareKey (settings.keyspace ++ "/"))).Nodup := by
  refine List.Nodup.map_on ?_ ((server.arranges _).nodup_iff.mpr (vault.nodup_names _))
  intro first firstMember second secondMember same
  rw [(server.arranges _).mem_iff, Vault.mem_names, under_path_iff] at firstMember secondMember
  obtain ⟨⟨firstKey, rfl⟩, _⟩ := firstMember
  obtain ⟨⟨secondKey, rfl⟩, _⟩ := secondMember
  rw [bareKey_nameOf, bareKey_nameOf] at same
  rw [same]

theorem mem_keys (keeps : vault.Keeps settings contents) (key : String) :
    key ∈ (server.arrange (vault.names (settings.keyspace ++ "/"))).map
      (bareKey (settings.keyspace ++ "/")) ↔ contents key ≠ none := by
  rw [List.mem_map]
  constructor
  · rintro ⟨name, member, rfl⟩
    rw [(server.arranges _).mem_iff, Vault.mem_names, under_path_iff] at member
    obtain ⟨⟨key, rfl⟩, kept⟩ := member
    rw [bareKey_nameOf]
    exact fun absent => kept (keeps.text?_none absent)
  · intro present
    refine ⟨settings.nameOf key, ?_, bareKey_nameOf settings key⟩
    rw [(server.arranges _).mem_iff, Vault.mem_names, under_path_iff]
    exact ⟨⟨key, rfl⟩, fun absent => present (keeps.text?_eq_none_iff.mp absent)⟩

end Operations

theorem poll_alone {σ W V : Type} {advance : W → σ → Flight.Progress W V × σ} (key : String) {work : W}
    {table : Flight.Table V} {state after : σ} {value : V} (nobody : table.entries = [])
    (works : advance work state = (.finished value, after)) :
    ∃ left, left.entries = [] ∧
      (Flight.Caller.arrive key work).poll advance table state =
        (⟨key, work, .returned value false⟩, left, after) := by
  have free : table.flight? key = none := by simp [Flight.Table.flight?, nobody]
  let flight := table.channels.length
  refine ⟨(((table.join key).2.publish flight value).leave key).close flight, ?_, ?_⟩
  · simp [Flight.Table.close, Flight.Table.leave, Flight.Table.publish, Flight.Table.update,
      Flight.Table.join, free, nobody]
  · simp only [Flight.Caller.poll, Flight.mostSteps, Flight.Caller.run, Flight.Caller.arrive,
      Flight.Caller.act, Flight.Table.join, free, works, Flight.Caller.progress, flight]

theorem perform_plain {server : Server} {settings : Settings} {token : Token} {operation : Operation}
    {creates : Creates} {vault after : Vault} {outcome : Outcome}
    (plain : Task.start settings operation.call = .plain (program settings operation.call))
    (runs : Action.Runs server.host token (program settings operation.call) vault outcome after) :
    server.perform settings token operation creates vault = (some outcome, creates, after) := by
  have run : Program.run server.host token (program settings operation.call) vault =
    (.done outcome, after) := runs
  rw [Server.perform, plain, Task.poll, run]
  rfl

theorem perform_create {server : Server} {settings : Settings} {token : Token} {key : String}
    {value : Bytes} {creates : Creates} {vault after : Vault} {result : Except Failure Unit}
    (nobody : creates.entries = [])
    (runs : Program.Runs server.host token (createWork settings key value) vault result after) :
    ∃ left : Creates, left.entries = [] ∧
      server.perform settings token (.create key value) creates vault =
        (some (createOutcome key false result), left, after) := by
  have works : advance server.host token (createWork settings key value) vault =
      (.finished result, after) := by rw [advance, runs]
  obtain ⟨left, empty, polled⟩ := poll_alone (settings.nameOf key) nobody works
  refine ⟨left, empty, ?_⟩
  have logged : server.host.log (createLine settings key) vault = vault := rfl
  simp only [Server.perform, Operation.call, Task.start, Task.poll, Bool.false_eq_true, ↓reduceIte,
    logged, polled]
  rfl

namespace Server

theorem perform_spares (server : Server) (settings : Settings) (token : Token) {operation : Operation}
    {creates : Creates} {vault : Vault} {contents : Contents} (nobody : creates.entries = [])
    (keeps : vault.Keeps settings contents) (spares : contents.Spares operation) :
    ∃ outcome left, left.entries = [] ∧ contents.Answers operation outcome contents ∧
      server.perform settings token operation creates vault = (some outcome, left, vault) := by
  cases spares with
  | get key =>
      cases present : contents key with
      | none =>
          exact ⟨_, creates, nobody, .missing present, perform_plain rfl (.fail (get_absent keeps present))⟩
      | some value =>
          exact ⟨_, creates, nobody, .found present,
            perform_plain rfl (.bind (get_present keeps present) (Action.runs_pure _ _ _ _))⟩
  | create value present =>
      obtain ⟨left, empty, performed⟩ := perform_create nobody
        (createWork_taken (get_present keeps present))
      exact ⟨_, left, empty, .taken value present, performed⟩
  | delete absent =>
      exact ⟨_, creates, nobody, .absent absent, perform_plain rfl (.fail (delete_absent keeps absent))⟩
  | list =>
      exact ⟨_, creates, nobody, .listed (nodup_keys server settings vault) (mem_keys keeps),
        perform_plain rfl (.bind (list_keys settings vault) (Action.runs_pure _ _ _ _))⟩

theorem perform_answers (server : Server) (settings : Settings) (token : Token) (operation : Operation)
    {creates : Creates} {vault : Vault} {contents : Contents} (nobody : creates.entries = [])
    (keeps : vault.Keeps settings contents) :
    ∃ outcome left after kept, left.entries = [] ∧ after.Keeps settings kept ∧
      contents.Answers operation outcome kept ∧
      server.perform settings token operation creates vault = (some outcome, left, after) := by
  have spared (spares : contents.Spares operation) : ∃ outcome left after kept, left.entries = [] ∧
      after.Keeps settings kept ∧ contents.Answers operation outcome kept ∧
      server.perform settings token operation creates vault = (some outcome, left, after) := by
    obtain ⟨outcome, left, empty, answers, performed⟩ :=
      server.perform_spares settings token nobody keeps spares
    exact ⟨outcome, left, vault, contents, empty, keeps, answers, performed⟩
  cases operation with
  | create key value =>
      cases present : contents key with
      | none =>
          obtain ⟨left, empty, performed⟩ := perform_create nobody
            (createWork_written (get_absent keeps present) (put_writes settings key value vault))
          exact ⟨_, left, _, _, empty, keeps.write key value settings.forceBase64,
            .created value present, performed⟩
      | some old => exact spared (.create value present)
  | set key value =>
      have written : Action.Runs server.host token (set settings key value) vault _ _ :=
        set_done (put_writes settings key value vault)
      exact ⟨_, creates, _, _, nobody, keeps.write key value settings.forceBase64, .written key value,
        perform_plain rfl (.bind written (Action.runs_pure _ _ _ _))⟩
  | get key => exact spared (.get key)
  | delete key =>
      cases present : contents key with
      | none => exact spared (.delete present)
      | some old =>
          exact ⟨_, creates, _, _, nobody, keeps.erase key, .deleted present,
            perform_plain rfl (.bind (delete_present keeps present) (Action.runs_pure _ _ _ _))⟩
  | list => exact spared .list

theorem performAll_answers (server : Server) (settings : Settings)
    (operations : List (Token × Operation)) {creates : Creates} {vault : Vault} {contents : Contents}
    (nobody : creates.entries = []) (keeps : vault.Keeps settings contents) :
    ∃ outcomes left after kept, left.entries = [] ∧ after.Keeps settings kept ∧
      contents.AnswersAll (operations.map (·.2)) outcomes kept ∧
      server.performAll settings operations creates vault = (outcomes.map some, left, after) := by
  induction operations generalizing creates vault contents with
  | nil => exact ⟨[], creates, vault, contents, nobody, keeps, .nil contents, rfl⟩
  | cons entry operations ih =>
      obtain ⟨token, operation⟩ := entry
      obtain ⟨outcome, middle, during, holds, free, stays, answers, performed⟩ :=
        server.perform_answers settings token operation nobody keeps
      obtain ⟨outcomes, left, after, kept, empty, keeps, others, rest⟩ := ih free stays
      refine ⟨outcome :: outcomes, left, after, kept, empty, keeps, .cons answers others, ?_⟩
      rw [performAll, performed]
      simp only [rest, List.map_cons]

/-- A sequence of calls on a server that holds a map has the outcomes of the same operations on the map. The server
holds the resulting map, and no creation is in flight. -/
theorem refines_contents (server : Server) (settings : Settings)
    (operations : List (Token × Operation)) {vault : Vault} {contents : Contents}
    (keeps : vault.Keeps settings contents) :
    ∃ outcomes left after kept,
      server.performAll settings operations .empty vault = (outcomes.map some, left, after) ∧
        contents.AnswersAll (operations.map (·.2)) outcomes kept ∧ after.Keeps settings kept ∧
        left.inFlight = 0 := by
  have nobody : (Flight.Table.empty : Creates).entries = [] := rfl
  obtain ⟨outcomes, left, after, kept, empty, keeps, answers, performed⟩ :=
    server.performAll_answers settings operations nobody keeps
  exact ⟨outcomes, left, after, kept, performed, answers, keeps, by rw [Flight.Table.inFlight, empty]; rfl⟩

theorem refines_contents_stocked :
    let settings : Settings := { keyspace := "/c", forceBase64 := true }
    let foreign : Vault := ⟨[("/other/a", "x")], by decide⟩
    let vault := (foreign.write (settings.nameOf "a\"b") (encodeValue [104, 105] false)).write
      (settings.nameOf "") (encodeValue [255] true)
    let contents := (Contents.write (fun _ => none) "a\"b" [104, 105]).write "" [255]
    let operations : List (Token × Operation) :=
      [("t", .create "a\"b" [1]), ("u", .get "a\"b"), ("t", .delete ""), ("t", .create "" [2]), ("t", .list)]
    vault.Keeps settings contents ∧ ∃ outcomes left after kept,
      plain.performAll settings operations .empty vault = (outcomes.map some, left, after) ∧
        contents.AnswersAll (operations.map (·.2)) outcomes kept ∧ after.Keeps settings kept ∧
        left.inFlight = 0 := by
  intro settings foreign vault contents operations
  have bare : foreign.Keeps settings fun _ => none := by
    intro key
    have other : settings.nameOf key ≠ "/other/a" := by
      intro same
      have lists := congrArg String.toList same
      rw [toList_nameOf] at lists
      simp [settings] at lists
    have unequal : (settings.nameOf key == "/other/a") = false := beq_false_of_ne other
    simp only [foreign, Vault.text?, List.lookup_cons, List.lookup_nil, unequal]
  have keeps : vault.Keeps settings contents := (bare.write _ _ _).write _ _ _
  exact ⟨keeps, plain.refines_contents settings operations keeps⟩

end Server

end SecretStore.CredHub
