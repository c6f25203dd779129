import SecretStore.Proofs.CredHub.Conduct
import SecretStore.Proofs.CredHub.Server
import SecretStore.Proofs.CredHub.Value

namespace SecretStore

namespace Http.Program

variable {α : Type}

theorem Meets.sent {contract : Contract Unit} {post : Unit → α → Prop} {program after : Program α}
    {deeds : List Deed} {request : Request} (allows : ∀ asked response, contract.answers asked response)
    (meets : program.Meets contract post ()) (steps : Steps program deeds after)
    (member : .sends request ∈ deeds) : contract.permits () request := by
  induction steps with
  | refl program => cases member
  | @head first second third deed deeds step steps ih =>
      cases deed with
      | sends asked =>
          obtain ⟨permitted, still, -⟩ := meets.sends step
          rcases List.mem_cons.1 member with same | later
          · cases same
            exact permitted
          · exact ih still later
      | receives asked response =>
          exact ih (meets.receives step (allows asked response)) (List.mem_of_ne_of_mem (by simp) member)
      | fails asked failure => exact ih (meets.fails step ()) (List.mem_of_ne_of_mem (by simp) member)
      | logs line => exact ih (meets.quiet step trivial) (List.mem_of_ne_of_mem (by simp) member)
      | reads result => exact ih (meets.quiet step trivial) (List.mem_of_ne_of_mem (by simp) member)
      | silent => exact ih (meets.quiet step trivial) (List.mem_of_ne_of_mem (by simp) member)

end Http.Program

namespace Json

def IsTextObject (entries : List (String × String)) (s : Bytes) : Prop :=
  ∃ parts, s = braced parts ∧ List.Forall₂ (fun entry part => ∃ name text, Spells entry.1.toList name ∧
    Spells entry.2.toList text ∧ part = membered name (quoted text)) entries parts

theorem isTextObject_writeRecord (entries : List (String × String)) :
    IsTextObject entries (Utf8.bytes (writeRecord entries)) := by
  refine ⟨entries.map textMember, bytes_writeRecord entries, ?_⟩
  rw [List.forall₂_map_right_iff]
  exact List.forall₂_same.2 fun entry _ => ⟨_, _, spells_write entry.1.toList, spells_write entry.2.toList, rfl⟩

end Json

namespace CredHub

open Http Http.Action Json

variable {settings : Settings} {key : String} {value : Bytes}

def entriesOf (settings : Settings) (key : String) (value : Bytes) : List (String × String) :=
  [("name", settings.nameOf key), ("type", "value"), ("value", encodeValue value settings.forceBase64)]

theorem whole_putBody (settings : Settings) (key : String) (value : Bytes) :
    Reader.value.whole (Utf8.bytes (putBody (settings.nameOf key) (encodeValue value settings.forceBase64))) =
      .ok (.object ((entriesOf settings key value).map fun entry => (entry.1, .text entry.2))) :=
  (reads_writeRecord (entriesOf settings key value) 126).whole

def writesOnly (write : Request) : Contract Unit where
  permits _ request := request.method = .put → request = write
  answers _ _ := True
  learn _ _ _ := ()

theorem put_writesOnly (settings : Settings) (key : String) (value : Bytes) :
    (put settings key value).run.Meets
      (writesOnly (putRequest (settings.nameOf key) (encodeValue value settings.forceBase64)))
      (fun _ _ => True) () :=
  meets_put (fun _ => rfl) (fun _ _ _ => trivial) (fun _ _ _ _ => trivial) fun _ _ _ => trivial

theorem get_writesOnly (settings : Settings) (key : String) (write : Request) :
    (get settings key).run.Meets (writesOnly write) (fun _ _ => True) () :=
  meets_get (fun writes => absurd writes (by simp [getRequest, Method.get, Method.put]))
    (fun _ _ _ => trivial) (fun _ _ _ _ => trivial) (fun _ _ _ => trivial) fun _ _ _ _ _ _ => trivial

theorem createWork_writesOnly (settings : Settings) (key : String) (value : Bytes) :
    (createWork settings key value).Meets
      (writesOnly (putRequest (settings.nameOf key) (encodeValue value settings.forceBase64)))
      (fun _ _ => True) () := by
  apply Program.Meets.bind
  refine (get_writesOnly settings key _).imp ?_
  intro _ found _
  cases found with
  | ok old => trivial
  | error failure =>
      cases failure with
      | notFound name => exact put_writesOnly settings key value
      | _ => trivial

theorem writing_writesOnly {call : Call} (writes : call ∈ [Call.set key value, .create key value]) :
    (program settings call).run.Meets
      (writesOnly (putRequest (settings.nameOf key) (encodeValue value settings.forceBase64)))
      (fun _ _ => True) () := by
  simp only [List.mem_cons, List.not_mem_nil, or_false] at writes
  rcases writes with rfl | rfl
  · refine meets_bind (Program.Meets.imp (put_writesOnly settings key value) ?_)
    intro _ result _
    cases result <;> trivial
  · have created : (ExceptT.mk (createWork settings key value) >>= fun _ => pure .done : Action Answer).run.Meets
        (writesOnly (putRequest (settings.nameOf key) (encodeValue value settings.forceBase64)))
        (fun _ _ => True) () := by
      refine meets_bind (Program.Meets.imp (createWork_writesOnly settings key value) ?_)
      intro _ result _
      cases result <;> trivial
    exact created

def versionBody (spelling : Bytes) : Bytes :=
  Server.single "data" (bracketed [Server.single "value" (quoted spelling)])

structure Lists (response : Response) (spelling : Bytes) : Prop where
  success : response.isSuccess = true
  whole : takeChunks [] response.body = .read (.ok (versionBody spelling))

structure Interchanged (writer reader : Settings) (key : String) (value : Bytes) : Prop where
  sets : ∃ line next, (program writer (.set key value)).run = .log line
    (.send (putRequest (credentialName reader.keyspace key) (encodeValue value writer.forceBase64)) next)
  writes : ∀ call ∈ [Call.set key value, .create key value], ∀ deeds after request,
    (program writer call).run.Steps deeds after → .sends request ∈ deeds → request.method = .put →
      ∃ body, request = ⟨.put, dataPath, some body⟩ ∧
        IsTextObject [("name", credentialName reader.keyspace key), ("type", "value"),
          ("value", encodeValue value writer.forceBase64)] body ∧
        Reader.value.whole body = .ok (.object [("name", .text (credentialName reader.keyspace key)),
          ("type", .text "value"), ("value", .text (encodeValue value writer.forceBase64))])
  reads : ∃ next,
    (program reader (.get key)).run = .send (getRequest (credentialName reader.keyspace key)) next ∧
      ∀ spelling, Spells (encodeValue value writer.forceBase64).toList spelling →
        ∀ response, Lists response spelling →
          ∀ {σ : Type} (host : Program.Host σ) (token : Token) (state : σ),
            host.isCancelled token state = false →
              Program.run host token (next (.ok response)) state = (.done (.ok (.value value)), state)

/-- A value that one store has written is read back by every store of the same namespace, in any spelling of its text
and in any chunks. -/
theorem interchanged {writer reader : Settings} (shared : writer.keyspace = reader.keyspace) (key : String)
    (value : Bytes) : Interchanged writer reader key value := by
  have name : writer.nameOf key = credentialName reader.keyspace key := by
    rw [Settings.nameOf, shared]
  constructor
  · rw [← name]
    exact ⟨_, _, rfl⟩
  · intro call writes deeds after request steps sent isPut
    have same := (writing_writesOnly writes).sent (fun _ _ => trivial) steps sent isPut
    rw [← name]
    exact ⟨_, same, isTextObject_writeRecord (entriesOf writer key value), whole_putBody writer key value⟩
  · refine ⟨_, rfl, ?_⟩
    intro spelling spelled response lists σ host token state awake
    have read := reads_text spelled
    rw [String.ofList_toList] at read
    have ended : readOn (host.isCancelled token state) [] response.body =
        .read (.ok (versionBody spelling)) := by
      rw [awake]
      exact lists.whole
    have found := runs_readJson ended (Server.reads_version read)
    change Runs host token ((do
      if response.isNotFound then throw (.notFound key)
      if !response.isSuccess then refuse getOperation response
      ofResult (soleVersion key (← readJson versionsReader response)) : Action Bytes) >>=
        fun value => pure (Answer.value value)) state (.ok (Answer.value value)) state
    simp only [isNotFound_of_isSuccess lists.success, lists.success, Bool.not_true, Bool.false_eq_true,
      ↓reduceIte]
    have sole : soleVersion key [encodeValue value writer.forceBase64] = .ok value :=
      decodeValue_encodeValue value writer.forceBase64
    refine .bind (.bind found ?_) (runs_pure host token _ state)
    rw [sole]
    exact runs_ofResult host token (.ok value) state

theorem interchanged_escaped :
    let writer : Settings := { keyspace := "/c" }
    let reader : Settings := { keyspace := "/c", forceBase64 := true }
    let value := Utf8.bytes "😀\""
    let spelling := Utf8.bytes "\\uD83D\\ude00\\u0022"
    let response : Response :=
      ⟨201, "", [.octets ((versionBody spelling).take 20), .octets ((versionBody spelling).drop 20)]⟩
    writer.keyspace = reader.keyspace ∧ Spells (encodeValue value false).toList spelling ∧
      Lists response spelling ∧
      ∃ next, (program reader (.get "k")).run = .send (getRequest (credentialName "/c" "k")) next ∧
        Program.run Server.plain.host "" (next (.ok response)) .empty =
          (.done (.ok (.value value)), .empty) := by
  intro writer reader value spelling response
  have text : (encodeValue value false).toList = ['😀', '"'] := by decide +kernel
  have octets : spelling = (backslash :: octet 'u' :: [68, 56, 51, 68] ++
      backslash :: octet 'u' :: [100, 101, 48, 48]) ++ (backslash :: octet 'u' :: [48, 48, 50, 50] ++ []) := by
    decide +kernel
  have high : HexUnit [68, 56, 51, 68] (((13 * 16 + 8) * 16 + 3) * 16 + 13) := .digits rfl rfl rfl rfl
  have low : HexUnit [100, 101, 48, 48] (((13 * 16 + 14) * 16 + 0) * 16 + 0) := .digits rfl rfl rfl rfl
  have unit : HexUnit [48, 48, 50, 50] (((0 * 16 + 0) * 16 + 2) * 16 + 2) := .digits rfl rfl rfl rfl
  have spelled : Spells (encodeValue value false).toList spelling := by
    rw [text, octets]
    exact .cons (.pair high low (by decide) (by decide) (by decide) (by decide) rfl) (.cons (.unit unit) .nil)
  have lists : Lists response spelling := ⟨rfl, by simp [response, takeChunks]⟩
  obtain ⟨next, asks, read⟩ := (@interchanged writer reader rfl "k" value).reads
  exact ⟨rfl, spelled, lists, next, asks, read spelling spelled response lists Server.plain.host "" .empty rfl⟩

end CredHub

end SecretStore
