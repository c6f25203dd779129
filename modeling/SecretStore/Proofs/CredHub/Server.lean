import Mathlib.Data.List.Forall2
import SecretStore.Proofs.CredHub.Operation
import SecretStore.Proofs.Json.Written

namespace SecretStore.CredHub

open Http Json

inductive Wish where
  | read (name : String)
  | write (name text : String)
  | remove (name : String)
  | find (path : String)
  deriving DecidableEq, Repr

def rest? (front text : String) : Option String :=
  (Search.after? front.toList text.toList).map String.ofList

def textAt? (members : List (String × Value)) (name : String) : Option String :=
  match members.lookup name with
  | some (.text text) => some text
  | _ => none

def Wish.ofBody? (octets : Bytes) : Option Wish :=
  match Reader.value.whole octets with
  | .ok (.object members) => do return .write (← textAt? members "name") (← textAt? members "value")
  | _ => none

def Wish.ofRequest? (request : Request) : Option Wish :=
  if request.method = .get then
    ((rest? (dataPath ++ "?current=true&name=") request.path).map .read).or
      ((rest? (dataPath ++ "?path=") request.path).map .find)
  else if request.method = .delete then (rest? (dataPath ++ "?name=") request.path).map .remove
  else if request.method = .put ∧ request.path = dataPath then request.body.bind Wish.ofBody?
  else none

theorem rest?_append (front text : String) : rest? front (front ++ text) = some text := by
  rw [rest?, String.toList_append, Search.after?_append, Option.map_some, String.ofList_toList]

theorem ofRequest?_getRequest (name : String) : Wish.ofRequest? (getRequest name) = some (.read name) := by
  simp only [Wish.ofRequest?, getRequest, ↓reduceIte, rest?_append, Option.map_some, Option.some_or]

theorem ofRequest?_deleteRequest (name : String) :
    Wish.ofRequest? (deleteRequest name) = some (.remove name) := by
  simp only [Wish.ofRequest?, deleteRequest, show Method.delete ≠ Method.get by decide, ↓reduceIte,
    rest?_append, Option.map_some]

theorem ofRequest?_listRequest (path : String) : Wish.ofRequest? (listRequest path) = some (.find path) := by
  have other : rest? (dataPath ++ "?current=true&name=") (dataPath ++ "?path=" ++ path) = none := by
    simp [rest?, dataPath, Search.after?]
  simp only [Wish.ofRequest?, listRequest, ↓reduceIte, rest?_append, Option.map_some, other,
    Option.map_none, Option.none_or]

theorem ofRequest?_putRequest (name text : String) :
    Wish.ofRequest? (putRequest name text) = some (.write name text) := by
  have read := (reads_writeRecord [("name", name), ("type", "value"), ("value", text)] 126).whole
  have body : Wish.ofBody? (Utf8.bytes (putBody name text)) = some (.write name text) := by
    rw [Wish.ofBody?, putBody, Reader.value, Value.deepest, read]
    rfl
  simp only [Wish.ofRequest?, putRequest, show Method.put ≠ Method.get by decide,
    show Method.put ≠ Method.delete by decide, ↓reduceIte, and_self, Option.bind_some, body]

structure Vault where
  entries : List (String × String)
  distinct : (entries.map (·.1)).Nodup

namespace Vault

def empty : Vault := ⟨[], List.nodup_nil⟩

def text? (vault : Vault) (name : String) : Option String := vault.entries.lookup name

def remove (vault : Vault) (name : String) : Vault :=
  ⟨vault.entries.filter (·.1 ≠ name), vault.distinct.sublist (List.filter_sublist.map _)⟩

theorem not_mem_remove (vault : Vault) (name : String) :
    name ∉ (vault.remove name).entries.map (·.1) := by
  simp [remove]

def write (vault : Vault) (name text : String) : Vault :=
  ⟨(name, text) :: (vault.remove name).entries,
    List.nodup_cons.mpr ⟨vault.not_mem_remove name, (vault.remove name).distinct⟩⟩

def names (vault : Vault) (path : String) : List String :=
  (vault.entries.map (·.1)).filter fun name => path.toList.isPrefixOf name.toList

@[simp]
theorem text?_remove (vault : Vault) (name other : String) :
    (vault.remove name).text? other = if other = name then none else vault.text? other := by
  simp only [text?, remove]
  induction vault.entries with
  | nil => simp
  | cons entry entries ih => grind

@[simp]
theorem text?_write (vault : Vault) (name text other : String) :
    (vault.write name text).text? other = if other = name then some text else vault.text? other := by
  have rest := vault.text?_remove name other
  simp only [text?] at rest
  simp only [text?, write, List.lookup_cons, rest]
  grind

theorem mem_names {vault : Vault} {path name : String} :
    name ∈ vault.names path ↔ path.toList <+: name.toList ∧ vault.text? name ≠ none := by
  have kept : name ∈ vault.entries.map (·.1) ↔ vault.text? name ≠ none := by
    rw [text?]
    induction vault.entries with
    | nil => simp
    | cons entry entries ih => grind
  rw [names, List.mem_filter, kept, List.isPrefixOf_iff_prefix, and_comm]

theorem nodup_names (vault : Vault) (path : String) : (vault.names path).Nodup :=
  vault.distinct.filter _

end Vault

structure Server where
  spell : String → Bytes
  spells : ∀ text, Spells text.toList (spell text)
  arrange : List String → List String
  arranges : ∀ names, (arrange names).Perm names
  removed : Nat
  removes : 200 ≤ removed ∧ removed < 300

namespace Server

def plain : Server where
  spell text := Utf8.encode (text.toList.flatMap writeChar)
  spells text := spells_write text.toList
  arrange := id
  arranges := .refl
  removed := 204
  removes := by decide

def single (name : String) (value : Bytes) : Bytes := braced [membered (Utf8.bytes name) value]

def versionsBody (server : Server) (text : String) : Bytes :=
  single "data" (bracketed [single "value" (quoted (server.spell text))])

def namesBody (server : Server) (names : List String) : Bytes :=
  single "credentials" (bracketed (names.map fun name => single "name" (quoted (server.spell name))))

def missing : Response := .ofBytes 404 "Not Found" []

def grant (server : Server) (vault : Vault) : Wish → Response × Vault
  | .read name =>
    match vault.text? name with
    | some text => (.ofBytes 200 "OK" (server.versionsBody text), vault)
    | none => (missing, vault)
  | .write name text => (.ofBytes 200 "OK" [], vault.write name text)
  | .remove name =>
    match vault.text? name with
    | some _ => (.ofBytes server.removed "" [], vault.remove name)
    | none => (missing, vault)
  | .find path => (.ofBytes 200 "OK" (server.namesBody (server.arrange (vault.names path))), vault)

def answer (server : Server) (request : Request) (vault : Vault) : Response × Vault :=
  match Wish.ofRequest? request with
  | some wish => server.grant vault wish
  | none => (.ofBytes 400 "Bad Request" [], vault)

def host (server : Server) : Program.Host Vault where
  log _ vault := vault
  isCancelled _ _ := false
  send _ _ vault := (.ok (), vault)
  receive _ request vault :=
    let (response, vault) := server.answer request vault
    some (.ok response, vault)

variable {server : Server}

theorem answered {token : Token} {request : Request} {wish : Wish} {vault : Vault}
    (asks : Wish.ofRequest? request = some wish) :
    Program.Answered server.host token request vault (server.grant vault wish).1
      (server.grant vault wish).2 := by
  refine ⟨vault, rfl, ?_⟩
  simp only [host, answer, asks]

theorem reads_text_spell (server : Server) (text : String) :
    Reads .text (quoted (server.spell text)) text := by
  have read := reads_text (server.spells text)
  rwa [String.ofList_toList] at read

theorem reads_version {spelling : Bytes} {text : String} (written : Reads .text (quoted spelling) text) :
    versionsReader.whole (single "data" (bracketed [single "value" (quoted spelling)])) = .ok [text] := by
  have version : Reads (.record ⟨"struct CredentialVersion", "value", none⟩ .text)
      (single "value" (quoted spelling)) text := reads_record (spells_write "value".toList) written
  have data : Reads versionsReader (single "data" (bracketed [single "value" (quoted spelling)])) [text] :=
    reads_record (spells_write "data".toList) (reads_list (.cons version .nil))
  exact data.whole

theorem reads_versionsBody (server : Server) (text : String) :
    versionsReader.whole (server.versionsBody text) = .ok [text] :=
  reads_version (server.reads_text_spell text)

theorem reads_namesBody (server : Server) (names : List String) :
    namesReader.whole (server.namesBody names) = .ok names := by
  have each : List.Forall₂ (Reads (.record ⟨"struct CredentialName", "name", none⟩ .text))
      (names.map fun name => single "name" (quoted (server.spell name))) names := by
    rw [List.forall₂_map_left_iff]
    exact List.forall₂_same.mpr fun name _ =>
      reads_record (spells_write "name".toList) (server.reads_text_spell name)
  have found : Reads namesReader (server.namesBody names) names :=
    reads_record (spells_write "credentials".toList) (reads_list each)
  exact found.whole

end Server

end SecretStore.CredHub
