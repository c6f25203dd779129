import SecretStore.Config.Connect

namespace SecretStore.CredHub

open Config (Fault)
open Files (FileSystem)
open Tls

variable {α β : Type} {provider : Provider} {files : FileSystem} {settings : Settings}

inductive File where
  | serverCa
  | clientCert
  | clientKey
  deriving DecidableEq, Repr

namespace File

def field : File → String
  | .serverCa => "server_ca_cert_file_path"
  | .clientCert => "client_cert_file_path"
  | .clientKey => "client_key_file_path"

def path (settings : Settings) : File → String
  | .serverCa => settings.caCertPath
  | .clientCert => settings.clientCertPath
  | .clientKey => settings.clientKeyPath

def IsWanted (settings : Settings) : File → Prop
  | .serverCa => settings.skipVerify = false
  | .clientCert | .clientKey => settings.mutualTls = true

end File

inductive Check where
  | baseUrl
  | keyspace
  | caPath
  | clientPaths
  | readable (file : File)
  | hasBlock (file : File)
  | isCertificate (file : File)
  | formsIdentity
  deriving DecidableEq, Repr

namespace Check

def places : List Check := [.baseUrl, .keyspace]

def ofFile (file : File) : List Check := [.readable file, .hasBlock file]

def ofCertificate (file : File) : List Check := ofFile file ++ [.isCertificate file]

def ofServer : List Check := .caPath :: ofCertificate .serverCa

def ofClient : List Check := .clientPaths :: (ofCertificate .clientCert ++ (ofFile .clientKey ++ [.formsIdentity]))

def all : List Check := places ++ (ofServer ++ ofClient)

def Holds (provider : Provider) (files : FileSystem) (settings : Settings) : Check → Prop
  | .baseUrl => settings.baseUrl ≠ ""
  | .keyspace => settings.keyspace ≠ ""
  | .caPath => settings.skipVerify = false → settings.caCertPath ≠ ""
  | .clientPaths => settings.mutualTls = true → settings.clientCertPath ≠ "" ∧ settings.clientKeyPath ≠ ""
  | .readable file => file.IsWanted settings → ∃ octets, files (file.path settings) = .ok octets
  | .hasBlock file => file.IsWanted settings →
      ∃ octets, files (file.path settings) = .ok octets ∧ Pem.hasBlock octets = true
  | .isCertificate file => file.IsWanted settings →
      ∃ octets, files (file.path settings) = .ok octets ∧ provider.certificate octets = .ok ()
  | .formsIdentity => settings.mutualTls = true → ∃ certificate key, files settings.clientCertPath = .ok certificate ∧
      files settings.clientKeyPath = .ok key ∧ provider.identity (certificate ++ 10 :: key) = .ok ()

def Finds (provider : Provider) (files : FileSystem) (settings : Settings) : Check → Fault → Prop
  | .baseUrl, fault => fault = .missingField "base_url" "can't be empty"
  | .keyspace, fault => fault = .missingField "namespace" "can't be empty"
  | .caPath, fault => fault =
      .missingField "server_ca_cert_file_path" "can't be empty when `server_insecure_skip_verify` is false"
  | .clientPaths, fault => fault = .missingField "client_cert_file_path"
      "and `client_key_file_path` can't be empty when `enable_mutual_tls` is true"
  | .readable file, fault =>
      ∃ cause, files (file.path settings) = .error cause ∧ fault = .unreadableField file.field cause
  | .hasBlock file, fault => fault = .invalidCertificate file.field "no PEM block found"
  | .isCertificate file, fault => ∃ octets text, files (file.path settings) = .ok octets ∧
      provider.certificate octets = .error text ∧ fault = .invalidCertificate file.field text
  | .formsIdentity, fault => ∃ certificate key text, files settings.clientCertPath = .ok certificate ∧
      files settings.clientKeyPath = .ok key ∧ provider.identity (certificate ++ 10 :: key) = .error text ∧
      fault = .invalidCertificate "client_key_file_path" text

end Check

inductive FirstFault (provider : Provider) (files : FileSystem) (settings : Settings) : List Check → Fault → Prop where
  | here {check : Check} {checks : List Check} {fault : Fault} : ¬ check.Holds provider files settings →
      check.Finds provider files settings fault → FirstFault provider files settings (check :: checks) fault
  | later {check : Check} {checks : List Check} {fault : Fault} : check.Holds provider files settings →
      FirstFault provider files settings checks fault → FirstFault provider files settings (check :: checks) fault

/-- A result satisfies all checks and is good. A fault is that of the first check that fails. -/
def Checked (provider : Provider) (files : FileSystem) (settings : Settings) (checks : List Check) (good : α → Prop) :
    Except Fault α → Prop
  | .ok value => (∀ check ∈ checks, check.Holds provider files settings) ∧ good value
  | .error fault => FirstFault provider files settings checks fault

variable {check : Check} {checks more : List Check} {fault other : Fault}

theorem Check.Finds.unique (finds : check.Finds provider files settings fault)
    (finds' : check.Finds provider files settings other) :
    fault = other := by
  cases check with
  | readable file =>
      obtain ⟨cause, read, rfl⟩ := finds
      obtain ⟨cause', read', rfl⟩ := finds'
      rw [read] at read'
      cases read'
      rfl
  | isCertificate file =>
      obtain ⟨octets, text, read, refused, rfl⟩ := finds
      obtain ⟨octets', text', read', refused', rfl⟩ := finds'
      rw [read] at read'
      cases read'
      rw [refused] at refused'
      cases refused'
      rfl
  | formsIdentity =>
      obtain ⟨certificate, key, text, shown, kept, refused, rfl⟩ := finds
      obtain ⟨certificate', key', text', shown', kept', refused', rfl⟩ := finds'
      rw [shown] at shown'
      cases shown'
      rw [kept] at kept'
      cases kept'
      rw [refused] at refused'
      cases refused'
      rfl
  | _ => exact Eq.trans finds (Eq.symm finds')

namespace FirstFault

theorem append (first : FirstFault provider files settings checks fault) (more : List Check) :
    FirstFault provider files settings (checks ++ more) fault := by
  induction first with
  | here fails finds => exact .here fails finds
  | later holds _ ih => exact .later holds ih

theorem behind (held : ∀ check ∈ checks, check.Holds provider files settings)
    (first : FirstFault provider files settings more fault) :
    FirstFault provider files settings (checks ++ more) fault := by
  induction checks with
  | nil => exact first
  | cons check checks ih =>
      obtain ⟨holds, others⟩ := List.forall_mem_cons.1 held
      exact .later holds (ih others)

theorem not_all (first : FirstFault provider files settings checks fault) :
    ¬ ∀ check ∈ checks, check.Holds provider files settings := by
  induction first with
  | here fails _ => exact fun held => fails (held _ List.mem_cons_self)
  | later _ _ ih => exact fun held => ih fun check member => held check (List.mem_cons_of_mem _ member)

theorem unique (first : FirstFault provider files settings checks fault)
    (first' : FirstFault provider files settings checks other) :
    fault = other := by
  induction first with
  | here fails finds =>
      cases first' with
      | here _ finds' => exact finds.unique finds'
      | later holds _ => exact absurd holds fails
  | later holds _ ih =>
      cases first' with
      | here fails _ => exact absurd holds fails
      | later _ rest => exact ih rest

end FirstFault

variable {good : α → Prop} {good' : β → Prop} {result : Except Fault α}

theorem checked_bind {next : α → Except Fault β} (first : Checked provider files settings checks good result)
    (rest : ∀ value, good value → Checked provider files settings more good' (next value)) :
    Checked provider files settings (checks ++ more) good' (result >>= next) := by
  cases result with
  | error fault => exact FirstFault.append first more
  | ok value =>
      -- All of the first checks hold, so a fault of the rest is the first one overall.
      obtain ⟨held, fine⟩ := first
      have settled := rest value fine
      change Checked provider files settings (checks ++ more) good' (next value)
      cases outcome : next value with
      | error fault =>
          rw [outcome] at settled
          exact FirstFault.behind held settled
      | ok value' =>
          rw [outcome] at settled
          exact ⟨List.forall_mem_append.2 ⟨held, settled.1⟩, settled.2⟩

theorem checked_map (checked : Checked provider files settings checks good result) {f : α → β}
    (fine : ∀ value, good value → good' (f value)) : Checked provider files settings checks good' (result.map f) := by
  cases result with
  | error fault => exact checked
  | ok value => exact ⟨checked.1, fine value checked.2⟩

theorem checked_behind (holds : check.Holds provider files settings)
    (checked : Checked provider files settings checks good result) :
    Checked provider files settings (check :: checks) good result := by
  cases result with
  | ok value => exact ⟨List.forall_mem_cons.2 ⟨holds, checked.1⟩, checked.2⟩
  | error fault => exact .later holds checked

theorem checked_failing (fails : ¬ check.Holds provider files settings)
    (finds : check.Finds provider files settings fault) :
    Checked provider files settings (check :: checks) good (.error fault) :=
  FirstFault.here fails finds

theorem checked_none {value : α} (fine : good value) : Checked provider files settings [] good (.ok value) :=
  ⟨List.forall_mem_nil _, fine⟩

structure Holding (files : FileSystem) (settings : Settings) (file : File) (octets : Bytes) : Prop where
  wanted : file.IsWanted settings
  read : files (file.path settings) = .ok octets

theorem Holding.of_holds {file : File} {octets : Bytes} (holding : Holding files settings file octets)
    {good : Bytes → Prop}
    (holds : file.IsWanted settings → ∃ octets, files (file.path settings) = .ok octets ∧ good octets) :
    good octets := by
  obtain ⟨octets', read, fine⟩ := holds holding.wanted
  rw [holding.read] at read
  cases read
  exact fine

theorem checked_readPem {file : File} (wanted : file.IsWanted settings) :
    Checked provider files settings (Check.ofFile file) (Holding files settings file)
      (readPem files file.field (file.path settings)) := by
  rw [readPem]
  cases read : files (file.path settings) with
  | error cause =>
      refine checked_failing (fun holds => ?_) ⟨cause, read, rfl⟩
      obtain ⟨octets, found⟩ := holds wanted
      rw [read] at found
      cases found
  | ok octets =>
      have holding : Holding files settings file octets := ⟨wanted, read⟩
      refine checked_behind (fun _ => ⟨octets, read⟩) ?_
      dsimp only
      split
      · rename_i block
        exact checked_behind (fun _ => ⟨octets, read, block⟩) (checked_none holding)
      · rename_i none
        exact checked_failing (fun holds => none (holding.of_holds holds)) rfl

theorem checked_readCertificate {file : File} (wanted : file.IsWanted settings) :
    Checked provider files settings (Check.ofCertificate file) (Holding files settings file)
      (readCertificate provider files file.field (file.path settings)) := by
  refine checked_bind (checked_readPem wanted) fun octets holding => ?_
  cases parsed : provider.certificate octets with
  | ok _ => exact checked_behind (fun _ => ⟨octets, holding.read, parsed⟩) (checked_none holding)
  | error text =>
      refine checked_failing (fun holds => ?_) ⟨octets, text, holding.read, parsed, rfl⟩
      have accepted := holding.of_holds holds
      rw [parsed] at accepted
      cases accepted

theorem checked_places : Checked provider files settings Check.places (fun _ => True) settings.checkPresent := by
  rw [Settings.checkPresent]
  split
  · rename_i empty
    exact checked_failing (fun holds => holds empty) rfl
  · rename_i base
    refine checked_behind base ?_
    split
    · rename_i empty
      exact checked_failing (fun holds => holds empty) rfl
    · rename_i keyspace
      exact checked_behind keyspace (checked_none trivial)

theorem holds_ofServer (off : settings.skipVerify = true) :
    ∀ check ∈ Check.ofServer, check.Holds provider files settings := by
  simp [Check.ofServer, Check.ofCertificate, Check.ofFile, Check.Holds, File.IsWanted, off]

theorem holds_ofClient (off : settings.mutualTls = false) :
    ∀ check ∈ Check.ofClient, check.Holds provider files settings := by
  simp [Check.ofClient, Check.ofCertificate, Check.ofFile, Check.Holds, File.IsWanted, off]

theorem checked_serverCa :
    Checked provider files settings Check.ofServer (fun ca => ca.isSome = !settings.skipVerify)
      (settings.serverCa provider files) := by
  simp only [Settings.serverCa]
  split
  · rename_i off
    exact ⟨holds_ofServer off, by rw [off]; rfl⟩
  · rename_i on
    have verified : settings.skipVerify = false := Bool.eq_false_iff.2 on
    split
    · rename_i empty
      exact checked_failing (fun holds => holds verified empty) rfl
    · rename_i named
      refine checked_behind (fun _ => named) ?_
      have read := @checked_readCertificate provider files _ .serverCa verified
      exact checked_map read fun octets _ => by rw [verified]; rfl

theorem checked_identity :
    Checked provider files settings Check.ofClient (fun identity => identity.isSome = settings.mutualTls)
      (settings.identity provider files) := by
  simp only [Settings.identity]
  split
  · rename_i off
    have off : settings.mutualTls = false := by simpa using off
    exact ⟨holds_ofClient off, by rw [off]; rfl⟩
  · rename_i on
    have on : settings.mutualTls = true := by simpa using on
    split
    · rename_i empty
      exact checked_failing (fun holds => empty.elim (holds on).1 (holds on).2) rfl
    · rename_i named
      refine checked_behind (fun _ => not_or.1 named) ?_
      refine checked_bind (@checked_readCertificate _ _ _ .clientCert on) fun certificate shown => ?_
      refine checked_bind (@checked_readPem _ _ _ .clientKey on) fun key kept => ?_
      have shown : files settings.clientCertPath = .ok certificate := shown.read
      have kept : files settings.clientKeyPath = .ok key := kept.read
      cases formed : provider.identity (certificate ++ 10 :: key) with
      | ok _ =>
          have holds : Check.formsIdentity.Holds provider files settings :=
            fun _ => ⟨certificate, key, shown, kept, formed⟩
          exact checked_behind holds (checked_none on.symm)
      | error text =>
          refine checked_failing (fun holds => ?_) ⟨certificate, key, text, shown, kept, formed, rfl⟩
          obtain ⟨certificate', key', shown', kept', accepted⟩ := holds on
          rw [shown] at shown'
          cases shown'
          rw [kept] at kept'
          cases kept'
          rw [formed] at accepted
          cases accepted

structure Credentials.Fit (settings : Settings) (credentials : Credentials) : Prop where
  serverCa : credentials.serverCa.isSome = true ↔ settings.skipVerify = false
  identity : credentials.identity.isSome = true ↔ settings.mutualTls = true

theorem checked_validate :
    Checked provider files settings Check.all (Credentials.Fit settings) (settings.validate files provider) := by
  refine checked_bind checked_places fun _ _ => ?_
  refine checked_bind checked_serverCa fun serverCa verifies => ?_
  rw [bind_pure_comp]
  exact checked_map checked_identity fun identity shows => ⟨by simp [verifies], by simp [shows]⟩

/-- The file systems agree on the files of the features that are on. -/
def SameWanted (settings : Settings) (files others : FileSystem) : Prop :=
  ∀ file : File, file.IsWanted settings → files (file.path settings) = others (file.path settings)

variable {others : FileSystem}

theorem readPem_congr {path : String} (same : files path = others path) {field : String} :
    readPem files field path = readPem others field path := by
  rw [readPem, readPem, same]

theorem readCertificate_congr {path : String} (same : files path = others path) {field : String} :
    readCertificate provider files field path = readCertificate provider others field path := by
  rw [readCertificate, readCertificate, readPem_congr same]

theorem validate_congr (same : SameWanted settings files others) :
    settings.validate files provider = settings.validate others provider := by
  have server : settings.serverCa provider files = settings.serverCa provider others := by
    simp only [Settings.serverCa]
    split
    · rfl
    · rename_i on
      have read : files settings.caCertPath = others settings.caCertPath := same .serverCa (Bool.eq_false_iff.2 on)
      rw [readCertificate_congr read]
  have client : settings.identity provider files = settings.identity provider others := by
    simp only [Settings.identity]
    split
    · rfl
    · rename_i on
      have on : settings.mutualTls = true := by simpa using on
      have shown : files settings.clientCertPath = others settings.clientCertPath := same .clientCert on
      have kept : files settings.clientKeyPath = others settings.clientKeyPath := same .clientKey on
      rw [readCertificate_congr shown, readPem_congr kept]
  rw [Settings.validate, Settings.validate, server, client]

/-- With any TLS provider, the settings are valid if every check holds, and otherwise have the fault of the first one
that fails. Files of features that are off do not matter, and settings with a fault give neither a client nor a
store. -/
theorem validate_first_fault (provider : Provider) (files : FileSystem) (settings : Settings) :
    ((∃ credentials, settings.validate files provider = .ok credentials) ↔
        ∀ check ∈ Check.all, check.Holds provider files settings) ∧
      (∀ fault, settings.validate files provider = .error fault ↔ FirstFault provider files settings Check.all fault) ∧
      (∀ credentials, settings.validate files provider = .ok credentials → credentials.Fit settings) ∧
      (∀ others, SameWanted settings files others →
        settings.validate others provider = settings.validate files provider) ∧
      ∀ fault, settings.validate files provider = .error fault →
        Client.ofSettings files settings provider = .error (.config (.fault fault)) ∧
          (Config.credHub settings).connect files provider = .error (.config (.fault fault)) := by
  have checked := @checked_validate provider files settings
  refine ⟨⟨?_, fun held => ?_⟩, fun fault => ⟨fun failed => ?_, fun first => ?_⟩, fun credentials valid => ?_,
    fun others same => (validate_congr same).symm, fun fault failed => ?_⟩
  · rintro ⟨credentials, valid⟩
    rw [valid] at checked
    exact checked.1
  · cases outcome : settings.validate files provider with
    | ok credentials => exact ⟨credentials, rfl⟩
    | error fault =>
        rw [outcome] at checked
        exact absurd held (FirstFault.not_all checked)
  · rw [failed] at checked
    exact checked
  · cases outcome : settings.validate files provider with
    | ok credentials =>
        rw [outcome] at checked
        exact absurd checked.1 first.not_all
    | error fault' =>
        rw [outcome] at checked
        rw [FirstFault.unique checked first]
  · rw [valid] at checked
    exact checked.2
  · have refused : Client.ofSettings files settings provider = .error (.config (.fault fault)) := by
      rw [Client.ofSettings, failed]
      rfl
    exact ⟨refused, by rw [Config.connect, refused]; rfl⟩

end SecretStore.CredHub
