import Mathlib.Data.List.DropRight
import Mathlib.Data.List.TakeWhile
import SecretStore.Proofs.CredHub.Asked
import SecretStore.Proofs.CredHub.Server
import SecretStore.Proofs.Http.Address

namespace SecretStore

namespace Http.Url

open Utf8
open scoped List

/-- A name that is read back unchanged at the end of a query. -/
structure IsLiteral (name : List Char) : Prop where
  signs : ∀ c ∈ name, c ∉ ['\t', '\n', '\r', '#', '&', '+']
  ending : ∀ last, name.getLast? = some last → isBlank last = false
  percents : ∀ high low, [37, high, low] <:+: encode name → hexValue? high = none ∨ hexValue? low = none

/-- What is left of a name at the end of an address: the text before the first number sign and the first ampersand,
without blanks at its end. -/
def named (name : List Char) : List Char := ((cutAt '#' (cleaned name)).1).takeWhile (· ≠ '&')

/-! ## What is left of a name -/

theorem untrailed_sublist (name : List Char) : (name.reverse.dropWhile isBlank).reverse <+ name := by
  have kept := (List.dropWhile_sublist isBlank (l := name.reverse)).reverse
  rwa [List.reverse_reverse] at kept

theorem cleaned_sublist (name : List Char) : cleaned name <+ name :=
  List.filter_sublist.trans (untrailed_sublist name)

theorem named_sublist (name : List Char) : named name <+ name :=
  ((List.takeWhile_sublist _).trans (List.takeWhile_sublist _)).trans (cleaned_sublist name)

theorem untrailed_eq_self_iff {name : List Char} :
    (name.reverse.dropWhile isBlank).reverse = name ↔
      ∀ last, name.getLast? = some last → isBlank last = false := by
  change name.rdropWhile isBlank = name ↔ _
  rw [List.rdropWhile_eq_self_iff]
  constructor
  · intro ending last ends
    have nonempty : name ≠ [] := by
      rintro rfl
      cases ends
    rw [List.getLast?_eq_some_getLast nonempty, Option.some.injEq] at ends
    subst ends
    simpa using ending nonempty
  · intro ending nonempty
    simpa using ending _ (List.getLast?_eq_some_getLast nonempty)

theorem cleaned_eq_self_iff {name : List Char} :
    cleaned name = name ↔ (∀ c ∈ name, breaksLine c = false) ∧
      ∀ last, name.getLast? = some last → isBlank last = false := by
  constructor
  · intro same
    have whole : (name.reverse.dropWhile isBlank).reverse = name := by
      refine (untrailed_sublist name).eq_of_length_le ?_
      have shorter := (List.filter_sublist (p := (!breaksLine ·))
        (l := (name.reverse.dropWhile isBlank).reverse)).length_le
      rwa [← cleaned, same] at shorter
    rw [cleaned, whole, List.filter_eq_self] at same
    refine ⟨?_, untrailed_eq_self_iff.1 whole⟩
    intro c member
    simpa using same c member
  · rintro ⟨unbroken, ending⟩
    rw [cleaned, untrailed_eq_self_iff.2 ending, List.filter_eq_self]
    intro c member
    simp [unbroken c member]

theorem named_eq_self_iff {name : List Char} :
    named name = name ↔ (∀ c ∈ name, c ∉ ['\t', '\n', '\r', '#', '&']) ∧
      ∀ last, name.getLast? = some last → isBlank last = false := by
  constructor
  · intro same
    have clean : cleaned name = name := by
      refine (cleaned_sublist name).eq_of_length_le ?_
      have shorter := ((List.takeWhile_sublist (p := (· ≠ '&'))
        (l := (cutAt '#' (cleaned name)).1)).trans (List.takeWhile_sublist _)).length_le
      rwa [← named, same] at shorter
    have before : (cutAt '#' name).1 = name := by
      refine (List.takeWhile_sublist _).eq_of_length_le ?_
      have shorter := (List.takeWhile_sublist (p := (· ≠ '&')) (l := (cutAt '#' (cleaned name)).1)).length_le
      rwa [← named, same, clean] at shorter
    rw [named, clean, before, List.takeWhile_eq_self_iff] at same
    rw [cutAt, List.takeWhile_eq_self_iff] at before
    obtain ⟨unbroken, ending⟩ := cleaned_eq_self_iff.1 clean
    refine ⟨?_, ending⟩
    intro c member
    have := unbroken c member
    have := same c member
    have := before c member
    simp_all [breaksLine]
  · rintro ⟨signs, ending⟩
    have clean : cleaned name = name := by
      refine cleaned_eq_self_iff.2 ⟨?_, ending⟩
      intro c member
      have := signs c member
      simp_all [breaksLine]
    have before : (cutAt '#' name).1 = name := by
      refine List.takeWhile_eq_self_iff.2 ?_
      intro c member
      have := signs c member
      simp_all
    rw [named, clean, before, List.takeWhile_eq_self_iff]
    intro c member
    have := signs c member
    simp_all

/-! ## What is read of it -/

theorem length_encode_plusAsBlank (text : List Char) :
    (encode (text.map plusAsBlank)).length = (encode text).length := by
  have same (c : Char) : (String.utf8EncodeChar (plusAsBlank c)).length = (String.utf8EncodeChar c).length := by
    rw [plusAsBlank]
    split
    · rename_i plus
      rw [plus]
      decide
    · rfl
  induction text with
  | nil => rfl
  | cons c text ih =>
      simp only [encode, List.map_cons, List.flatMap_cons, List.length_append, same] at ih ⊢
      rw [ih]

theorem encode_sublist {part text : List Char} (sub : part <+ text) : encode part <+ encode text := by
  induction sub with
  | slnil => exact .slnil
  | cons c sub ih => exact ih.trans (List.sublist_append_right _ _)
  | cons_cons c sub ih => exact (List.Sublist.refl _).append ih

theorem unescaped_eq_bytes {part name : List Char} (sub : part <+ name)
    (read : unescaped part = encode name) :
    part = name ∧ percentDecode (encode name) = encode name ∧ '+' ∉ name := by
  have shrinks := length_percentDecode_le (encode (part.map plusAsBlank))
  have fewer := (encode_sublist sub).length_le
  rw [length_encode_plusAsBlank, ← unescaped, read] at shrinks
  have whole : part = name := encode_injective ((encode_sublist sub).eq_of_length_le shrinks)
  subst whole
  have fixed : percentDecode (encode (part.map plusAsBlank)) = encode (part.map plusAsBlank) := by
    apply percentDecode_eq_self_of_length
    rw [← unescaped, read, length_encode_plusAsBlank]
  have blanks : part.map plusAsBlank = part := by
    rw [unescaped, fixed] at read
    exact encode_injective read
  refine ⟨rfl, ?_, ?_⟩
  · rwa [blanks] at fixed
  · intro member
    have kept := List.map_inj_left.1 (blanks.trans (List.map_id part).symm) '+' member
    exact absurd kept (by decide)

theorem unescaped_named_iff {name : List Char} : unescaped (named name) = encode name ↔ IsLiteral name := by
  constructor
  · intro read
    obtain ⟨whole, fixed, noPlus⟩ := unescaped_eq_bytes (named_sublist name) read
    obtain ⟨signs, ending⟩ := named_eq_self_iff.1 whole
    refine ⟨?_, ending, percentDecode_eq_self_iff.1 fixed⟩
    intro c member
    have others := signs c member
    have plus : c ≠ '+' := fun same => noPlus (same ▸ member)
    simp_all
  · intro literal
    have whole : named name = name := by
      refine named_eq_self_iff.2 ⟨?_, literal.ending⟩
      intro c member
      have := literal.signs c member
      simp_all
    have blanks : name.map plusAsBlank = name := by
      refine (List.map_congr_left (g := id) ?_).trans (List.map_id name)
      intro c member
      refine if_neg ?_
      have := literal.signs c member
      simp_all
    rw [whole, unescaped, blanks, percentDecode_eq_self_iff]
    exact literal.percents

/-! ## The query a name stands in -/

theorem partsOf_query {path : List Char} (unmarked : '?' ∉ path) (query : List Char) :
    partsOf (String.ofList (path ++ '?' :: query)) = splitAtSign '&' query := by
  rw [partsOf, String.toList_ofList, cutAt_append unmarked, cutAt_sign]
  rfl

def namingLeads : List (List Char) := ["name=".toList, "current=true&name=".toList]

theorem valuesIn_naming {lead : List Char} (leads : lead ∈ namingLeads) (text : List Char) :
    ∃ others, valuesIn "name" (splitAtSign '&' (lead ++ text)) =
        unescaped (text.takeWhile (· ≠ '&')) :: valuesIn "name" others ∧
      ('&' ∉ text → others = []) := by
  obtain ⟨others, split⟩ := splitAtSign_head '&' text
  have behind : splitAtSign '&' ("name=".toList ++ text) =
      ("name=".toList ++ text.takeWhile (· ≠ '&')) :: others := splitAtSign_append (by decide) split
  have read : valuesIn "name" (splitAtSign '&' ("name=".toList ++ text)) =
      unescaped (text.takeWhile (· ≠ '&')) :: valuesIn "name" others := by
    rw [behind, valuesIn_cons_of_eq]
    all_goals rfl
  refine ⟨others, ?_, ?_⟩
  · simp only [namingLeads, List.mem_cons, List.not_mem_nil, or_false] at leads
    rcases leads with rfl | rfl
    · exact read
    · have before : splitAtSign '&' ("current=true&name=".toList ++ text) =
          "current=true".toList :: splitAtSign '&' ("name=".toList ++ text) := rfl
      rw [before, valuesIn_cons_of_ne _ (by decide), read]
  · intro without
    have whole := splitAtSign_eq_singleton without
    rw [split] at whole
    exact (List.cons.inj whole).2

theorem percentEncode_lead {lead : List Char} (leads : lead ∈ namingLeads) (text : List Char) :
    percentEncode hidesInSpecialQuery (lead ++ text) = lead ++ percentEncode hidesInSpecialQuery text := by
  have kept : ∀ lead ∈ namingLeads, percentEncode hidesInSpecialQuery lead = lead := by decide
  rw [percentEncode, List.flatMap_append]
  exact congrArg (· ++ _) (kept lead leads)

theorem ampersand_not_mem_percentOctet (a : UInt8) : '&' ∉ percentOctet a := by
  have letters : ∀ value < 16, '&' ≠ hexLetter value := by decide
  have high := letters (a.toNat / 16) (by have := a.toNat_lt; omega)
  have low := letters (a.toNat % 16) (by omega)
  simp [percentOctet, high, low]

theorem named_percentEncode (text : List Char) :
    unescaped ((percentEncode hidesInSpecialQuery text).takeWhile (· ≠ '&')) =
      unescaped (text.takeWhile (· ≠ '&')) := by
  rw [takeWhile_percentEncode text (by decide) ampersand_not_mem_percentOctet,
    unescaped_percentEncode hidesInSpecialQuery_apart]

def namingAim {lead : List Char} (leads : lead ∈ namingLeads) : Aim where
  path := "api/v1/data".toList
  lead := lead
  solid := by
    simp only [namingLeads, List.mem_cons, List.not_mem_nil, or_false] at leads
    rcases leads with rfl | rfl <;> exact List.all_iff_forall_prop.1 (by decide)
  unmarked := by decide
  ends := by
    simp only [namingLeads, List.mem_cons, List.not_mem_nil, or_false] at leads
    exact ⟨'=', by rcases leads with rfl | rfl <;> decide, by decide⟩

theorem valuesOf_namingAim {lead : List Char} (leads : lead ∈ namingLeads) {scheme : List Char}
    {authority : Option Authority} {fragment : Option (List Char)} {name : String} :
    valuesOf "name" (target ⟨scheme, authority, rootPath .hosted ('/' :: (namingAim leads).path),
        some (percentEncode hidesInSpecialQuery ((namingAim leads).query name.toList)), fragment⟩) =
      [bytes name] ↔ IsLiteral name.toList := by
  set kept := (cutAt '#' (cleaned name.toList)).1
  obtain ⟨others, values, alone⟩ := valuesIn_naming leads (percentEncode hidesInSpecialQuery kept)
  rw [named_percentEncode] at values
  have read : valuesOf "name" (target ⟨scheme, authority, rootPath .hosted ('/' :: (namingAim leads).path),
      some (percentEncode hidesInSpecialQuery ((namingAim leads).query name.toList)), fragment⟩) =
      unescaped (named name.toList) :: valuesIn "name" others := by
    have path : (rootPath .hosted ('/' :: "api/v1/data".toList)).text = "/api/v1/data".toList := by decide
    have written : target ⟨scheme, authority, rootPath .hosted ('/' :: (namingAim leads).path),
        some (percentEncode hidesInSpecialQuery ((namingAim leads).query name.toList)), fragment⟩ =
        String.ofList ("/api/v1/data".toList ++ '?' :: (lead ++ percentEncode hidesInSpecialQuery kept)) := by
      rw [← path, ← percentEncode_lead leads]
      rfl
    rw [written, valuesOf, partsOf_query (by decide), values]
    rfl
  rw [read, bytes, ← unescaped_named_iff]
  constructor
  · intro same
    exact (List.cons.inj same).1
  · intro same
    have literal := unescaped_named_iff.1 same
    have whole : kept.takeWhile (· ≠ '&') = kept := by
      rw [List.takeWhile_eq_self_iff]
      intro c member
      have inside := ((List.takeWhile_sublist _).trans (cleaned_sublist name.toList)).mem member
      have := literal.signs c inside
      simp_all
    have without : '&' ∉ percentEncode hidesInSpecialQuery kept := by
      have stays : (percentEncode hidesInSpecialQuery kept).takeWhile (· ≠ '&') = _ :=
        takeWhile_percentEncode kept (by decide) ampersand_not_mem_percentOctet
      rw [whole, List.takeWhile_eq_self_iff] at stays
      intro member
      exact absurd (stays '&' member) (by decide)
    rw [same, alone without]
    rfl

end Http.Url

namespace CredHub

open Http Http.Url

variable {provider : Tls.Provider} {files : Files.FileSystem} {settings : Settings} {client : Client} {host : String}

/-! ## What a client at a host asks for -/

theorem ofSettings_base (made : Client.ofSettings files settings provider = .ok client) :
    client.base = Client.withoutEndSlashes settings.baseUrl := by
  rw [Client.ofSettings] at made
  cases valid : settings.validate files provider with
  | error fault =>
      rw [valid] at made
      cases made
  | ok credentials =>
      rw [valid] at made
      change (if provider.builds credentials.serverCa credentials.identity = true then _ else _) = _ at made
      split at made
      · cases made
        rfl
      · cases made

theorem withoutEndSlashes_host (named : IsHost host) :
    Client.withoutEndSlashes ("http://" ++ host) = "http://" ++ host := by
  obtain ⟨authority, read, -⟩ := named.read
  have nonempty : host.toList ≠ [] := by
    intro empty
    rw [empty] at read
    cases read
  have last := named.signs _ (List.getLast_mem nonempty)
  rw [Client.withoutEndSlashes]
  change String.ofList (("http://" ++ host).toList.rdropWhile (· = '/')) = _
  rw [List.rdropWhile_eq_self_iff.2, String.ofList_toList]
  intro _
  simp only [String.toList_append]
  rw [List.getLast_append_of_ne_nil _ nonempty]
  simp_all

theorem ofText_naming (named : IsHost host) (based : client.base = "http://" ++ host) {lead : List Char}
    (leads : lead ∈ namingLeads) {request : Request} {name : String}
    (path : request.path = String.ofList ('/' :: ("api/v1/data".toList ++ '?' :: (lead ++ name.toList)))) :
    ∃ url, Url.ofText? (client.addressOf request) = some url ∧
      (url.Fits → Sent.ofText request.method (client.addressOf request) request.body =
        .ok (.ofUrl request.method url.withUserApart request.body)) ∧
      (¬ url.Fits → ∃ fault, Sent.ofText request.method (client.addressOf request) request.body =
        .error fault) ∧
      (valuesOf "name" url.withUserApart.target = [Utf8.bytes name] ↔ IsLiteral name.toList) := by
  obtain ⟨authority, read, named', plain⟩ := named.read
  have address : client.addressOf request =
      String.ofList ("http://".toList ++ (host.toList ++ (namingAim leads).text name.toList)) := by
    rw [Client.addressOf, based, path, ← String.toList_inj]
    simp only [String.toList_append, String.toList_ofList, List.append_assoc]
    rfl
  have parsed := ofText?_aim (namingAim leads) named.signs read name.toList
  rw [← address] at parsed
  obtain ⟨fits, long⟩ := Sent.ofText_host request.method request.body parsed
    (if_neg named') plain rfl
  refine ⟨_, parsed, fits, long, ?_⟩
  rw [target_withUserApart]
  exact valuesOf_namingAim leads

/-! ## What is asked -/

variable {redirects : Redirects} {answer : List Sent → Sent → Option Received} {token : Token}

theorem head?_asked_get (key : String) :
    (client.asked redirects answer token (program settings (.get key)).run).head? =
      (Sent.ofText .get (client.addressOf (getRequest (settings.nameOf key))) none).toOption :=
  client.head?_asked redirects answer rfl rfl fun failure => ⟨.error failure, rfl⟩

theorem head?_asked_delete (key : String) :
    (client.asked redirects answer token (program settings (.delete key)).run).head? =
      (Sent.ofText .delete (client.addressOf (deleteRequest (settings.nameOf key))) none).toOption :=
  client.head?_asked redirects answer rfl rfl fun failure => ⟨.error failure, rfl⟩

theorem head?_asked_set (key : String) (value : Bytes) :
    (client.asked redirects answer token (program settings (.set key value)).run).head? =
      (Sent.ofText .put
        (client.addressOf (putRequest (settings.nameOf key) (encodeValue value settings.forceBase64)))
        (putRequest (settings.nameOf key) (encodeValue value settings.forceBase64)).body).toOption :=
  client.head?_asked redirects answer rfl rfl fun failure => ⟨.error failure, rfl⟩

def Client.Reaches (client : Client) (request : Request) : Prop :=
  ∃ url, Url.ofText? (client.addressOf request) = some url ∧ url.Fits

theorem asked_naming (named : IsHost host) (based : client.base = "http://" ++ host) (lead : List Char)
    (leads : lead ∈ namingLeads) {request : Request} {name : String} {asked : List Sent}
    (path : request.path = String.ofList ('/' :: ("api/v1/data".toList ++ '?' :: (lead ++ name.toList))))
    (first : asked.head? =
      (Sent.ofText request.method (client.addressOf request) request.body).toOption) :
    (asked = [] ↔ ¬ client.Reaches request) ∧
      ∀ sent, asked.head? = some sent →
        (valuesOf "name" sent.url.target = [Utf8.bytes name] ↔ IsLiteral name.toList) := by
  obtain ⟨url, read, fits, long, values⟩ := ofText_naming named based leads path
  by_cases fitting : url.Fits
  · have made : asked.head? = some (.ofUrl request.method url.withUserApart request.body) := by
      rw [first, fits fitting]
      rfl
    constructor
    · refine iff_of_false ?_ (not_not_intro ⟨url, read, fitting⟩)
      rintro rfl
      cases made
    · intro sent same
      rw [made, Option.some.injEq] at same
      subst same
      exact values
  · obtain ⟨fault, refused⟩ := long fitting
    rw [refused] at first
    have nothing : asked = [] := List.head?_eq_none_iff.1 first
    constructor
    · refine iff_of_true nothing ?_
      rintro ⟨other, read', fits'⟩
      rw [read, Option.some.injEq] at read'
      subst read'
      exact fitting fits'
    · intro sent same
      rw [nothing] at same
      cases same

/-! ## The names that are read -/

/-- A write names the credential that is meant. A lookup or a removal does if and only if the name is literal. -/
theorem named_alike_iff (named : IsHost host) (based : settings.baseUrl = "http://" ++ host)
    (isValid : Client.ofSettings files settings provider = .ok client) (redirects : Redirects)
    (answer : List Sent → Sent → Option Received) (token : Token) (key : String) (value : Bytes) :
    (∀ sent, (client.asked redirects answer token (program settings (.set key value)).run).head? = some sent →
      sent.body.bind Wish.ofBody? =
        some (.write (settings.nameOf key) (encodeValue value settings.forceBase64))) ∧
    ∀ asks ∈ [(Call.get key, getRequest (settings.nameOf key)),
        (Call.delete key, deleteRequest (settings.nameOf key))],
      (client.asked redirects answer token (program settings asks.1).run = [] ↔ ¬ client.Reaches asks.2) ∧
      ∀ sent, (client.asked redirects answer token (program settings asks.1).run).head? = some sent →
        (valuesOf "name" sent.url.target = [Utf8.bytes (settings.nameOf key)] ↔
          IsLiteral (settings.nameOf key).toList) := by
  have base : client.base = "http://" ++ host := by
    rw [ofSettings_base isValid, based, withoutEndSlashes_host named]
  constructor
  · intro sent first
    rw [head?_asked_set] at first
    generalize same : Sent.ofText .put _ _ = attempt at first
    cases attempt with
    | error fault => cases first
    | ok written =>
        cases first
        obtain ⟨url, rfl⟩ := Sent.ofText_eq_ok same
        exact ofRequest?_putRequest (settings.nameOf key) (encodeValue value settings.forceBase64)
  · intro asks member
    simp only [List.mem_cons, List.not_mem_nil, or_false] at member
    rcases member with rfl | rfl
    · refine asked_naming named base "current=true&name=".toList (by decide) ?_ (head?_asked_get key)
      rw [← String.toList_inj]
      simp only [getRequest, String.toList_append, String.toList_ofList]
      rfl
    · refine asked_naming named base "name=".toList (by decide) ?_ (head?_asked_delete key)
      rw [← String.toList_inj]
      simp only [deleteRequest, String.toList_append, String.toList_ofList]
      rfl

/-! ### A store on this machine -/

def loopback : Settings where
  baseUrl := "http://127.0.0.1:8844"
  keyspace := "/kes"
  skipVerify := true

def loopbackAsked (call : Call) : List Sent :=
  Client.asked ⟨"http://127.0.0.1:8844"⟩ .standard (fun _ _ => none) "" (program loopback call).run

theorem isHost_loopback : IsHost "127.0.0.1:8844" where
  signs := List.all_iff_forall_prop.1 (by decide)
  read := ⟨⟨[], [], .four 0x7F000001, some 8844⟩, by decide +kernel, by decide, rfl⟩

theorem named_alike_iff_percent :
    IsHost "127.0.0.1:8844" ∧ loopback.baseUrl = "http://" ++ "127.0.0.1:8844" ∧
      Client.ofSettings (fun _ => .error .notFound) loopback = .ok ⟨"http://127.0.0.1:8844"⟩ ∧
      ∃ sent ∈ loopbackAsked (.get "50%"),
        valuesOf "name" sent.url.target = [Utf8.bytes "/kes/50%"] := by
  have based : loopback.baseUrl = "http://" ++ "127.0.0.1:8844" := by decide +kernel
  have base : Client.withoutEndSlashes loopback.baseUrl = "http://127.0.0.1:8844" := by decide +kernel
  have isValid : Client.ofSettings (fun _ => .error .notFound) loopback = .ok ⟨"http://127.0.0.1:8844"⟩ :=
    congrArg (fun base => Except.ok (Client.mk base)) base
  obtain ⟨sent, first⟩ : ∃ sent, (loopbackAsked (.get "50%")).head? = some sent :=
    Option.isSome_iff_exists.1 (by decide +kernel)
  have last : (loopback.nameOf "50%").toList.getLast? = some '%' := by decide +kernel
  have literal : IsLiteral (loopback.nameOf "50%").toList := {
    signs := List.all_iff_forall_prop.1 (by decide +kernel)
    ending := fun other found => Option.some.inj (last.symm.trans found) ▸ rfl
    percents := percentDecode_eq_self_iff.1 (by decide +kernel) }
  have alike := (named_alike_iff isHost_loopback based isValid .standard (fun _ _ => none) "" "50%" []).2 _
    List.mem_cons_self
  exact ⟨isHost_loopback, based, isValid, sent, List.mem_of_head? first, (alike.2 sent first).2 literal⟩

/-- A tab is dropped from an address, and an ampersand ends a name. -/
theorem loopback_named_apart :
    loopback.nameOf "a\tb" ≠ loopback.nameOf "ab" ∧
      loopbackAsked (.delete "a\tb") = loopbackAsked (.delete "ab") ∧
      (loopbackAsked (.delete "a&b")).map (valuesOf "name" ·.url.target) =
        [[Utf8.bytes (loopback.nameOf "a")]] := by
  decide +kernel

end CredHub

end SecretStore
