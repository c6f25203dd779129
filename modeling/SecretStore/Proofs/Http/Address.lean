import Mathlib.Data.Bool.AllAny
import SecretStore.CredHub.Client
import SecretStore.Proofs.Http.Query

namespace SecretStore.Http

namespace Url

def isBlank (c : Char) : Bool := c.toNat ≤ 0x20

def breaksLine (c : Char) : Bool := c = '\t' || c = '\n' || c = '\r'

def cleaned (text : List Char) : List Char :=
  ((text.reverse.dropWhile isBlank).reverse).filter (!breaksLine ·)

theorem dropWhile_reverse_append {front text : List Char} {last : Char}
    (ends : front.getLast? = some last) (solid : isBlank last = false) :
    ((front ++ text).reverse.dropWhile isBlank).reverse =
      front ++ (text.reverse.dropWhile isBlank).reverse := by
  obtain ⟨front, rfl⟩ := List.getLast?_eq_some_iff.1 ends
  rw [List.reverse_append, List.dropWhile_append]
  split
  · rename_i blank
    rw [List.isEmpty_iff] at blank
    simp [blank, solid]
  · simp

theorem trimmed_append {front text : List Char} (first last : Char) (starts : front.head? = some first)
    (ends : front.getLast? = some last) (firstSolid : isBlank first = false) (lastSolid : isBlank last = false)
    (whole : ∀ c ∈ front, breaksLine c = false) : trimmed (front ++ text) = front ++ cleaned text := by
  have stays : (front ++ text).dropWhile isBlank = front ++ text := by
    cases front with
    | nil => cases starts
    | cons c front =>
        cases starts
        simp [firstSolid]
  have kept : front.filter (!breaksLine ·) = front := by
    rw [List.filter_eq_self]
    intro c member
    simp [whole c member]
  change (((front ++ text).dropWhile isBlank).reverse.dropWhile isBlank).reverse.filter (!breaksLine ·) = _
  rw [stays, dropWhile_reverse_append ends lastSolid, List.filter_append, kept]
  rfl

theorem cutAt_append {sign : Char} {front : List Char} (without : sign ∉ front) (text : List Char) :
    cutAt sign (front ++ text) = (front ++ (cutAt sign text).1, (cutAt sign text).2) := by
  have passed : ∀ c ∈ front, decide (c ≠ sign) = true := by
    intro c member
    rw [decide_eq_true_eq]
    rintro rfl
    exact without member
  rw [cutAt, List.takeWhile_append_of_pos passed, List.dropWhile_append_of_pos passed]
  rfl

theorem cutAt_sign (sign : Char) (text : List Char) : cutAt sign (sign :: text) = ([], some text) := by
  simp [cutAt]

theorem breaksLine_of_solid {c : Char} (solid : isBlank c = false) : breaksLine c = false := by
  simp only [isBlank, decide_eq_false_iff_not] at solid
  simp only [breaksLine, Bool.or_eq_false_iff, decide_eq_false_iff_not]
  refine ⟨⟨?_, ?_⟩, ?_⟩
  all_goals rintro rfl; exact solid (by decide)

def webScheme : List Char := "http".toList

/-- A host, perhaps with a port. -/
structure IsHost (host : String) : Prop where
  signs : ∀ c ∈ host.toList, isBlank c = false ∧ c ∉ ['/', '\\', '?', '#']
  read : ∃ authority, readAuthority? webScheme true host.toList = some (authority, []) ∧
    authority.host ≠ .domain [] ∧ authority.host.isPlain = true

theorem takeScheme?_web (text : List Char) :
    takeScheme? ("http://".toList ++ text) = some (webScheme, '/' :: '/' :: text) := rfl

theorem ofText_query {front : List Char} (query : List Char) (noMark : '?' ∉ front) (noSign : '#' ∉ front) :
    Parts.ofText (front ++ '?' :: query) = ⟨front, some (cutAt '#' query).1, (cutAt '#' query).2⟩ := by
  have sign : '#' ∉ front ++ ['?'] := by simp [noSign]
  have whole : front ++ '?' :: query = (front ++ ['?']) ++ query := by simp
  rw [Parts.ofText, whole, cutAt_append sign]
  simp only [List.append_assoc, List.cons_append, List.nil_append, cutAt_append noMark, cutAt_sign,
    List.append_nil]

theorem afterSlashes?_host {host : String} {authority : Authority} {parts : Parts} {rest : List Char}
    (signs : ∀ c ∈ host.toList, isBlank c = false ∧ c ∉ ['/', '\\', '?', '#'])
    (read : readAuthority? webScheme true host.toList = some (authority, [])) :
    afterSlashes? webScheme parts (host.toList ++ '/' :: rest) =
      some ⟨webScheme, some authority, rootPath .hosted ('/' :: rest), parts.queryOf .hosted,
        parts.fragmentOf⟩ := by
  have inside : ∀ c ∈ host.toList, (!Form.separates .hosted c) = true := by
    intro c member
    have := (signs c member).2
    simp_all [Form.separates]
  have named : (host.toList ++ '/' :: rest).takeWhile (!Form.separates .hosted ·) = host.toList := by
    rw [List.takeWhile_append_of_pos inside]
    simp [Form.separates]
  have path : (host.toList ++ '/' :: rest).dropWhile (!Form.separates .hosted ·) = '/' :: rest := by
    rw [List.dropWhile_append_of_pos inside]
    simp [Form.separates]
  have form : formOf webScheme = .hosted := by decide
  simp only [afterSlashes?, form, named, path, read, ne_eq, reduceCtorEq, not_false_eq_true, decide_true,
    Bool.true_or, Option.bind_eq_bind, Option.bind_some, List.nil_append, Option.pure_def]

theorem absolute?_host {host : String} {authority : Authority} {parts : Parts} {rest : List Char}
    (signs : ∀ c ∈ host.toList, isBlank c = false ∧ c ∉ ['/', '\\', '?', '#'])
    (read : readAuthority? webScheme true host.toList = some (authority, []))
    (place : parts.place = '/' :: '/' :: (host.toList ++ '/' :: rest)) :
    absolute? webScheme parts =
      some ⟨webScheme, some authority, rootPath .hosted ('/' :: rest), parts.queryOf .hosted,
        parts.fragmentOf⟩ := by
  have form : formOf webScheme = .hosted := by decide
  have behind : ('/' :: '/' :: (host.toList ++ '/' :: rest)).dropWhile (Form.separates .hosted) =
      host.toList ++ '/' :: rest := by
    have slash : Form.separates .hosted '/' = true := by decide
    rw [List.dropWhile_cons_of_pos slash, List.dropWhile_cons_of_pos slash]
    cases text : host.toList with
    | nil =>
        rw [text] at read
        cases read
    | cons c more =>
        have := (signs c (by simp [text])).2
        rw [List.cons_append, List.dropWhile_cons_of_neg]
        simp_all [Form.separates]
  rw [absolute?, form, place]
  dsimp only
  rw [behind, afterSlashes?_host signs read]

/-- A fixed path, and a query that ends in any text. -/
structure Aim where
  path : List Char
  lead : List Char
  solid : ∀ c ∈ path ++ '?' :: lead, breaksLine c = false ∧ c ≠ '#'
  unmarked : '?' ∉ path
  ends : ∃ last, lead.getLast? = some last ∧ isBlank last = false

def Aim.text (aim : Aim) (name : List Char) : List Char := '/' :: (aim.path ++ '?' :: (aim.lead ++ name))

def Aim.query (aim : Aim) (name : List Char) : List Char :=
  aim.lead ++ (cutAt '#' (cleaned name)).1

theorem ofText?_aim {host : String} {authority : Authority} (aim : Aim)
    (signs : ∀ c ∈ host.toList, isBlank c = false ∧ c ∉ ['/', '\\', '?', '#'])
    (read : readAuthority? webScheme true host.toList = some (authority, [])) (name : List Char) :
    ofText? (String.ofList ("http://".toList ++ (host.toList ++ aim.text name))) =
      some ⟨webScheme, some authority, rootPath .hosted ('/' :: aim.path),
        some (percentEncode hidesInSpecialQuery (aim.query name)),
        (cutAt '#' (cleaned name)).2.map (percentEncode hidesInFragment)⟩ := by
  obtain ⟨last, ends, solid⟩ := aim.ends
  have front : trimmed ("http://".toList ++ (host.toList ++ aim.text name)) =
      "http://".toList ++ (host.toList ++ aim.text (cleaned name)) := by
    have whole (text : List Char) : "http://".toList ++ (host.toList ++ aim.text text) =
        ("http://".toList ++ (host.toList ++ '/' :: (aim.path ++ '?' :: aim.lead))) ++ text := by
      simp [Aim.text]
    rw [whole, whole]
    refine trimmed_append 'h' last rfl ?_ (by decide) solid ?_
    · simp [List.getLast?_append, List.getLast?_cons, ends]
    · intro c member
      simp only [List.mem_append, List.mem_cons] at member
      rcases member with member | member | rfl | member
      · have plain : ∀ c ∈ "http://".toList, breaksLine c = false := List.all_iff_forall_prop.1 (by decide)
        exact plain c member
      · exact breaksLine_of_solid (signs c member).1
      · rfl
      · exact (aim.solid c (by simpa using member)).1
  have cut : Parts.ofText ('/' :: '/' :: (host.toList ++ aim.text (cleaned name))) =
      ⟨'/' :: '/' :: (host.toList ++ '/' :: aim.path), some (aim.query name), (cutAt '#' (cleaned name)).2⟩ := by
    have inPath : ∀ c ∈ aim.path, c ≠ '#' ∧ c ≠ '?' := fun c member =>
      ⟨(aim.solid c (by simp [member])).2, fun same => aim.unmarked (same ▸ member)⟩
    have inLead : '#' ∉ aim.lead := fun member => (aim.solid '#' (by simp [member])).2 rfl
    have inHost (sign : Char) (member : sign ∈ host.toList) : sign ∉ ['/', '\\', '?', '#'] :=
      (signs sign member).2
    have noMark : '?' ∉ '/' :: '/' :: (host.toList ++ '/' :: aim.path) := by
      have := inHost '?'
      have := aim.unmarked
      simp_all
    have noSign : '#' ∉ '/' :: '/' :: (host.toList ++ '/' :: aim.path) := by
      have := inHost '#'
      have := fun member => (inPath '#' member).1
      simp_all
    have parts := ofText_query (aim.lead ++ cleaned name) noMark noSign
    rw [cutAt_append inLead] at parts
    simpa [Aim.text, Aim.query] using parts
  rw [ofText?, String.toList_ofList, front, takeScheme?_web]
  simp only [Option.bind_eq_bind, Option.bind_some, cut]
  rw [absolute?_host signs read rfl]
  rfl

theorem withUserApart_cases (url : Url) :
    url.withUserApart = url ∨ url.withUserApart = url.withoutUser := by
  rw [withUserApart]
  split
  · exact Or.inl rfl
  · dsimp only
    split
    · exact Or.inl rfl
    · split
      · exact Or.inr rfl
      · exact Or.inl rfl

theorem target_withUserApart (url : Url) : url.withUserApart.target = url.target := by
  rcases url.withUserApart_cases with same | same <;> rw [same]
  rfl

theorem isWeb_withUserApart (url : Url) : url.withUserApart.isWeb = url.isWeb := by
  rcases url.withUserApart_cases with same | same <;> rw [same]
  rfl

theorem host?_withUserApart (url : Url) : url.withUserApart.host? = url.host? := by
  rcases url.withUserApart_cases with same | same <;> rw [same]
  cases authority : url.authority <;> simp [host?, withoutUser, authority]

def Fits (url : Url) : Prop := url.withUserApart.text.utf8ByteSize ≤ longestText

instance (url : Url) : Decidable url.Fits := inferInstanceAs (Decidable (_ ≤ _))

end Url

theorem Sent.ofText_host (method : Method) (body : Option Bytes) {address : String} {url : Url}
    {host : Url.Host} (read : Url.ofText? address = some url) (named : url.host? = some host)
    (plain : host.isPlain = true) (web : url.isWeb = true) :
    (url.Fits → Sent.ofText method address body = .ok (.ofUrl method url.withUserApart body)) ∧
      (¬ url.Fits → ∃ fault, Sent.ofText method address body = .error fault) := by
  have asked : (url.withUserApart.isWeb && url.withUserApart.isAskable) = true ↔ url.Fits := by
    simp [Url.isWeb_withUserApart, Url.isAskable, Url.host?_withUserApart, web, named, plain, Url.Fits]
  simp only [Sent.ofText, read, named, reduceCtorEq, ↓reduceIte, asked]
  constructor
  · intro fits
    rw [if_pos fits]
  · intro long
    exact ⟨_, if_neg long⟩

theorem Sent.ofText_eq_ok {method : Method} {address : String} {body : Option Bytes} {sent : Sent}
    (made : Sent.ofText method address body = .ok sent) : ∃ url, sent = .ofUrl method url body := by
  rw [Sent.ofText] at made
  split at made
  · cases made
  · split at made
    · cases made
    · dsimp only at made
      split at made
      · cases made
        exact ⟨_, rfl⟩
      · cases made

end SecretStore.Http
