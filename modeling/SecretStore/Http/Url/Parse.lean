import SecretStore.Http.Url

namespace SecretStore.Http.Url

/-- Controls and blanks at both ends are removed, and line ends and tabs everywhere. -/
def trimmed (text : List Char) : List Char :=
  let isBlank (c : Char) : Bool := c.toNat ≤ 0x20
  let inner := ((text.dropWhile isBlank).reverse.dropWhile isBlank).reverse
  inner.filter fun c => !(c = '\t' || c = '\n' || c = '\r')

def cutAt (sign : Char) (text : List Char) : List Char × Option (List Char) :=
  (text.takeWhile (· ≠ sign),
    match text.dropWhile (· ≠ sign) with
    | [] => none
    | _ :: rest => some rest)

def cutAtLast (sign : Char) (text : List Char) : Option (List Char × List Char) :=
  match cutAt sign text.reverse with
  | (after, some before) => some (before.reverse, after.reverse)
  | (_, none) => none

structure Parts where
  place : List Char
  query : Option (List Char)
  fragment : Option (List Char)

def Parts.ofText (text : List Char) : Parts :=
  let (before, fragment) := cutAt '#' text
  let (place, query) := cutAt '?' before
  ⟨place, query, fragment⟩

def Parts.queryOf (parts : Parts) (form : Form) : Option (List Char) :=
  parts.query.map (percentEncode (if form = .unknown then hidesInQuery else hidesInSpecialQuery))

def Parts.fragmentOf (parts : Parts) : Option (List Char) :=
  parts.fragment.map (percentEncode hidesInFragment)

def Parts.goesOn (parts : Parts) : Bool := parts.query.isSome || parts.fragment.isSome

def takeScheme? (text : List Char) : Option (List Char × List Char) :=
  let isSchemeChar (c : Char) : Bool := c.isAlphanum || c = '+' || c = '-' || c = '.'
  let scheme := text.takeWhile isSchemeChar
  match text.dropWhile isSchemeChar with
  | ':' :: rest =>
    if (scheme.head?).any Char.isAlpha then some (scheme.map Char.toLower, rest) else none
  | _ => none

def splitNames (form : Form) : List Char → List (List Char)
  | [] => [[]]
  | c :: rest =>
    if form.separates c then [] :: splitNames form rest
    else match splitNames form rest with
      | [] => [[c]]
      | name :: names => (c :: name) :: names

def dropDot : List Char → Option (List Char)
  | '.' :: rest => some rest
  | '%' :: '2' :: 'e' :: rest | '%' :: '2' :: 'E' :: rest => some rest
  | _ => none

def isOneDot (name : List Char) : Bool := dropDot name = some []

def isTwoDots (name : List Char) : Bool := (dropDot name).any isOneDot

def isDrive : List Char → Bool
  | [letter, sign] => letter.isAlpha && (sign = ':' || sign = '|')
  | _ => false

/-- A drive letter is never removed. -/
def parent (form : Form) (names : List (List Char)) : List (List Char) :=
  match names with
  | [name] => if form = .file ∧ isDrive name then [name] else []
  | names => names.dropLast

def child (form : Form) (names : List (List Char)) (name : List Char) : List (List Char) :=
  if form = .file ∧ names = [] ∧ isDrive name then [[name.headD ' ', ':']]
  else names ++ [percentEncode hidesInPath name]

def follow (form : Form) (before : List (List Char)) : List (List Char) → List (List Char)
  | [] => before
  | name :: rest =>
    let level (names : List (List Char)) := if rest = [] then names ++ [[]] else names
    follow form
      (if isTwoDots name then level (parent form before)
        else if isOneDot name then level before
        else child form before name)
      rest

def pathFrom (form : Form) (before : List (List Char)) (text : List Char) : Path :=
  .levels (follow form before (splitNames form text))

def rootPath (form : Form) (text : List Char) : Path :=
  match text with
  | [] => if form = .unknown then .levels [] else .levels [[]]
  | c :: rest => if form.separates c then pathFrom form [] rest else pathFrom form [] text

def spanHost : Bool → List Char → List Char × List Char
  | _, [] => ([], [])
  | inside, c :: rest =>
    if c = ':' ∧ !inside then ([], c :: rest)
    else
      let (host, after) := spanHost (if c = '[' then true else if c = ']' then false else inside) rest
      (c :: host, after)

def highestPort : Nat := 65535

def takePort? (scheme : List Char) (text : List Char) : Option (Option Nat × List Char) :=
  let digits := text.takeWhile Char.isDigit
  let rest := text.dropWhile Char.isDigit
  let port := digits.foldl (fun value c => value * 10 + (c.toNat - '0'.toNat)) 0
  if highestPort < port ∨ (rest ≠ [] ∧ rest.head? ≠ some '\\') then none
  else some (if digits = [] ∨ usualPort? scheme = some port then none else some port, rest)

def readUser (text : List Char) : List Char × List Char :=
  let (user, password) := cutAt ':' text
  (percentEncode hidesInUser user, percentEncode hidesInUser (password.getD []))

def readAuthority? (scheme : List Char) (goesOn : Bool) (text : List Char) :
    Option (Authority × List Char) := do
  let form := formOf scheme
  let (userPart, hostPart) := match cutAtLast '@' text with
    | some (user, host) => (some user, host)
    | none => (none, text)
  if userPart = some [] ∧ hostPart = [] ∧ goesOn then none
  let (user, password) := readUser (userPart.getD [])
  let (hostText, portPart) := spanHost false hostPart
  if hostText = [] ∧ (form ≠ .unknown ∨ portPart ≠ [] ∨ user ≠ [] ∨ password ≠ []) then none
  let host ← if form = .unknown then Host.ofOpaque? hostText else Host.ofText? hostText
  match portPart with
  | [] => return (⟨user, password, host, none⟩, [])
  | _ :: digits =>
    let (port, rest) ← takePort? scheme digits
    return (⟨user, password, host, port⟩, rest)

def afterSlashes? (scheme : List Char) (parts : Parts) (text : List Char) : Option Url := do
  let form := formOf scheme
  let named := text.takeWhile (!form.separates ·)
  let path := text.dropWhile (!form.separates ·)
  let (authority, rest) ← readAuthority? scheme (path ≠ [] || parts.goesOn) named
  return ⟨scheme, some authority, rootPath form (rest ++ path), parts.queryOf form, parts.fragmentOf⟩

def withoutEmptyStart (names : List (List Char)) : List (List Char) :=
  match names.dropWhile (· = []) with
  | [] => [[]]
  | names => names

def fileHost? (text : List Char) : Option Host :=
  if text = [] then some (.domain [])
  else (Host.ofText? text).map fun host =>
    if host = .domain "localhost".toList then .domain [] else host

def file? (parts : Parts) : Option Url := do
  let separates := Form.separates .file
  let (hostText, pathText) :=
    match parts.place with
    | a :: b :: rest =>
      let named := rest.takeWhile (!separates ·)
      if separates a && separates b then
        if isDrive named then ([], rest) else (named, rest.dropWhile (!separates ·))
      else ([], parts.place)
    | place => ([], place)
  let host ← fileHost? hostText
  let path := match rootPath .file pathText with
    | .levels names => Path.levels (withoutEmptyStart names)
    | path => path
  return ⟨fileScheme, some { host }, path, parts.queryOf .file, parts.fragmentOf⟩

def unknown? (scheme : List Char) (parts : Parts) : Option Url :=
  match parts.place with
  | '/' :: '/' :: rest => afterSlashes? scheme parts rest
  | '/' :: rest =>
    some ⟨scheme, none, pathFrom .unknown [] rest, parts.queryOf .unknown, parts.fragmentOf⟩
  | place =>
    some ⟨scheme, none, .flat (percentEncode isControl place), parts.queryOf .unknown, parts.fragmentOf⟩

def absolute? (scheme : List Char) (parts : Parts) : Option Url :=
  match formOf scheme with
  | .hosted => afterSlashes? scheme parts (parts.place.dropWhile (Form.separates .hosted))
  | .file => file? parts
  | .unknown => unknown? scheme parts

def ofText? (text : String) : Option Url := do
  let (scheme, rest) ← takeScheme? (trimmed text.toList)
  absolute? scheme (.ofText rest)

def relative? (base : Url) (parts : Parts) : Option Url :=
  let form := formOf base.scheme
  let separates := form.separates
  let query := parts.queryOf form
  let names := match base.path with
    | .levels names => names
    | .flat _ => []
  match parts.place with
  | [] =>
    let query := if parts.query.isSome then query else base.query
    some { base with query, fragment := parts.fragmentOf }
  | a :: rest =>
    if !separates a then
      some { base with
        path := pathFrom form names.dropLast parts.place, query, fragment := parts.fragmentOf }
    else if rest.head?.any separates then
      afterSlashes? base.scheme parts (rest.dropWhile separates)
    else
      some { base with path := pathFrom form [] rest, query, fragment := parts.fragmentOf }

/-- A reference that repeats the scheme without two slashes behind it is a relative one. -/
def join? (base : Url) (reference : String) : Option Url :=
  let text := trimmed reference.toList
  match takeScheme? text with
  | none => relative? base (.ofText text)
  | some (scheme, rest) =>
    let parts := Parts.ofText rest
    if scheme = base.scheme ∧ ((parts.place.takeWhile (formOf scheme).separates).length < 2) then
      relative? base parts
    else absolute? scheme parts

end SecretStore.Http.Url
