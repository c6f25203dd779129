import SecretStore.Http.Url.Host

namespace SecretStore.Http

namespace Url

structure Authority where
  user : List Char := []
  password : List Char := []
  host : Host
  /-- Absent for the default port of the scheme. -/
  port : Option Nat := none
  deriving DecidableEq, Repr

inductive Path where
  | levels (names : List (List Char))
  | flat (text : List Char)
  deriving DecidableEq, Repr

end Url

structure Url where
  scheme : List Char
  authority : Option Url.Authority := none
  path : Url.Path
  query : Option (List Char) := none
  fragment : Option (List Char) := none
  deriving DecidableEq, Repr

namespace Url

def usualPorts : List (List Char × Nat) :=
  [("http".toList, 80), ("https".toList, 443), ("ws".toList, 80), ("wss".toList, 443), ("ftp".toList, 21)]

def usualPort? (scheme : List Char) : Option Nat := usualPorts.lookup scheme

def fileScheme : List Char := "file".toList

inductive Form where
  | hosted
  | file
  | unknown
  deriving DecidableEq, Repr

def formOf (scheme : List Char) : Form :=
  if scheme = fileScheme then .file
  else if (usualPort? scheme).isSome then .hosted
  else .unknown

def Form.separates (form : Form) (c : Char) : Bool := c = '/' || (c = '\\' && form ≠ .unknown)

def isWeb (url : Url) : Bool := url.scheme = "http".toList || url.scheme = "https".toList

def Authority.userText (authority : Authority) : List Char :=
  let password := if authority.password = [] then [] else ':' :: authority.password
  let both := authority.user ++ password
  if both = [] then [] else both ++ ['@']

def Authority.text (authority : Authority) : List Char :=
  let port := match authority.port with
    | some port => ':' :: (toString port).toList
    | none => []
  authority.userText ++ authority.host.text ++ port

def Path.text : Path → List Char
  | .levels names => names.flatMap ('/' :: ·)
  | .flat text => text

/-- A path without a host does not start with two slashes, which would begin a host. -/
def Path.lonelyText : Path → List Char
  | .levels ([] :: name :: names) => '/' :: '.' :: Path.text (.levels ([] :: name :: names))
  | path => path.text

def queryText (url : Url) : List Char := (url.query.map ('?' :: ·)).getD []

def fragmentText (url : Url) : List Char := (url.fragment.map ('#' :: ·)).getD []

def placeText (url : Url) : List Char :=
  match url.authority with
  | some authority => '/' :: '/' :: authority.text ++ url.path.text
  | none => url.path.lonelyText

def text (url : Url) : String :=
  String.ofList (url.scheme ++ ':' :: url.placeText ++ url.queryText ++ url.fragmentText)

def target (url : Url) : String := String.ofList (url.path.text ++ url.queryText)

def host? (url : Url) : Option Host :=
  match url.authority with
  | some authority => if authority.host = .domain [] then none else some authority.host
  | none => none

def withoutUser (url : Url) : Url :=
  { url with authority := url.authority.map fun a => { a with user := [], password := [] } }

end Url

end SecretStore.Http
