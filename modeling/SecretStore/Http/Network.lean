import SecretStore.Http.Message
import SecretStore.Http.Url.Parse

namespace SecretStore.Http

structure Sent where
  method : Method
  url : Url
  body : Option Bytes
  contentType : Option String
  deriving DecidableEq, Repr

structure Received where
  status : Nat
  location : Option String
  body : List Chunk

/-- A policy of following redirects. From the status of an answer and the method and body of the request it gives the
method and body of the request to send next, if the answer is followed at all. -/
structure Redirects where
  limit : Nat
  asks? : Nat → Method → Option Bytes → Option (Method × Option Bytes)

structure Network (σ : Type) where
  exchange : Sent → σ → Option Received × σ
  redirects : Redirects

namespace Url

def longestText : Nat := 65534

def Host.isPlain : Host → Bool
  | .domain name => name.all fun c => !(c = '"' || c = '`' || c = '\x7b' || c = '\x7d')
  | _ => true

def isAskable (url : Url) : Bool :=
  url.text.utf8ByteSize ≤ longestText && url.host?.all Host.isPlain

/-- The user goes into a header. One whose octets do not decode stays in the address. -/
def withUserApart (url : Url) : Url :=
  match url.authority with
  | none => url
  | some authority =>
    let decoded? (text : List Char) : Option (List Char) := Utf8.decode? (percentDecode (Utf8.encode text))
    match decoded? authority.user with
    | none => url
    | some user =>
      let hasPassword := authority.password ≠ [] ∧ (decoded? authority.password).isSome
      if user ≠ [] ∨ hasPassword then url.withoutUser else url

end Url

def jsonType : String := "application/json"

def Sent.ofUrl (method : Method) (url : Url) (body : Option Bytes) : Sent :=
  ⟨method, url, body, body.map fun _ => jsonType⟩

def Sent.ofText (method : Method) (address : String) (body : Option Bytes) : Except Transport Sent :=
  match Url.ofText? address with
  | none => .error ⟨.builder, none⟩
  | some url =>
    if url.host? = none then .error ⟨.builder, some url.text⟩
    else
      let url := url.withUserApart
      if url.isWeb && url.isAskable then .ok (.ofUrl method url body)
      else .error ⟨.builder, some url.text⟩

namespace Redirects

/-- 301 and 302 turn a request of some methods into a plain reading, as 303 does for all. Releases of the HTTP library
differ in these methods. -/
def turning (turns : Method → Bool) : Redirects where
  limit := 10
  asks? status method body :=
    if status = 303 ∨ status ∈ [301, 302] ∧ turns method = true then some (method.reading, none)
    else if status ∈ [301, 302, 307, 308] then some (method, body)
    else none

def standard : Redirects := turning (· = .post)

def next? (redirects : Redirects) (sent : Sent) (received : Received) : Option Sent := do
  let url ← sent.url.join? (← received.location)
  let (method, body) ← redirects.asks? received.status sent.method sent.body
  if url.isAskable then some ⟨method, url, body, body.bind fun _ => sent.contentType⟩ else none

end Redirects

def Network.unreachable : Network Unit := ⟨fun _ state => (none, state), .standard⟩

def fetchWithin {σ : Type} (network : Network σ) :
    Nat → Sent → σ → Except Transport Received × σ
  | left, sent, state =>
    match network.exchange sent state with
    | (none, state) => (.error ⟨.request, some sent.url.text⟩, state)
    | (some received, state) =>
      match network.redirects.next? sent received, left with
      | none, _ => (.ok received, state)
      | some _, 0 => (.error ⟨.redirect, some sent.url.text⟩, state)
      | some next, left + 1 =>
        if next.url.isWeb then fetchWithin network left next state
        else (.error ⟨.builder, some next.url.text⟩, state)

def fetch {σ : Type} (network : Network σ) (sent : Sent) (state : σ) : Except Transport Received × σ :=
  fetchWithin network network.redirects.limit sent state

end SecretStore.Http
