import SecretStore.Http.Message
import SecretStore.Json.Reader
import SecretStore.Log

namespace SecretStore.Http

abbrev Token := String

inductive Program (α : Type) where
  | done (value : α)
  | log (line : Log.Line) (next : Program α)
  | send (request : Request) (next : Except Failure Response → Program α)
  | await (request : Request) (next : Except Failure Response → Program α)
  | read (taken : Bytes) (body : List Chunk) (next : Except Failure Bytes → Program α)

namespace Program

def bind {α β : Type} : Program α → (α → Program β) → Program β
  | .done value, f => f value
  | .log line next, f => .log line (next.bind f)
  | .send request next, f => .send request fun result => (next result).bind f
  | .await request next, f => .await request fun result => (next result).bind f
  | .read taken body next, f => .read taken body fun result => (next result).bind f

instance : Monad Program where
  pure := .done
  bind := bind

structure Host (σ : Type) where
  log : Log.Line → σ → σ
  isCancelled : Token → σ → Bool
  send : Token → Request → σ → Except Failure Unit × σ
  receive : Token → Request → σ → Option (Except Failure Response × σ)

def run {σ α : Type} (host : Host σ) (token : Token) : Program α → σ → Program α × σ
  | .done value, state => (.done value, state)
  | .log line next, state => run host token next (host.log line state)
  | .send request next, state =>
    match host.send token request state with
    | (.error failure, state) => run host token (next (.error failure)) state
    | (.ok (), state) =>
      match host.receive token request state with
      | none => (.await request next, state)
      | some (result, state) => run host token (next result) state
  | .await request next, state =>
    match host.receive token request state with
    | none => (.await request next, state)
    | some (result, state) => run host token (next result) state
  | .read taken body next, state =>
    match readOn (host.isCancelled token state) taken body with
    | .read result => run host token (next result) state
    | .waiting taken body => (.read taken body next, state)

def result? {α : Type} : Program α → Option α
  | .done value => some value
  | _ => none

end Program

abbrev Action (α : Type) := ExceptT Failure Program α

namespace Action

def log (line : Log.Line) : Action Unit :=
  ExceptT.mk (.log line (.done (.ok ())))

def request (request : Request) : Action Response :=
  ExceptT.mk (.send request .done)

def readBody (response : Response) : Action Bytes :=
  ExceptT.mk (.read [] response.body .done)

def readText (response : Response) : Action String := do
  return Utf8.lossy (← readBody response)

def decode {α : Type} (reader : Json.Reader α) (octets : Bytes) : Except Failure α :=
  (reader.whole octets).mapError fun cause => .protocol (.malformedJson cause)

def ofResult {α : Type} (result : Except Failure α) : Action α :=
  ExceptT.mk (.done result)

def readJson {α : Type} (reader : Json.Reader α) (response : Response) : Action α := do
  ofResult (decode reader (← readBody response))

end Action

end SecretStore.Http
