import SecretStore.Failure
import SecretStore.Text.Utf8

namespace SecretStore.Http

structure Method where
  name : String
  deriving DecidableEq, Repr

namespace Method

def get : Method := ⟨"GET"⟩
def head : Method := ⟨"HEAD"⟩
def post : Method := ⟨"POST"⟩
def put : Method := ⟨"PUT"⟩
def delete : Method := ⟨"DELETE"⟩

def reading (method : Method) : Method := if method = head then head else get

end Method

structure Request where
  method : Method
  path : String
  body : Option Bytes
  deriving DecidableEq, Repr

inductive Chunk where
  | octets (octets : Bytes)
  | failure (failure : Failure)
  /-- The stream stays open, and nothing more arrives. -/
  | silence

structure Response where
  status : Nat
  reason : String
  body : List Chunk

namespace Response

def ofBytes (status : Nat) (reason : String) (octets : Bytes) : Response :=
  ⟨status, reason, [.octets octets]⟩

def isSuccess (response : Response) : Bool := 200 ≤ response.status && response.status < 300

def isNotFound (response : Response) : Bool := response.status = 404

def shown (response : Response) : String :=
  Quoted.record "HttpResponse"
    [("status", toString response.status), ("status_text", Quoted.quoted response.reason)]

end Response

inductive Reading where
  | read (result : Except Failure Bytes)
  | waiting (taken : Bytes) (rest : List Chunk)

def takeChunks (taken : Bytes) : List Chunk → Reading
  | [] => .read (.ok taken)
  | .octets octets :: rest => takeChunks (taken ++ octets) rest
  | .failure failure :: _ => .read (.error failure)
  | .silence :: rest => .waiting taken (.silence :: rest)

def readOn (cancelled : Bool) (taken : Bytes) (body : List Chunk) : Reading :=
  if cancelled then .read (.error .cancelled) else takeChunks taken body

end SecretStore.Http
