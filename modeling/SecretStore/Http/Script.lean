import SecretStore.Http.Program
import SecretStore.Text.Search

namespace SecretStore.Http

structure Reply where
  /-- A text that the request has to contain, if the reply is not for any request. -/
  meantFor : Option String
  result : Except Failure Response

def Request.title (request : Request) : String := request.method.name ++ " " ++ request.path

def Reply.suits (reply : Reply) (request : Request) : Bool :=
  reply.meantFor.all fun text => Search.occursIn text.toList request.title.toList

structure Script where
  cancelled : List Token
  replies : List Reply
  requests : List Request
  lines : List Log.Line
  taken : Nat

namespace Script

def ofReplies (replies : List Reply) : Script := ⟨[], replies, [], [], 0⟩

def isCancelled (token : Token) (script : Script) : Bool := script.cancelled.contains token

def cancel (token : Token) (script : Script) : Script :=
  { script with cancelled := token :: script.cancelled }

def takeFirst {α : Type} (passes : α → Bool) : List α → Option (α × List α)
  | [] => none
  | a :: rest =>
    if passes a then some (a, rest)
    else (takeFirst passes rest).map fun (found, others) => (found, a :: others)

def send (token : Token) (request : Request) (script : Script) : Except Failure Unit × Script :=
  if script.isCancelled token then (.error .cancelled, script)
  else (.ok (), { script with requests := script.requests ++ [request] })

def receive (token : Token) (request : Request) (script : Script) :
    Option (Except Failure Response × Script) :=
  if script.isCancelled token then some (.error .cancelled, script)
  else (takeFirst (·.suits request) script.replies).map fun (reply, replies) =>
    (reply.result, { script with replies, taken := script.taken + 1 })

def host : Program.Host Script where
  log line script := { script with lines := script.lines ++ [line] }
  isCancelled := isCancelled
  send := send
  receive := receive

def cleared (script : Script) : Script := { script with requests := [], lines := [] }

end Script

end SecretStore.Http
