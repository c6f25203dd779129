import SecretStore.Base64
import SecretStore.Config.Fault
import SecretStore.Json.Fault

namespace SecretStore

inductive Transport.Kind where
  | builder
  | request
  | redirect
  | body
  deriving DecidableEq, Repr

def Transport.Kind.message : Transport.Kind → String
  | .builder => "builder error"
  | .request => "error sending request"
  | .redirect => "error following redirect"
  | .body => "request or response body error"

structure Transport where
  kind : Transport.Kind
  url : Option String := none
  deriving DecidableEq, Repr

def Transport.message (fault : Transport) : String :=
  fault.kind.message ++ match fault.url with
    | some url => s!" for url ({url})"
    | none => ""

inductive Violation where
  | malformedJson (cause : Json.Error)
  | badBase64 (cause : Base64.Fault)
  | manyVersions (count : Nat) (key : String)
  | described (text : String)
  deriving DecidableEq, Repr

def Violation.message : Violation → String
  | .malformedJson cause => "malformed JSON: " ++ cause.message
  | .badBase64 cause => "invalid base64 value: " ++ cause.message
  | .manyVersions count key => s!"received multiple entries ({count}) for the same key '{key}'"
  | .described text => text

inductive Misconfiguration where
  | fault (cause : Config.Fault)
  | described (text : String)

def Misconfiguration.message : Misconfiguration → String
  | .fault cause => cause.message
  | .described text => text

inductive Failure where
  | notFound (key : String)
  | alreadyExists (key : String)
  | notAllowed (key operation : String)
  | transport (cause : Transport)
  | cancelled
  | protocol (cause : Violation)
  | remote (operation : String) (status : Nat) (reason body : String)
  | config (cause : Misconfiguration)

namespace Failure

def message : Failure → String
  | .notFound key => s!"key '{key}' does not exist"
  | .alreadyExists key => s!"key '{key}' already exists"
  | .notAllowed key operation => s!"{operation} of key '{key}' is not allowed by this store"
  | .transport cause => "transport error: " ++ cause.message
  | .cancelled => "operation cancelled"
  | .protocol cause => "protocol violation: " ++ cause.message
  | .remote operation status reason body =>
    s!"failed to {operation} (status: {status} {reason}, response: {body})"
  | .config cause => "store configuration error: " ++ cause.message

def isNotFound : Failure → Bool
  | .notFound _ => true
  | _ => false

def isAlreadyExists : Failure → Bool
  | .alreadyExists _ => true
  | _ => false

def isTransport : Failure → Bool
  | .transport _ | .cancelled => true
  | _ => false

open Quoted in
def shown : Failure → String
  | .notFound key => wrapped "NotFound" (quoted key)
  | .alreadyExists key => wrapped "AlreadyExists" (quoted key)
  | .notAllowed key operation =>
    record "NotAllowed" [("key", quoted key), ("operation", quoted operation)]
  | .transport cause => wrapped "Transport" (quoted cause.message)
  | .cancelled => "Cancelled"
  | .protocol cause => wrapped "Protocol" (quoted cause.message)
  | .remote operation status reason body =>
    record "Remote" [("operation", quoted operation), ("status", toString status),
      ("status_text", quoted reason), ("body", quoted body)]
  | .config cause => wrapped "Config" (quoted cause.message)

end Failure

end SecretStore
