import SecretStore.Failure
import SecretStore.Text.Search

namespace SecretStore.CredHub

def marker : String := "Base64:"

def base64Text (value : Bytes) : String :=
  String.ofList (marker.toList ++ (Base64.encode value).map fun a => Char.ofNat a.toNat)

def plainText? (value : Bytes) : Option String :=
  (Utf8.text? value).filter fun text => (Search.after? marker.toList text.toList).isNone

def encodeValue (value : Bytes) (force : Bool) : String :=
  match plainText? value with
  | some text => if force then base64Text value else text
  | none => base64Text value

def decodeValue (text : String) : Except Failure Bytes :=
  match Search.after? marker.toList text.toList with
  | some payload =>
    (Base64.decode (Utf8.encode payload)).mapError fun cause => .protocol (.badBase64 cause)
  | none => .ok (Utf8.bytes text)

end SecretStore.CredHub
