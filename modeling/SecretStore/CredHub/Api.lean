import SecretStore.Http.Message
import SecretStore.Json.Reader

namespace SecretStore.CredHub

open Http

def dataPath : String := "/api/v1/data"

def credentialName (keyspace key : String) : String := keyspace ++ "/" ++ key

def healthRequest : Request := ⟨.get, "/health", none⟩

def getRequest (name : String) : Request := ⟨.get, dataPath ++ "?current=true&name=" ++ name, none⟩

def deleteRequest (name : String) : Request := ⟨.delete, dataPath ++ "?name=" ++ name, none⟩

def listRequest (path : String) : Request := ⟨.get, dataPath ++ "?path=" ++ path, none⟩

def putBody (name text : String) : String :=
  Json.writeRecord [("name", name), ("type", "value"), ("value", text)]

def putRequest (name text : String) : Request :=
  ⟨.put, dataPath, some (Utf8.bytes (putBody name text))⟩

open Json

def healthReader : Reader String :=
  .record ⟨"struct HealthResponse", "status", none⟩ .text

def versionsReader : Reader (List String) :=
  .record ⟨"struct DataResponse", "data", some []⟩
    (.list (.record ⟨"struct CredentialVersion", "value", none⟩ .text))

def namesReader : Reader (List String) :=
  .record ⟨"struct FindResponse", "credentials", some []⟩
    (.list (.record ⟨"struct CredentialName", "name", none⟩ .text))

end SecretStore.CredHub
