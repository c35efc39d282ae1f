import WorkflowCompiler.Json.Decoding

/-!
# Records of the collaborators

What collaborators know about credentials, databases and tools, and its JSON form.
-/
namespace WorkflowCompiler

open Decode

variable {α : Type} [Readable α]

/-- Credentials for an online model. -/
structure ApiKey where
  apiKey : String
  secretKey : String := ""
  deriving DecidableEq

/-- How to reach a database. -/
structure DatabaseInfo where
  dbType : String
  user : String := ""
  password : String := ""
  host : String := ""
  port : Json := .null
  dbName : String := ""
  optionsStr : String := ""
  deriving DecidableEq

/-- The endpoint of a tool. -/
structure ToolHttp where
  method : String := "GET"
  url : String
  header : JsonObject := []
  params : JsonObject := []
  body : Option Json := none
  timeout : Option Nat := none
  deriving DecidableEq

/-- Where the credential of a tool is put. -/
inductive AuthLocation
  | header
  | query
  deriving DecidableEq

/-- The credential of a tool. -/
structure ToolAuth where
  location : AuthLocation := .header
  key : String
  value : String
  deriving DecidableEq

/-- A registered tool. -/
structure ToolRecord where
  name : String
  description : String := ""
  http : Option ToolHttp := none
  auth : Option ToolAuth := none
  deriving DecidableEq

/-- The server that offers a remote tool. -/
structure ToolServer where
  name : String
  transport : String
  command : Option String := none
  args : List String := []
  env : JsonObject := []
  url : Option String := none
  headers : JsonObject := []
  deriving DecidableEq

/-- A tool offered by a server. -/
structure ServedTool where
  name : String
  description : String := ""
  inputSchema : Option Json := none
  server : ToolServer
  deriving DecidableEq

namespace ApiKey

/-- Decodes credentials. -/
def decode : α → Except DecodeError ApiKey :=
  record "struct ApiKey"
    [ required "api_key" string fun v k => { k with apiKey := v },
      defaulted "secret_key" string fun v k => { k with secretKey := v } ]
    { apiKey := "" }

/-- Encodes credentials. -/
def encode (key : ApiKey) : Json :=
  .object [("api_key", .string key.apiKey), ("secret_key", .string key.secretKey)]

end ApiKey

namespace DatabaseInfo

/-- Decodes a database. -/
def decode : α → Except DecodeError DatabaseInfo :=
  record "struct DatabaseInfo"
    [ required "db_type" string fun v d => { d with dbType := v },
      defaulted "user" string fun v d => { d with user := v },
      defaulted "password" string fun v d => { d with password := v },
      defaulted "host" string fun v d => { d with host := v },
      defaulted "port" json fun v d => { d with port := v },
      defaulted "db_name" string fun v d => { d with dbName := v },
      defaulted "options_str" string fun v d => { d with optionsStr := v } ]
    { dbType := "" }

/-- The fields of a database under their keys. -/
def fields (info : DatabaseInfo) : JsonObject :=
  [ ("db_type", .string info.dbType),
    ("user", .string info.user),
    ("password", .string info.password),
    ("host", .string info.host),
    ("port", info.port),
    ("db_name", .string info.dbName),
    ("options_str", .string info.optionsStr) ]

/-- Encodes a database. -/
def encode (info : DatabaseInfo) : Json := .object info.fields

end DatabaseInfo

namespace ToolHttp

/-- Decodes an endpoint. -/
def decode : α → Except DecodeError ToolHttp :=
  record "struct ToolHttp"
    [ defaulted "method" string fun v t => { t with method := v },
      required "url" string fun v t => { t with url := v },
      defaulted "header" (map json) fun v t => { t with header := v },
      defaulted "params" (map json) fun v t => { t with params := v },
      defaulted "body" (optional json) fun v t => { t with body := v },
      defaulted "timeout" (optional (natural "u64")) fun v t => { t with timeout := v } ]
    { url := "" }

/-- Encodes an endpoint. -/
def encode (http : ToolHttp) : Json :=
  .object
    [ ("method", .string http.method),
      ("url", .string http.url),
      ("header", .object http.header),
      ("params", .object http.params),
      ("body", http.body.getD .null),
      ("timeout", (http.timeout.map Json.ofNat).getD .null) ]

end ToolHttp

namespace AuthLocation

/-- The locations by name. -/
def names : List (String × AuthLocation) := [("header", .header), ("query", .query)]

/-- Encodes a location. -/
def encode : AuthLocation → Json
  | .header => .string "header"
  | .query => .string "query"

end AuthLocation

namespace ToolAuth

/-- Decodes the credential of a tool. -/
def decode : α → Except DecodeError ToolAuth :=
  record "struct ToolAuth"
    [ defaulted "location" (choice AuthLocation.names) fun v a => { a with location := v },
      required "key" string fun v a => { a with key := v },
      required "value" string fun v a => { a with value := v } ]
    { key := "", value := "" }

/-- Encodes the credential of a tool. -/
def encode (auth : ToolAuth) : Json :=
  .object
    [ ("location", auth.location.encode),
      ("key", .string auth.key),
      ("value", .string auth.value) ]

end ToolAuth

namespace ToolRecord

/-- Decodes a tool. -/
def decode : α → Except DecodeError ToolRecord :=
  record "struct ToolRecord"
    [ required "name" string fun v t => { t with name := v },
      defaulted "description" string fun v t => { t with description := v },
      defaulted "http" (optional ToolHttp.decode) fun v t => { t with http := v },
      defaulted "auth" (optional ToolAuth.decode) fun v t => { t with auth := v } ]
    { name := "" }

/-- Encodes a tool. -/
def encode (tool : ToolRecord) : Json :=
  .object
    [ ("name", .string tool.name),
      ("description", .string tool.description),
      ("http", (tool.http.map ToolHttp.encode).getD .null),
      ("auth", (tool.auth.map ToolAuth.encode).getD .null) ]

end ToolRecord

namespace ToolServer

/-- Decodes a server. -/
def decode : α → Except DecodeError ToolServer :=
  record "struct McpServerRecord"
    [ required "name" string fun v s => { s with name := v },
      required "transport" string fun v s => { s with transport := v },
      defaulted "command" (optional string) fun v s => { s with command := v },
      defaulted "args" (list string) fun v s => { s with args := v },
      defaulted "env" (map json) fun v s => { s with env := v },
      defaulted "url" (optional string) fun v s => { s with url := v },
      defaulted "headers" (map json) fun v s => { s with headers := v } ]
    { name := "", transport := "" }

/-- Encodes a server. -/
def encode (server : ToolServer) : Json :=
  .object
    [ ("name", .string server.name),
      ("transport", .string server.transport),
      ("command", .ofString? server.command),
      ("args", .ofStrings server.args),
      ("env", .object server.env),
      ("url", .ofString? server.url),
      ("headers", .object server.headers) ]

end ToolServer

namespace ServedTool

/-- Decodes a tool of a server. -/
def decode : α → Except DecodeError ServedTool :=
  record "struct McpToolRecord"
    [ required "name" string fun v t => { t with name := v },
      defaulted "description" string fun v t => { t with description := v },
      defaulted "input_schema" (optional json) fun v t => { t with inputSchema := v },
      required "server" ToolServer.decode fun v t => { t with server := v } ]
    { name := "", server := { name := "", transport := "" } }

/-- Encodes a tool of a server. -/
def encode (tool : ServedTool) : Json :=
  .object
    [ ("name", .string tool.name),
      ("description", .string tool.description),
      ("input_schema", tool.inputSchema.getD .null),
      ("server", tool.server.encode) ]

end ServedTool

end WorkflowCompiler
