import WorkflowCompiler.Collaborators.Basic
import WorkflowCompiler.Node.Basic

/-!
# Building nodes

The body of every kind that needs no graph of its own, from the payload of the node and the
answers of the collaborators. A node whose payload or collaborators do not suffice cannot be
built.
-/
namespace WorkflowCompiler

namespace Node

/-- A node that is being built, or the reason why it cannot be. -/
abbrev Built := Except CompileError Node

/-- The node with a body. -/
def withBody (node : Node) (body : NodeBody) : Node := { node with body }

/-! ## Models -/

/-- The credentials of an online model: those written on the node, else those stored under the id
that the node gives, else those stored under the id of the model with this name. -/
def resolveApiKey (c : Collaborators) (node : Node) (baseModel : String) :
    Except CompileError (ApiKey × Node) := do
  match node.payloadString "api_key" with
  | some key => return (⟨key, node.payloadText "secret_key"⟩, node)
  | none =>
    let models ← c.needModels
    let keyId ←
      match node.payloadString "api_key_id" with
      | some id => pure (some id)
      | none => if baseModel = "" then pure none else (models.idByName baseModel).get?
    match keyId with
    | none => throw (.missingApiKey node.id)
    | some keyId =>
      match ← (models.apiKeyById keyId).get? with
      | some key =>
        if key.apiKey = "" then throw (.missingApiKey node.id)
        else return (key, node.referToModel keyId)
      | none => throw (.missingApiKey node.id)

/-- A local model: its path, looked up by the id that the node gives. -/
def resolveLocal (c : Collaborators) (node : Node) : Except CompileError (ModelSource × Node) := do
  let modelId ←
    match node.payloadString "base_model_id" with
    | some id => pure id
    | none => node.requireString "base_model"
  let models ← c.needModels
  let path ← (models.pathById modelId).get "model" modelId
  return (.onDisk path ((node.payloadString "deploy_method").getD "auto"),
    node.referToModel modelId)

/-- The model of a node, online when a source other than `local` is given. -/
def resolveModel (c : Collaborators) (node : Node) :
    Except CompileError (ModelSource × Node) := do
  match (node.payloadString "source").filter fun source => source ≠ "local" with
  | some source =>
    let baseModel :=
      ((node.payloadString "base_model").orElse fun _ =>
        node.payloadString "embed_model_name").getD ""
    let (credentials, node) ← resolveApiKey c node baseModel
    return (.online source baseModel (node.payloadString "base_url") credentials, node)
  | none => resolveLocal c node

/-- Splits a list into pairs of neighbours; a last item without a neighbour stays alone. -/
def pairs : List Json → List Json
  | a :: b :: rest => .array [a, b] :: pairs rest
  | [a] => [.array [a]]
  | [] => []

/-- The built-in history of a chat, question and answer in turn, as a list of pairs. -/
def historyPairs (node : Node) : Except CompileError Json :=
  match node.payload "buildin_history" with
  | none => .ok (.array [])
  | some (.array items) =>
      if items.length % 2 = 0 then .ok (.array (pairs items))
      else .error (.invalidHistory node.id "expected an even number of messages")
  | some _ => .error (.invalidHistory node.id "expected a list")

/-- The payload values that tune a model. -/
def hyperparameterKeys : List String := ["temperature", "top_p", "top_k", "max_tokens"]

/-- The tuning values that are set. -/
def hyperparameters (node : Node) : JsonObject :=
  hyperparameterKeys.filterMap fun key => (node.payload key).map fun value => (key, value)

/-- Builds a chat model. -/
def buildLlm (c : Collaborators) (node : Node) : Built := do
  let history ← node.historyPairs
  let (source, node) ← resolveModel c node
  let node := { node with hyperparameter := node.hyperparameters }
  return node.withBody (.llm
    { source, history,
      prompt := node.payloadOrNull "prompt"
      stream := node.payloadBool "stream" true })

/-- Builds a model that always runs locally. -/
def buildLocalModel (c : Collaborators) (node : Node) : Built := do
  let (source, node) ← resolveLocal c node
  return node.withBody (.localModel source)

/-- Builds an embedding model. -/
def buildEmbedding (c : Collaborators) (node : Node) : Built := do
  let (source, node) ← resolveModel c node
  return node.withBody (.embedding source)

/-- Builds a reranker; only a module reranker uses a model. -/
def buildReranker (c : Collaborators) (node : Node) : Built := do
  let rerankerType := (node.payloadString "type").getD "ModuleReranker"
  let (source, node) ←
    if rerankerType = "ModuleReranker" then do
      let (source, node) ← resolveModel c node
      pure (some source, node)
    else pure (none, node)
  return node.withBody (.reranker
    { rerankerType, source,
      outputFormat := node.payloadOrNull "output_format"
      join := node.payloadOrNull "join"
      topk := ((node.payload "topk").bind Json.nat?).getD 3 })

/-! ## Data -/

/-- The path of a knowledge base. -/
def knowledgeBasePath (catalog : KnowledgeBaseCatalog) (id : String) :
    Except CompileError String :=
  (catalog.pathById id).get "knowledge base" id

/-- The paths of a document: those of its knowledge bases, else those written on it. -/
def datasetPaths (c : Collaborators) (node : Node) : Except CompileError (List String) :=
  match node.payloadIds "knowledge_base_ids" with
  | [] => .ok (node.payloadIds "dataset_path")
  | ids => do
      let catalog ← c.needKnowledgeBases
      ids.mapM (knowledgeBasePath catalog)

/-- The error for a part of a node that does not fit. -/
def unreadablePart (node : Node) (part : String) (error : DecodeError) : CompileError :=
  .unreadable ("node '" ++ node.id ++ "' " ++ part ++ ": " ++ error.message)

/-- The chunking groups of a document. -/
def nodeGroups (node : Node) : Except CompileError (List NodeGroup) :=
  match node.payload "node_group" with
  | none => .ok []
  | some value =>
      (Decode.list NodeGroup.decode value).mapError (node.unreadablePart "node_group")

/-- Builds a document. -/
def buildDocument (c : Collaborators) (node : Node) : Built := do
  let paths ← datasetPaths c node
  if paths.isEmpty then throw (.missingField node.id (payloadKey "dataset_path"))
  let embed := node.payloadString "embed"
  let node :=
    match embed with
    | some id => node.useResources "embed" (.one id)
    | none => node
  let groups ← node.nodeGroups
  return node.withBody (.document { datasetPaths := paths, embed, groups })

/-- Builds a retriever. -/
def buildRetriever (node : Node) : Built := do
  let doc ← node.requireString "doc"
  return (node.useResources "doc" (.one doc)).withBody (.retriever
    { doc
      groupName := (node.payloadString "group_name").getD "CoarseChunk"
      similarity := (node.payloadString "similarity").getD "cosine"
      topk := ((node.payload "topk").bind Json.nat?).getD 6
      target := node.payloadOrNull "target"
      outputFormat := node.payloadOrNull "output_format" })

/-- The database written on a node. -/
def ownDatabase (node : Node) : Except CompileError DatabaseInfo := do
  let dbType ← node.requireString "db_type"
  return {
    dbType
    user := node.payloadText "user"
    password := node.payloadText "password"
    host := node.payloadText "host"
    port := node.payloadOrNull "port"
    dbName := node.payloadText "db_name"
    optionsStr := node.payloadText "options_str" }

/-- Builds a connection to a database. -/
def buildSqlManager (c : Collaborators) (node : Node) : Built := do
  let connection ←
    match node.payloadString "database_id" with
    | some id => do
        let databases ← c.needDatabases
        (databases.infoById id).get "database" id
    | none => node.ownDatabase
  return node.withBody (.sqlManager connection (node.payloadOrNull "tables_info_dict"))

/-- Builds a question to a database. -/
def buildSqlCall (node : Node) : Built := do
  let llm ← node.requireString "base_model"
  let sqlManager ← node.requireString "sql_manager"
  let node := (node.useResources "llm" (.one llm)).useResources "sql_manager" (.one sqlManager)
  return node.withBody (.sqlCall llm sqlManager
    ((node.payload "sql_examples").getD (.string ""))
    (node.payloadBool "use_llm_for_sql_result" true))

/-! ## Tools -/

/-- A payload object, empty when it is absent. -/
def payloadObject (node : Node) (key : String) : JsonObject :=
  ((node.payload key).bind Json.object?).getD []

/-- The endpoint written on a node. -/
def ownEndpoint (node : Node) : Except CompileError ToolHttp := do
  let url ← node.requireString "url"
  return {
    method := Text.upper ((node.payloadString "method").getD "GET")
    url
    header := node.payloadObject "headers"
    params := node.payloadObject "params"
    body := node.payload "body"
    timeout := (node.payload "timeout").bind Json.nat? }

/-- Puts the credential of a tool where it belongs. -/
def authorize (http : ToolHttp) : Option ToolAuth → ToolHttp
  | none => http
  | some auth =>
    match auth.location with
    | .header => { http with header := http.header.insert auth.key (.string auth.value) }
    | .query => { http with params := http.params.insert auth.key (.string auth.value) }

/-- The endpoint of a registered tool with its credential. -/
def registeredEndpoint (c : Collaborators) (node : Node) (toolId : String) :
    Except CompileError ToolHttp := do
  let tools ← c.needTools
  let tool ← (tools.toolById toolId).get "tool" toolId
  match tool.http with
  | some http => return authorize http tool.auth
  | none => throw (.missingField node.id "http")

/-- Builds a call of an endpoint. -/
def buildHttpTool (c : Collaborators) (node : Node) : Built := do
  let http ←
    match node.payloadString "tool_id" with
    | some toolId => registeredEndpoint c node toolId
    | none => node.ownEndpoint
  return node.withBody (.httpTool http)

/-- Builds a call of a tool that a server offers. -/
def buildServedTool (c : Collaborators) (node : Node) : Built := do
  let toolId ← node.requireString "mcp_tool_id"
  let catalog ← c.needServedTools
  let tool ← (catalog.toolById toolId).get "mcp tool" toolId
  return node.withBody (.servedTool tool.name tool.description tool.server)

/-- Builds a set of tools for a model. -/
def buildToolsForLlm (node : Node) : Built :=
  let tools := node.payloadIds "tools"
  .ok ((node.useResources "tools" (.many tools)).withBody (.toolsForLlm tools))

/-- Builds a model that calls tools. -/
def buildFunctionCall (node : Node) : Built := do
  let llm ← node.requireString "base_model"
  let tools := node.payloadIds "tools"
  let node := (node.useResources "llm" (.one llm)).useResources "tools" (.many tools)
  return node.withBody
    (.functionCall llm tools ((node.payloadString "algorithm").getD "ReactAgent"))

/-! ## Forks -/

/-- The cases of a fork on a truth value: its first two ports, or two ports of its own. -/
def truthCases (ports : List OutputPort) : List ForkCase :=
  match ports with
  | yes :: no :: _ => [⟨yes.id, "true"⟩, ⟨no.id, "false"⟩]
  | _ => [⟨"true", "true"⟩, ⟨"false", "false"⟩]

/-- The text that a fork on a truth value judges. -/
def truthCondition (node : Node) : String :=
  let ofPort := (node.outputPorts.head?.bind OutputPort.cond).bind Json.string?
  (((node.payloadString "code").orElse fun _ => node.payloadString "cond").orElse
    fun _ => ofPort).getD ""

/-- Builds a fork on a truth value. -/
def buildIfs (node : Node) : Node :=
  node.withBody (.ifs node.truthCondition (node.payloadBool "judge_on_full_input" true)
    (.ofCases (truthCases node.outputPorts)))

/-- The input that a switch judges: the one that it names, else the first. -/
def discriminator (node : Node) : Option InputShape :=
  match node.payloadString "judge_variable" with
  | some name => node.inputShape.find? fun shape => shape.variableName = name
  | none => node.inputShape.head?

/-- The type of number that a switch judges, if it judges a number. -/
def conversion (node : Node) : Option String :=
  (node.discriminator.bind InputShape.variableType).filter fun t => t = "int" ∨ t = "float"

/-- Builds a switch. -/
def buildSwitch (node : Node) : Node :=
  let conversion := node.conversion
  let cases := node.outputPorts.map fun port =>
    ForkCase.mk port.id (CaseKey.coerce (CaseKey.ofPort port) conversion)
  node.withBody (.switch conversion (node.payloadBool "judge_on_full_input" true)
    (.ofCases (Branching.withDefault cases)))

/-- Builds a fork on what a model takes the intention to be. -/
def buildIntention (node : Node) : Built := do
  let baseModel ← node.requireString "base_model"
  let cases := node.outputPorts.map fun port => ForkCase.mk port.id (CaseKey.ofPort port)
  return (node.useResources "llm" (.one baseModel)).withBody
    (.intention baseModel (node.payloadOrNull "prompt")
      (.ofCases (Branching.withDefault cases)))

/-! ## Plain nodes -/

/-- Builds a piece of code. -/
def buildCode (node : Node) : Built := do
  let code ← node.requireString "code"
  return node.withBody (.code code ((node.payloadString "code_language").getD "python3"))

/-- Builds a formatter. -/
def buildFormatter (node : Node) : Node :=
  node.withBody (.formatter (node.payloadOrNull "ftype") (node.payloadOrNull "rule"))

/-- Builds a formatter that joins inputs, by their variable names unless names are given. -/
def buildJoinFormatter (node : Node) : Node :=
  let names := (node.payload "names").getD
    (.ofStrings (node.inputShape.map InputShape.variableName))
  node.withBody
    (.joinFormatter (node.payloadOrNull "type") names (node.payloadOrNull "symbol"))

/-- Builds a helper that works with a model. -/
def buildLlmAssisted (node : Node) : Built := do
  let baseModel ← node.requireString "base_model"
  let settings := node.payloadExcept ["base_model", "enable_backflow", "title"]
  return (node.useResources "llm" (.one baseModel)).withBody (.llmAssisted baseModel settings)

/-- Builds a web page or a server. -/
def buildService (node : Node) : Node :=
  node.withBody (.service (node.payloadExcept ["enable_backflow", "title"]))

end Node

end WorkflowCompiler
