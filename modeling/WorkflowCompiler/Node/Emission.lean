import WorkflowCompiler.Session

/-!
# Emission

The mapping that the engine gets for a built node. A fork embeds the mappings of the nodes in its
branches, which it finds in the registry by id. The resources that a node depends on are emitted
with it, each after the resources that it depends on itself.
-/
namespace WorkflowCompiler

/-- An emitted mapping, or the reason why there is none. -/
abbrev Emitted := Except CompileError JsonObject

namespace ModelSource

/-- The arguments that describe a model. -/
def args : ModelSource → JsonObject
  | .online source baseModel baseUrl credentials =>
      [ ("type", .string "online"),
        ("source", .string source),
        ("base_model", .string baseModel),
        ("base_url", .ofString? baseUrl),
        ("api_key", .string credentials.apiKey),
        ("secret_key", .string credentials.secretKey) ]
  | .onDisk path deployMethod =>
      [ ("type", .string "local"),
        ("base_model", .string path),
        ("deploy_method", .string deployMethod) ]

/-- The name of an online embedding model, which is emitted once more. -/
def embeddingArgs : ModelSource → JsonObject
  | .online _ baseModel _ _ => [("embed_model_name", .string baseModel)]
  | .onDisk _ _ => []

end ModelSource

namespace SubgraphFlavor

/-- The arguments next to an embedded flow. -/
def args : SubgraphFlavor → JsonObject
  | .plain => []
  | .warp batchFlags => [("batch_flags", .array (batchFlags.map .bool))]
  | .loop stop judgeOnFullInput =>
      [ match stop with
        | .count times => ("count", .ofNat times)
        | .whileTrue condition => ("stop_condition", .string condition.toLambda),
        ("judge_on_full_input", .bool judgeOnFullInput) ]

end SubgraphFlavor

namespace Registry

/-- Emits the nodes of a branch of `fork`; structural nodes are passed over. -/
def emitBranch (registry : Registry) (emit : Node → Emitted) (fork : String) :
    List String → Except CompileError (List Json)
  | [] => .ok []
  | id :: ids => do
      match registry.get? id with
      | none => throw (.nodeNotFound id fork)
      | some node =>
        if node.isStructural then emitBranch registry emit fork ids
        else
          let fields ← emit node
          let rest ← emitBranch registry emit fork ids
          return .object fields :: rest

/-- Emits the branches of `fork` by key, the default last. -/
def emitCases (registry : Registry) (emit : Node → Emitted) (fork : String) (b : Branching) :
    Emitted :=
  b.emittedKeys.mapM fun key =>
    return (key, .array (← emitBranch registry emit fork (b.branch key)))

/-- The arguments of a document. -/
def documentArgs (body : DocumentBody) : JsonObject :=
  [ ("dataset_path",
      match body.datasetPaths with
      | [path] => .string path
      | paths => .ofStrings paths),
    ("embed", .ofString? body.embed),
    ("create_ui", .bool false),
    ("node_group", .array (body.groups.map NodeGroup.encode)) ]

/-- The arguments of a retriever, whose group goes by the name that its document has for it. -/
def retrieverArgs (registry : Registry) (id : String) (body : RetrieverBody) : Emitted :=
  match registry.get? body.doc with
  | none => .error (.resourceNotFound body.doc id)
  | some document =>
    let groupName :=
      match document.body with
      | .document d => d.groupName body.groupName
      | _ => body.groupName
    .ok
      [ ("doc", .string body.doc),
        ("group_name", .string groupName),
        ("similarity", .string body.similarity),
        ("topk", .ofNat body.topk),
        ("target", body.target),
        ("output_format", body.outputFormat) ]

/-- The arguments of a reranker. -/
def rerankerArgs (body : RerankerBody) : JsonObject :=
  let arguments := (body.source.map ModelSource.args).getD [] ++
    [("output_format", body.outputFormat), ("join", body.join), ("topk", .ofNat body.topk)]
  [("type", .string body.rerankerType), ("arguments", .object arguments)]

/-- The arguments of a call of an endpoint. -/
def httpArgs (http : ToolHttp) : JsonObject :=
  [ ("method", .string http.method),
    ("url", .string http.url),
    ("headers", .object http.header),
    ("params", .object http.params),
    ("body", http.body.getD .null),
    ("timeout", (http.timeout.map Json.ofNat).getD .null) ]

/-- The arguments of a node, with `emit` for the nodes in its branches. -/
def args (registry : Registry) (emit : Node → Emitted) (node : Node) : Emitted :=
  match node.body with
  | .empty | .failed _ => .ok []
  | .code code language => .ok [("code", .string code), ("language", .string language)]
  | .formatter ftype rule => .ok [("ftype", ftype), ("rule", rule)]
  | .joinFormatter joinType names symbol =>
      .ok [("type", joinType), ("names", names), ("symbol", symbol)]
  | .ifs cond full b => do
      let yes ← emitBranch registry emit node.id (b.branch "true")
      let no ← emitBranch registry emit node.id (b.branch "false")
      return [("cond", .string cond), ("judge_on_full_input", .bool full), ("true", .array yes),
        ("false", .array no)]
  | .switch conversion full b => do
      let nodes ← emitCases registry emit node.id b
      return [("judge_on_full_input", .bool full), ("conversion", .ofString? conversion),
        ("nodes", .object nodes)]
  | .intention baseModel prompt b => do
      let nodes ← emitCases registry emit node.id b
      return [("base_model", .string baseModel), ("prompt", prompt), ("nodes", .object nodes)]
  | .subgraph flavor compiled => .ok (compiled.fields ++ flavor.args)
  | .llm body =>
      .ok (body.source.args ++
        [("prompt", body.prompt), ("history", body.history), ("stream", .bool body.stream)])
  | .localModel source => .ok source.args
  | .embedding source => .ok (source.args ++ source.embeddingArgs)
  | .reranker body => .ok (rerankerArgs body)
  | .document body => .ok (documentArgs body)
  | .retriever body => retrieverArgs registry node.id body
  | .sqlManager connection tables => .ok (connection.fields ++ [("tables_info_dict", tables)])
  | .sqlCall llm sqlManager examples useLlm =>
      .ok
        [ ("llm", .string llm),
          ("sql_manager", .string sqlManager),
          ("sql_examples", examples),
          ("use_llm_for_sql_result", .bool useLlm) ]
  | .httpTool http => .ok (httpArgs http)
  | .servedTool name description server =>
      .ok [("tool_name", .string name), ("description", .string description),
        ("server", server.encode)]
  | .toolsForLlm tools => .ok [("tools", .ofStrings tools)]
  | .functionCall llm tools algorithm =>
      .ok [("llm", .string llm), ("tools", .ofStrings tools), ("algorithm", .string algorithm)]
  | .llmAssisted baseModel settings => .ok (settings.insert "base_model" (.string baseModel))
  | .service settings => .ok settings

/-- An input that is bound to a constant. -/
def encodeConstant (input : ConstantInput) : Json :=
  .object [("constant", input.constant), ("index", .ofNat input.index)]

/-- The mapping of a node with the given arguments. -/
def frame (backflow : Bool) (node : Node) (args : JsonObject) : JsonObject :=
  [ ("id", .string node.id),
    ("kind", .string node.emittedKind),
    ("name", .string node.id),
    ("hyperparameter", .object node.hyperparameter),
    ("args", .object (Entries.insert args "_lazyllm_enable_report" (.bool true))),
    ("extras-enable_backflow", .bool (node.payloadBool "enable_backflow" backflow)),
    ("extras-title", .string node.title) ] ++
  match node.constants with
  | [] => []
  | inputs => [("extras-constant_edges", .array (inputs.map encodeConstant))]

/-- Emits a node whose branches nest at most that deep. Structural nodes and stand-ins are empty
mappings. -/
def emitWithin (registry : Registry) (backflow : Bool) : Nat → Node → Emitted
  | depth, node =>
    if node.isStructural || node.isFailed then .ok []
    else
      let inner : Node → Emitted :=
        match depth with
        | 0 => fun node => .error (.cyclicGraph [node.id])
        | depth + 1 => emitWithin registry backflow depth
      do return frame backflow node (← args registry inner node)

/-- Emits a node. Branches hold registered nodes and never a node inside itself, so they nest no
deeper than there are registered nodes. -/
def emit (registry : Registry) (backflow : Bool) (node : Node) : Emitted :=
  emitWithin registry backflow (registry.length + 1) node

/-- The resources named by a node and by the nodes in its branches, which nest at most that
deep. -/
def rootsWithin (registry : Registry) : Nat → Node → Except CompileError (List String)
  | depth, node => do
      let branches ← ((node.body.branching?.map Branching.members).getD []).mapM fun id =>
        match registry.get? id with
        | none => throw (.nodeNotFound id node.id)
        | some child =>
          match depth with
          | 0 => throw (.cyclicGraph [id])
          | depth + 1 => rootsWithin registry depth child
      return node.resourceIds ++ branches.flatten

/-- The resources named by a node and by the nodes in its branches. -/
def roots (registry : Registry) (node : Node) : Except CompileError (List String) :=
  rootsWithin registry (registry.length + 1) node

/-- The resources met so far and those emitted so far. -/
structure Collected where
  visited : List String := []
  resolved : List (String × JsonObject) := []

/-- Emits a resource after the resources that it depends on, each once. The number bounds the
chain of dependencies, every link of which is a registered node not met before. -/
def collect (registry : Registry) (backflow : Bool) :
    Nat → (id requestedBy : String) → Collected → Except CompileError Collected
  | n, id, requestedBy, c => do
      if c.visited.contains id then return c
      let c := { c with visited := id :: c.visited }
      match registry.get? id with
      | none => throw (.resourceNotFound id requestedBy)
      | some resource =>
        let dependencies ← roots registry resource
        let c ←
          match n with
          | 0 => throw (.cyclicGraph [id])
          | n + 1 => dependencies.foldlM (fun c d => collect registry backflow n d id c) c
        let fields ← emit registry backflow resource
        return { c with resolved := c.resolved ++ [(id, fields)] }

/-- All resources that a node depends on, by id, dependencies first. -/
def resourcesOf (registry : Registry) (backflow : Bool) (node : Node) :
    Except CompileError (List (String × JsonObject)) := do
  let ids ← roots registry node
  let c ← ids.foldlM (fun c id => collect registry backflow registry.length id node.id c) {}
  return c.resolved

end Registry

namespace Session

/-- Emits a node of the session. -/
def emit (s : Session) (node : Node) : Emitted :=
  Registry.emit s.registry s.options.defaultEnableBackflow node

/-- The resources that a node of the session depends on. -/
def resourcesOf (s : Session) (node : Node) :
    Except CompileError (List (String × JsonObject)) :=
  Registry.resourcesOf s.registry s.options.defaultEnableBackflow node

end Session

end WorkflowCompiler
