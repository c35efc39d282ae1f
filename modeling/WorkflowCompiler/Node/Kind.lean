/-!
# Kinds of nodes

The kinds of nodes that can be built, by their names in lower case, and the roles that some of
them play in a graph.
-/
namespace WorkflowCompiler

/-- What is built for a node. Kinds with one builder are one constructor. -/
inductive NodeKind
  | marker
  | code
  | formatter
  | joinFormatter
  | llmAssisted
  | service
  | ifs
  | switch
  | intention
  | subgraph
  | llm
  | localModel
  | embedding
  | reranker
  | document
  | retriever
  | sqlManager
  | sqlCall
  | httpTool
  | servedTool
  | toolsForLlm
  | functionCall
  deriving DecidableEq, Repr

namespace NodeKind

/-- The names of the kinds that open branches. -/
def forkNames : List String := ["ifs", "switch", "intention"]

/-- The names of the kinds that close branches. -/
def aggregatorNames : List String := ["aggregator"]

/-- The names of the entry of a graph. -/
def startNames : List String := ["start", "__start__"]

/-- The names of the exit of a graph. -/
def endNames : List String := ["end", "__end__", "answer"]

/-- The names of the kinds that always run a local model. -/
def localModelNames : List String := ["stt", "vqa", "sd", "tts", "localembedding"]

/-- The names of the kinds that hold or refer to a graph of their own. -/
def subgraphNames : List String := ["subgraph", "warp", "loop", "app", "template"]

/-- The names that each kind goes by. -/
def table : List (NodeKind × List String) :=
  [ (.marker, startNames ++ endNames ++ aggregatorNames),
    (.code, ["code"]),
    (.formatter, ["formatter"]),
    (.joinFormatter, ["joinformatter"]),
    (.llmAssisted, ["parameterextractor", "qustionrewrite"]),
    (.service, ["web", "server"]),
    (.ifs, ["ifs"]),
    (.switch, ["switch"]),
    (.intention, ["intention"]),
    (.subgraph, subgraphNames),
    (.llm, ["llm", "onlinellm"]),
    (.localModel, localModelNames),
    (.embedding, ["onlineembedding"]),
    (.reranker, ["reranker"]),
    (.document, ["document"]),
    (.retriever, ["retriever"]),
    (.sqlManager, ["sqlmanager"]),
    (.sqlCall, ["sqlcall"]),
    (.httpTool, ["httptool"]),
    (.servedTool, ["mcptool"]),
    (.toolsForLlm, ["toolsforllm"]),
    (.functionCall, ["functioncall"]) ]

/-- All names, in the order of the table. -/
def names : List String := table.flatMap Prod.snd

/-- The kind with a name. -/
def ofName? (name : String) : Option NodeKind :=
  (table.find? fun row => row.2.contains name).map Prod.fst

end NodeKind

end WorkflowCompiler
