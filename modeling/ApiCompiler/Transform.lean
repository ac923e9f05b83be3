import ApiCompiler.Chain
import ApiCompiler.Schema.Parser
import ApiCompiler.Schema.Printer
import ApiCompiler.Synthesis

/-!
# Transforms — from a schema to a deployed API

A transform is a chain of passes with the configuration that its runs share. A run parses a
schema, applies the passes, stores the schema that they leave, and hands the resources to a
backend.

* `Transform.ofConfig`: a transform, unless its configuration or its chain is unfit.
* `Transform.runWith`: one run, with all that it leaves behind, for any provider of assets.
* `Transform.run`: one run that keeps its assets in a store.
-/

namespace ApiCompiler

/-- A chain of passes with the configuration that its runs share. -/
structure Transform where
  chain          : Chain
  authConfig     : AuthConfiguration := {}
  resolverConfig : Option ResolverConfig := none
  slots          : Dict (List Slot) := ∅
  stackMapping   : Dict String := ∅
  parameters     : TransformParameters := {}
  vpcConfig      : Option VpcConfig := none
  layerMapping   : Option LayerMapping := none

/-- What one run is given. -/
structure RunInput where
  schema            : String
  modelDatasources  : Dict DatasourceType := ∅
  datasourceSecrets : Dict ConnectionSecrets := ∅
  /-- The values of parameters, where something provides them. -/
  provided          : Option (Dict String) := none
  synth             : SynthParameters := {}

/-- What a completed run produced. -/
structure Summary where
  /-- The passes that were applied, in order. -/
  passes       : List String
  /-- The text of the transformed schema. -/
  schema       : String
  schemaUri    : String
  resources    : ResourceGraph
  nestedStacks : List String
deriving DecidableEq

/-- A pass that was started, with what it was started on. -/
structure Stage where
  pass   : String
  before : PassState
deriving DecidableEq

/-- A run under way. -/
structure RunState where
  passes  : PassState
  backend : Backend
  assets  : AssetStore
  /-- The passes that were started. -/
  stages  : List Stage := []
  trace   : List LogEntry := []
deriving DecidableEq

/-- Where the diagnostics of a run go. -/
inductive Sink where
  /-- To the caller. -/
  | caller
  /-- Into the trace. -/
  | trace
deriving DecidableEq, Repr

/-- A run that has ended. -/
structure RunReport where
  result : Except Fault Summary
  /-- What the caller received of diagnostics, a list for each time. -/
  drains : List (List LogEntry)
  final  : RunState

/-- The name of the asset that holds the transformed schema. -/
def schemaAsset : String := "schema.graphql"

/-- The category of all that belongs to an API. -/
def apiCategory : String := "api"

namespace Transform

/-- A step of a run. -/
abbrev RunAction := Action RunState

/-- A line of a run's trace. -/
def traceLine (level : LogLevel) (message : String) : LogEntry :=
  ⟨level, "[TRANSFORM] " ++ message⟩

/-- Leaves a trace. -/
def emit (level : LogLevel) (message : String) : RunAction Unit :=
  Action.change fun s => { s with trace := s.trace ++ [traceLine level message] }

/-- The context of the run. -/
def context : RunAction Context := do return (← get).passes.context

/-- Changes the context. -/
def onContext (f : Context → Context) : RunAction Unit :=
  Action.change fun s => { s with passes := { s.passes with context := f s.passes.context } }

/-- Applies the pass of an entry, which nobody may hold. -/
def applyEntry (e : Entry) : RunAction Unit := do
  Action.ofExcept e.checkFree
  emit .debug ("Applying pass '" ++ e.pass.name ++ "'")
  Action.change fun s => { s with stages := s.stages ++ [⟨e.pass.name, s.passes⟩] }
  Action.within (·.passes) (fun s p => { s with passes := p }) e.pass.apply

/-- The API. -/
def apiResource (c : Context) : Resource :=
  let r : Resource := { id := apiResourceId, kind := .graphqlApi }
  let name := if c.synth.apiName = "" then apiResourceId else c.synth.apiName
  (((r.set "name" (.str name)).set "category" (.str apiCategory)).set "authenticationType"
    c.authConfig.default.authenticationType.encode).set "additionalAuthenticationProviders"
    (.arr (c.authConfig.additional.map fun m => m.authenticationType.encode))

/-- The schema of the API. -/
def schemaResource (uri : String) : Resource :=
  let r : Resource := { id := schemaResourceId, kind := .schema }
  (r.set "apiId" (.str apiResourceId)).set "definitionS3Location" (.str uri)

/-- Whether a resource is a datasource in a relational database. -/
def isRelational (r : Resource) : Bool :=
  r.kind == .dataSource && r.getString? "type" == some "RELATIONAL_DATABASE"

/-- The layer of the region that a run is for. -/
def layer? (t : Transform) (c : Context) : Option LayerVersion := do
  (← t.layerMapping).find? (← c.synth.region)

/-- The context with the layer of its region on every relational datasource. -/
def addLayers (t : Transform) (c : Context) : Context :=
  match t.layer? c with
  | none       => c
  | some layer =>
    ((c.resources.toList.filter isRelational).map (·.id)).foldl
      (fun c id => c.modifyResource id (·.set "layerRegion" (.str layer.layerRegion))) c

/-- The context with the API and its schema. -/
def addApi (t : Transform) (uri : String) (c : Context) : Context :=
  t.addLayers ((c.addResource (apiResource c)).addResource (schemaResource uri))

/-- Parses the schema. -/
def parseStep (schema : String) : RunAction Unit := do
  emit .info "Phase 1: Parsing schema..."
  let document ← Action.ofExcept (Document.parse schema)
  onContext fun c => { c with schema := document }
  emit .info ("Parsed " ++ toString document.definitions.length ++ " type definitions")

/-- Applies the passes, and tells their names. -/
def passStep (t : Transform) : RunAction (List String) := do
  emit .info "Phase 2: Applying passes..."
  Action.forEach applyEntry t.chain
  return t.chain.map (·.pass.name)

/-- Stores the text of the schema, and adds what the API itself needs. -/
def exportStep (t : Transform) (provide : AssetProvider) : RunAction (String × AssetRef) := do
  emit .info "Phase 3: Exporting schema..."
  let text := (← context).schema.toText
  let (asset, assets) ← Action.ofExcept (provide (← get).assets schemaAsset text)
  Action.change fun s => { s with assets }
  onContext (t.addApi asset.uri)
  return (text, asset)

/-- Hands the resources to the backend. -/
def synthesisStep (t : Transform) : RunAction Synthesis.Report := do
  emit .info "Phase 4: Synthesizing resources..."
  let s ← get
  let c := s.passes.context
  let (result, done) :=
    synthesize c.resources t.stackMapping c.parameters.enableTransformerCfnOutputs s.backend
  Action.change fun s => { s with backend := done.backend, trace := s.trace ++ done.trace }
  Action.ofExcept result

/-- All steps of a run. -/
def steps (t : Transform) (provide : AssetProvider) (schema : String) : RunAction Summary := do
  parseStep schema
  let passes        ← t.passStep
  let (text, asset) ← t.exportStep provide
  let report        ← t.synthesisStep
  return ⟨passes, text, asset.uri, (← context).resources, report.nestedStacks⟩

/-- The context that a run starts with. -/
def start (t : Transform) (input : RunInput) : Context where
  modelDatasources  := input.modelDatasources
  datasourceSecrets := input.datasourceSecrets
  authConfig        := t.authConfig
  resolverConfig    := t.resolverConfig
  slots             := t.slots
  parameters        := t.parameters
  vpcConfig         := t.vpcConfig
  synth             := input.synth
  provided          := input.provided

/-- The trace that a result leaves. -/
def resultLine : Except Fault Summary → LogEntry
  | .ok summary =>
    traceLine .info ("Transform successful (" ++ toString summary.resources.size ++ " resources)")
  | .error e    => traceLine .warn ("Transform failed: " ++ e.message)

/-- The diagnostics of a run: those of its passes, and the fault that ended it. -/
def diagnostics (result : Except Fault Summary) (logs : List LogEntry) : List LogEntry :=
  match result with
  | .ok _    => logs
  | .error e => logs ++ [⟨.error, e.message⟩]

/-- Ends a run: its diagnostics go to the sink in one piece. -/
def finish (sink : Sink) (result : Except Fault Summary) (s : RunState) : RunReport :=
  let logs  := diagnostics result s.passes.context.logs
  let trace := s.trace ++ [resultLine result]
  match sink with
  | .caller => ⟨result, [logs], { s with trace }⟩
  | .trace  => ⟨result, [], { s with trace := trace ++ logs }⟩

/-- One run, with what the passes remember of earlier ones. -/
def runWith (t : Transform) (provide : AssetProvider) (memory : Memory) (input : RunInput)
    (backend : Backend) (assets : AssetStore) (sink : Sink) : RunReport :=
  let begun := traceLine .info
    ("Starting transform (" ++ toString t.chain.length ++ " passes)")
  let passes : PassState := ⟨t.start input, memory, t.chain.leases⟩
  -- whatever the steps end with, the run is finished in the same way
  let (result, s) :=
    (t.steps provide input.schema).on { passes, backend, assets, trace := [begun] }
  finish sink result s

/-- One run that keeps its assets in a store. -/
def run (t : Transform) : Memory → RunInput → Backend → AssetStore → Sink → RunReport :=
  t.runWith AssetStore.provide

/-- The transform of a configuration and a chain that is fit to run. -/
def ofChain (config : Config) (chain : Chain) : Transform where
  chain          := chain
  authConfig     := config.authConfig.getD {}
  resolverConfig := config.resolverConfig
  slots          := config.slots
  stackMapping   := config.stackMapping
  parameters     := config.parameters
  vpcConfig      := config.vpcConfig
  layerMapping   := config.layerMapping

/-- The transform of a configuration with custom passes, unless one of them is unfit, and the
trace of its construction. -/
def ofConfig (config : Config) (custom : List Pass) : Except Fault Transform × List LogEntry :=
  match config.validate with
  | .error e => (.error e, [])
  | .ok _    =>
    let chain := Chain.build config.factory custom
    let built := Chain.buildTrace chain custom
    match (do chain.validate; chain.names) with
    | .error e  => (.error e, [built])
    | .ok names =>
      (.ok (ofChain config chain),
        [built, traceLine .info ("Chain ready: " ++ " -> ".intercalate names)])

end Transform

end ApiCompiler
