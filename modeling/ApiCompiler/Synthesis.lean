import ApiCompiler.Action
import ApiCompiler.Backend
import ApiCompiler.Context

/-!
# Synthesis — from the graph to stacks

The resources of a graph go to a backend by rising id. Where a resource goes is said by a mapping
of ids, else by the resource itself; a nested stack is opened when the first resource goes to it.

* `stackName?`: the stack that a resource goes to.
* `synthesize`: all resources, and the outputs that tell where the API is.
-/

namespace ApiCompiler

/-- The id of the API. -/
def apiResourceId : String := "GraphQLAPI"

/-- The id of the schema of the API. -/
def schemaResourceId : String := "GraphQLSchema"

/-- The name of the output that tells the id of the API. -/
def apiIdOutput : String := "GraphQLAPIIdOutput"

/-- The name of the output that tells the address of the API. -/
def apiEndpointOutput : String := "GraphQLAPIEndpointOutput"

/-- The stack that a resource goes to: the one that its id is mapped to, or its own. -/
def stackName? (mapping : Dict String) (r : Resource) : Option String :=
  mapping.find? r.id <|> r.stack

namespace Synthesis

/-- The stack that a resource goes to. -/
def destination (mapping : Dict String) (r : Resource) : StackRef :=
  match stackName? mapping r with
  | none      => .root
  | some name => if name = rootStack then .root else .nested name

/-- A synthesis under way. -/
structure State where
  backend : Backend
  /-- The names of the nested stacks that were opened. -/
  opened  : Dict Unit := ∅
  trace   : List LogEntry := []
deriving DecidableEq

/-- Leaves a trace. -/
def emit (level : LogLevel) (message : String) : Action State Unit :=
  Action.change fun s => { s with trace := s.trace ++ [⟨level, "[SYNTH] " ++ message⟩] }

/-- Opens a nested stack, unless that has been done. -/
def openNested (name : String) : Action State Unit := do
  if (← get).opened.contains name then return ()
  Action.change fun s =>
    { s with backend := s.backend.openStack name, opened := s.opened.insert name () }
  emit .debug ("Nested stack '" ++ name ++ "'")

/-- Opens the stack of a resource, unless it is the root stack. -/
def openFor : StackRef → Action State Unit
  | .root        => pure ()
  | .nested name => openNested name

/-- Changes the backend where it allows that. -/
def onBackend (f : Backend → Except Fault Backend) : Action State Unit := do
  let b ← Action.ofExcept (f (← get).backend)
  Action.change fun s => { s with backend := b }

/-- Puts a resource where it goes. -/
def place (mapping : Dict String) (r : Resource) : Action State Unit := do
  let stack := destination mapping r
  openFor stack
  onBackend (·.addResource stack r)

/-- Sets an output. -/
def output (name value : String) : Action State Unit := do
  let replaced := (← get).backend.outputs.contains name
  onBackend (·.addOutput name value)
  if replaced then emit .debug ("Output '" ++ name ++ "' replaced")

/-- The value of an attribute of the API, which is filled in when it is deployed. -/
def apiAttribute (name : String) : String := "$\x7b" ++ apiResourceId ++ "." ++ name ++ "\x7d"

/-- What a synthesis did. -/
structure Report where
  resourceCount : Nat
  /-- The nested stacks that resources went to, by name. -/
  nestedStacks  : List String
deriving DecidableEq, Repr

/-- Puts all resources where they go, and sets the outputs of the API if they are wanted. -/
def run (resources : ResourceGraph) (mapping : Dict String) (outputs : Bool) :
    Action State Report := do
  emit .info ("Synthesizing " ++ toString resources.size ++ " resources")
  Action.forEach (place mapping) resources.toList
  if outputs && resources.contains apiResourceId then
    output apiIdOutput (apiAttribute "ApiId")
    output apiEndpointOutput (apiAttribute "GraphQLUrl")
  -- stacks are told by name, in whatever order they were opened
  let report : Report := ⟨resources.size, (← get).opened.keys⟩
  emit .info ("Done (" ++ toString report.resourceCount ++ " resources across "
    ++ toString report.nestedStacks.length ++ " nested stacks)")
  return report

end Synthesis

/-- Hands a graph of resources to a backend. -/
def synthesize (resources : ResourceGraph) (mapping : Dict String) (outputs : Bool)
    (backend : Backend) : Except Fault Synthesis.Report × Synthesis.State :=
  (Synthesis.run resources mapping outputs).on { backend }

end ApiCompiler
