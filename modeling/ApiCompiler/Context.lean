import ApiCompiler.Config.Basic
import ApiCompiler.Log
import ApiCompiler.Resource.Graph
import ApiCompiler.Schema.Basic

/-!
# Context — what one run works on

The schema and the graph of resources that passes change, the configuration that they read, and
the diagnostics that they leave.

* `get?_addResolver`: adding a resolver keeps one that is there already.
-/

namespace ApiCompiler

/-- The stack of resources that belong to no nested one. -/
def rootStack : String := "root"

/-- What the passes of one run share. -/
structure Context where
  schema             : Document := {}
  resources          : ResourceGraph := {}
  modelDatasources   : Dict DatasourceType := ∅
  datasourceSecrets  : Dict ConnectionSecrets := ∅
  authConfig         : AuthConfiguration := {}
  resolverConfig     : Option ResolverConfig := none
  slots              : Dict (List Slot) := ∅
  parameters         : TransformParameters := {}
  vpcConfig          : Option VpcConfig := none
  synth              : SynthParameters := {}
  /-- The values of parameters, where something provides them. -/
  provided           : Option (Dict String) := none
  logs               : List LogEntry := []
deriving DecidableEq

namespace Context

/-- The value of a parameter; without one, `env` is the name of the environment if it has any. -/
def resolveParameter (c : Context) (name : String) : Option String :=
  (c.provided.bind (·.find? name))
    <|> if name = "env" ∧ c.synth.environmentName ≠ "" then some c.synth.environmentName else none

/-- The datasource that a model is bound to. -/
def datasourceFor (c : Context) (model : String) : DatasourceType :=
  (c.modelDatasources.find? model).getD .unbound

/-- The conflict detection of a model. -/
def conflictFor (c : Context) (model : String) : Option ConflictDetection :=
  c.resolverConfig.bind (·.forModel model)

/-- Whether a type has a table or a datasource of its own. -/
def isModel (c : Context) (type : String) : Bool :=
  c.resources.contains (tableId type) || c.resources.contains (datasourceId type)

/-- The context with a diagnostic at the end of its own. -/
def log (c : Context) (level : LogLevel) (message : String) : Context :=
  { c with logs := c.logs ++ [⟨level, message⟩] }

/-- The context with a resource put in place of any other one of its id. -/
def addResource (c : Context) (r : Resource) : Context := { c with resources := c.resources.add r }

/-- The context with `f` applied to the resource of an id. -/
def modifyResource (c : Context) (id : String) (f : Resource → Resource) : Context :=
  { c with resources := c.resources.modify id f }

/-- The context with `f` applied to the base definition of a type. -/
def modifyType (c : Context) (type : String) (f : TypeDefinition → TypeDefinition) : Context :=
  { c with schema := c.schema.modifyType type f }

/-- The context with a field on a type, which is made an object type if it is missing. -/
def ensureObjectField (c : Context) (type : String) (field : FieldDefinition) : Context :=
  { c with schema := c.schema.ensureObjectField type field }

/-- The names of the slots of a field, where it has an entry for them. -/
def slotNames? (c : Context) (typeName fieldName : String) : Option (List String) :=
  (c.slots.find? (typeName ++ "." ++ fieldName)).map fun slots => slots.map (·.slotName)

/-- The resolver of a field as it is when it is added. -/
def newResolver (c : Context) (typeName fieldName datasource : String) (stack : String) :
    Resource :=
  let r : Resource :=
    { id := resolverId typeName fieldName, kind := .resolver, stack := some stack }
  let r := ((r.set "typeName" (.str typeName)).set "fieldName" (.str fieldName)).set "dataSource"
    (.str datasource)
  match c.slotNames? typeName fieldName with
  | some names => r.set "slots" (.ofStrings names)
  | none       => r

/-- The context with a resolver for a field, unless it has one, and with `f` applied to it. -/
def addResolver (c : Context) (typeName fieldName datasource stack : String)
    (f : Resource → Resource) : Context :=
  let ensured := c.resources.ensure (c.newResolver typeName fieldName datasource stack)
  { c with resources := ensured.modify (resolverId typeName fieldName) f }

theorem id_newResolver (c : Context) (typeName fieldName datasource stack : String) :
    (c.newResolver typeName fieldName datasource stack).id = resolverId typeName fieldName := by
  unfold newResolver
  split <;> rfl

/-- A field keeps a resolver that it has, and only the resolver of that field is touched. -/
theorem get?_addResolver (c : Context) (typeName fieldName datasource stack : String)
    (f : Resource → Resource) (id : String) :
    (c.addResolver typeName fieldName datasource stack f).resources.get? id =
      if id = resolverId typeName fieldName then
        some (f ((c.resources.get? id).getD (c.newResolver typeName fieldName datasource stack)))
      else c.resources.get? id := by
  have hid := id_newResolver c typeName fieldName datasource stack
  by_cases h : id = resolverId typeName fieldName
  · simp [addResolver, ResourceGraph.get?_modify, ResourceGraph.get?_ensure, hid, h]
  · simp [addResolver, ResourceGraph.get?_modify, ResourceGraph.get?_ensure, hid, h]

end Context

end ApiCompiler
