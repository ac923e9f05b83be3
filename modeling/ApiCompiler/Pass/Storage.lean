import ApiCompiler.Pass.Basic

/-!
# Passes — tables elsewhere

`@mapsTo` keeps a model that was renamed on the table that it had. `@searchable` copies the table
of a model into a search domain, which all models share.
-/

namespace ApiCompiler

open PassAction

/-- The types with a directive, each with the first such directive. -/
def directedTypes (c : Context) (directive : String) : List (TypeDefinition × Directive) :=
  (c.schema.typesWith directive).filterMap fun t => (t.directive? directive).map fun d => (t, d)

/-! ### Renamed models -/

namespace MapsToPass

/-- A model and the name that its table has. -/
structure Mapping where
  model : String
  table : String
deriving DecidableEq, Repr

/-- The mapping that a directive on a type declares. -/
def mappingOf (c : Context) (t : TypeDefinition) (d : Directive) : Except Fault Mapping := do
  let table ← d.requiredString "mapsTo" "name" t.name
  if !c.isModel t.name then
    refuse "mapsTo" ("@mapsTo on '" ++ t.name ++ "' requires the type to be a @model")
  else if table = t.name then
    refuse "mapsTo" ("@mapsTo on '" ++ t.name ++ "' maps the type to itself")
  else return ⟨t.name, table⟩

/-- The mappings that the schema declares. -/
def mappings (c : Context) : Except Fault (List Mapping) :=
  (directedTypes c "mapsTo").mapM fun (t, d) => mappingOf c t d

/-- The context with a model on the table of another name. -/
def rename (c : Context) (m : Mapping) : Context :=
  let c := c.modifyResource (tableId m.model)
    fun r => (r.set "tableName" (.str m.table)).setName m.table
  let c := c.modifyResource (datasourceId m.model) (·.setName m.table)
  c.log .debug ("Model " ++ m.model ++ " mapped to existing table " ++ m.table)

/-- Renames the tables of models as the schema declares. -/
def apply : PassAction Unit := do
  let ms ← examine mappings
  onContext fun c => ms.foldl rename c

end MapsToPass

/-- The pass of `@mapsTo`. -/
def Pass.mapsTo : Pass where
  name      := "mapsTo"
  dependsOn := ["model"]
  apply     := MapsToPass.apply

/-! ### Search -/

namespace SearchPass

/-- The id of the search domain. -/
def domainId : String := "OpenSearchDomain"

/-- The id of the datasource that searches. -/
def searchDatasource : String := "OpenSearchDataSource"

/-- The id of the function that copies tables into the domain. -/
def streamingFunction : String := "OpenSearchStreamingLambdaFunction"

/-- The stack of what searches need. -/
def stack : String := "SearchableStack"

/-- The message about what a search domain costs. -/
def costWarning : String :=
  "@searchable provisions a search domain billed per instance hour; "
    ++ "review its sizing before deploying to production"

/-- The name of a type with the directive, which has to have a table. -/
def modelOf (c : Context) (t : TypeDefinition) : Except Fault String :=
  if c.resources.contains (tableId t.name) then .ok t.name
  else refuse "searchable" ("@searchable on '" ++ t.name ++ "' requires a DynamoDB-backed @model")

/-- The models that can be searched. -/
def models (c : Context) : Except Fault (List String) :=
  (c.schema.typesWith "searchable").mapM (modelOf c)

/-- The search domain. -/
def domain (encrypted : Bool) : Resource :=
  let r : Resource := { id := domainId, kind := .searchDomain, stack := some stack }
  r.set "nodeToNodeEncryption" (.bool encrypted)

/-- The datasource that searches. -/
def datasource : Resource :=
  let r : Resource := { id := searchDatasource, kind := .dataSource, stack := some stack }
  (r.set "type" (.str "AMAZON_OPENSEARCH_SERVICE")).set "domain" (.str domainId)

/-- The function that copies the tables of models into the domain. -/
def streaming (models : List String) : Resource :=
  let r : Resource := { id := streamingFunction, kind := .function, stack := some stack }
  models.foldl (fun r m => r.push "sourceTables" (.str (tableId m))) r

/-- The name of the query that searches a model. -/
def queryName (model : String) : String := "search" ++ Text.plural model

/-- The context with a model that can be searched. -/
def attach (c : Context) (model : String) : Context :=
  let c := c.modifyResource (tableId model)
    (·.set "streamViewType" (.str "NEW_AND_OLD_IMAGES"))
  let c := c.addResolver "Query" (queryName model) searchDatasource stack
    (·.set "index" (.str (Text.lowercase model)))
  c.ensureObjectField "Query"
    { name := queryName model, type := .named ("Searchable" ++ model ++ "Connection") }

/-- The context with the search domain and all that reaches it. -/
def provision (c : Context) (models : List String) : Context :=
  let c := c.log .warn costWarning
  let c := c.addResource (domain c.parameters.enableSearchNodeToNodeEncryption)
  (c.addResource datasource).addResource (streaming models)

/-- Makes models searchable as the schema declares. -/
def apply : PassAction Unit := do
  let ms ← examine models
  if ms.isEmpty then return ()
  else onContext fun c => ms.foldl attach (provision c ms)

end SearchPass

/-- The pass of `@searchable`. -/
def Pass.searchable : Pass where
  name      := "searchable"
  dependsOn := ["model"]
  apply     := SearchPass.apply

end ApiCompiler
