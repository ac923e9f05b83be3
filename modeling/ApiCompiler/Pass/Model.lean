import ApiCompiler.Pass.Basic

/-!
# Passes — models

`@model` makes a type into stored records: a table or a relational datasource, the fields that
every record has, a type that pages through records, and operations on them.

* `materialize`: all that is made for one model.
* `addSynthesized`: a model that the schema does not declare.
-/

namespace ApiCompiler.ModelPass

open PassAction

/-- The field that identifies a record. -/
def idField : FieldDefinition := { name := "id", type := .required "ID" }

/-- The fields that say when a record was made and last changed. -/
def timeFields : List FieldDefinition :=
  [{ name := "createdAt", type := .required "AWSDateTime" },
    { name := "updatedAt", type := .required "AWSDateTime" }]

/-- The fields that tell versions of a record apart. -/
def versionFields : List FieldDefinition :=
  [{ name := "_version", type := .required "Int" },
    { name := "_deleted", type := .named "Boolean" },
    { name := "_lastChangedAt", type := .required "AWSTimestamp" }]

/-- A type with the fields that the records of a model have. -/
def withModelFields (versioned : Bool) (t : TypeDefinition) : TypeDefinition :=
  let keyed  := t.fields.any (·.hasDirective "primaryKey")
  let fields := (if keyed then [] else [idField]) ++ timeFields
    ++ if versioned then versionFields else []
  fields.foldl (·.ensureField ·) t

/-- The fields of the type that pages through the records of a model. -/
def connectionFields (model : String) : List FieldDefinition :=
  [{ name := "items", type := .nonNull (.list (.named model)) },
    { name := "nextToken", type := .named "String" }]

/-- The queries of a model. -/
def queryFields (model : String) : List FieldDefinition :=
  [{ name := "get" ++ model, arguments := [{ name := "id", type := .required "ID" }],
     type := .named model },
    { name := "list" ++ Text.plural model, type := .named (connectionName model) }]

/-- The mutations of a model. -/
def mutationFields (model : String) : List FieldDefinition :=
  ["create", "update", "delete"].map fun op => { name := op ++ model, type := .named model }

/-- The datasource of a model in a relational database. -/
def relationalDatasource (c : Context) (model : String) (dbType : DbType)
    (secrets : ConnectionSecrets) : Resource :=
  let r : Resource := { id := datasourceId model, kind := .dataSource, stack := some model }
  let r := ((r.set "type" (.str "RELATIONAL_DATABASE")).set "engine" dbType.encode).set "secrets"
    secrets.encode
  match c.vpcConfig with
  | some vpc => r.set "vpc" vpc.encode
  | none     => r

/-- The table of a model. -/
def table (c : Context) (model : String) : Resource :=
  let r : Resource := { id := tableId model, kind := .table, stack := some model }
  let r := (((r.set "tableName" (.str model)).set "hashKey" (.str "id")).set "billingMode"
    (.str "PAY_PER_REQUEST")).set "globalSecondaryIndexes" (.arr [])
  match c.conflictFor model with
  | some conflict => r.set "conflictDetection" conflict.encode
  | none          => r

/-- The datasource of a model with a table. -/
def tableDatasource (model : String) : Resource :=
  let r : Resource := { id := datasourceId model, kind := .dataSource, stack := some model }
  (r.set "type" (.str "AMAZON_DYNAMODB")).set "table" (.str (tableId model))

/-- The context with the store of a model, where it can be reached. -/
def addStore (c : Context) (model : String) : Except Fault Context :=
  let dbType := (c.datasourceFor model).dbType
  if dbType.isSql then
    match c.datasourceSecrets.find? model with
    | some secrets => .ok (c.addResource (relationalDatasource c model dbType secrets))
    | none         =>
      .error (.unresolvedDatasource "model" model "SQL datasource has no connection secrets")
  else .ok ((c.addResource (table c model)).addResource (tableDatasource model))

/-- The context with the fields of a model, and with the type that pages through its records. -/
def addFields (c : Context) (model : String) : Except Fault Context :=
  match c.schema.getType? model with
  | none   => refuse "model" ("type '" ++ model ++ "' is not defined")
  | some _ =>
    let c := c.modifyType model (withModelFields (c.conflictFor model).isSome)
    .ok ((connectionFields model).foldl (·.ensureObjectField (connectionName model) ·) c)

/-- The context with an operation on a model. -/
def addOperation (root model : String) (c : Context) (field : FieldDefinition) : Context :=
  (c.addResolver root field.name (datasourceId model) model id).ensureObjectField root field

/-- The context with the queries and mutations of a model. -/
def addOperations (c : Context) (model : String) : Context :=
  let c := (queryFields model).foldl (addOperation "Query" model) c
  (mutationFields model).foldl (addOperation "Mutation" model) c

/-- Makes all that a model needs. -/
def materialize (model : String) (synthesized : Bool) : PassAction Unit := do
  let datasource := (← context).datasourceFor model
  -- the store stays also where the fields are refused
  let c ← examine (addStore · model)
  onContext fun _ => c
  let c ← examine (addFields · model)
  onContext fun _ => c
  onContext (addOperations · model)
  onMemory fun m => { m with models := m.models.insert model ⟨datasource, synthesized⟩ }
  log .debug ("Materialized model " ++ model)

/-- Makes a type of the schema a model. -/
def materializeDeclared (model : String) : PassAction Unit := do
  if (← memory).models.contains model then return () else materialize model false

/-- A type with `@model` on it. -/
def markModel (t : TypeDefinition) : TypeDefinition :=
  if t.hasDirective "model" then t else t.addDirective { name := "model" }

/-- Declares a type with some fields, and makes it a model. -/
def addSynthesized (model : String) (fields : List FieldDefinition) : PassAction Unit := do
  if (← memory).models.contains model then
    throw (.invalidDirective "model" ("model '" ++ model ++ "' already exists"))
  onContext fun c => { c with schema := c.schema.ensureObject model }
  onContext (·.modifyType model fun t => fields.foldl (·.ensureField ·) (markModel t))
  materialize model true

/-- Makes every type with `@model` a model. -/
def apply : PassAction Unit := do
  let declared := ((← context).schema.typesWith "model").map (·.name)
  Action.forEach materializeDeclared declared
  log .info ("@model materialized " ++ toString declared.length ++ " model(s)")

end ApiCompiler.ModelPass

namespace ApiCompiler

/-- The pass of `@model`. -/
def Pass.model : Pass where
  name  := "model"
  apply := ModelPass.apply

end ApiCompiler
