import ApiCompiler.Pass.Basic

/-!
# Passes — keys

`@primaryKey` sets the key of a model's table, `@index` gives the table a further one.

* `PrimaryKeyPass.keys`: the keys that a schema declares, at most one a model.
* `IndexPass.addIndex`: one secondary index, with a query where it has one.
-/

namespace ApiCompiler

open PassAction

/-- The first of some names that is not a field of a type. -/
def missingField? (t : TypeDefinition) (names : List String) : Option String :=
  names.find? fun name => (t.field? name).isNone

/-- The message for a sort key that is not a field of its type. -/
def noSortKey (type field : String) : String :=
  "sort key field '" ++ field ++ "' does not exist on '" ++ type ++ "'"

namespace PrimaryKeyPass

/-- The key of a model. -/
structure Key where
  model        : String
  partitionKey : String
  sortKeys     : List String
deriving DecidableEq, Repr

/-- The keys found so far, with the one that a field declares. -/
def keyOf (c : Context) (keys : List Key) (t : TypeDefinition) (f : FieldDefinition) :
    Except Fault (List Key) :=
  let sortKeys := ((f.directive? "primaryKey").bind (·.argument? "sortKeyFields")).elim []
    Value.strings
  if !c.isModel t.name then
    refuse "primaryKey"
      ("@primaryKey on " ++ location t f ++ " requires '" ++ t.name ++ "' to be a @model")
  else if keys.any (·.model == t.name) then
    refuse "primaryKey" ("type '" ++ t.name ++ "' declares more than one @primaryKey")
  else if !f.type.isNonNull || f.type.isList then
    refuse "primaryKey" ("@primaryKey field " ++ location t f ++ " must be a non-null scalar")
  else match missingField? t sortKeys with
    | some missing => refuse "primaryKey" (noSortKey t.name missing)
    | none         => .ok (keys ++ [⟨t.name, f.name, sortKeys⟩])

/-- The keys that the schema declares. -/
def keys (c : Context) : Except Fault (List Key) :=
  (c.schema.fieldsWith "primaryKey").foldlM (fun keys (t, f) => keyOf c keys t f) []

/-- The resource that holds the key of a model. -/
def holder (c : Context) (model : String) : String :=
  if c.resources.contains (tableId model) then tableId model else datasourceId model

/-- The context with the key of a model. -/
def setKey (c : Context) (k : Key) : Context :=
  let id := holder c k.model
  if c.resources.contains id then
    (c.modifyResource id fun r =>
      (r.set "hashKey" (.str k.partitionKey)).set "sortKeys" (.ofStrings k.sortKeys)).log .debug
      ("Primary key of " ++ k.model ++ " set to " ++ k.partitionKey)
  else c

/-- Sets the key of every model that declares one. -/
def apply : PassAction Unit := do
  let ks ← examine keys
  onContext fun c => ks.foldl setKey c

end PrimaryKeyPass

/-- The pass of `@primaryKey`. -/
def Pass.primaryKey : Pass where
  name      := "primaryKey"
  dependsOn := ["model"]
  apply     := PrimaryKeyPass.apply

namespace IndexPass

/-- The arguments of `@index`. -/
structure Arguments where
  name          : Option String
  sortKeyFields : List String
  queryField    : Option String
deriving DecidableEq, Repr

/-- The arguments that hold where none are given. -/
def defaults : Json :=
  .obj [("name", .null), ("queryField", .null), ("sortKeyFields", .arr [])]

/-- The decoder of the arguments. -/
def decode : Json.Decoder Arguments :=
  Json.Record.decode "struct IndexArguments"
    (Arguments.mk
      <$> .nullable "name" Json.Decoder.string
      <*> .field "sortKeyFields" (Json.Decoder.list Json.Decoder.string)
      <*> .nullable "queryField" Json.Decoder.string)

/-- The name of an index that is not given one. -/
def defaultName (field : String) (sortKeys : List String) : String :=
  "by" ++ Text.capitalize field ++ String.join (sortKeys.map fun k => "And" ++ Text.capitalize k)

/-- The query of an index that is not given one. -/
def defaultQuery (type field : String) : String :=
  Text.lowerFirst (Text.plural type) ++ "By" ++ Text.capitalize field

/-- The index that a directive on a field declares. -/
def recordOf (c : Context) (t : TypeDefinition) (f : FieldDefinition) (d : Directive) :
    Except Fault IndexRecord := do
  let args ← d.decodeArguments decode defaults
    c.parameters.shouldDeepMergeDirectiveConfigDefaults
  match missingField? t args.sortKeyFields with
  | some missing => refuse "index" (noSortKey t.name missing)
  | none         =>
    let auto :=
      if c.parameters.enableAutoIndexQueryNames then some (defaultQuery t.name f.name) else none
    return {
      model        := t.name
      name         := args.name.getD (defaultName f.name args.sortKeyFields)
      partitionKey := f.name
      sortKeys     := args.sortKeyFields
      queryField   := args.queryField <|> auto }

/-- The indexes that the schema declares. -/
def records (c : Context) : Except Fault (List IndexRecord) :=
  ((c.schema.fieldsWith "index").flatMap fun (t, f) =>
    (f.directives.filter (·.name == "index")).map fun d => (t, f, d)).mapM
    fun (t, f, d) => recordOf c t f d

/-- An index as a table lists it. -/
def entry (name partitionKey : String) (sortKeys : List String) : Json :=
  .obj [("indexName", .str name), ("partitionKey", .str partitionKey),
    ("sortKeys", .ofStrings sortKeys)]

/-- The property of a table that lists its indexes. -/
def listedUnder (c : Context) : String :=
  if c.parameters.secondaryKeyAsGsi then "globalSecondaryIndexes" else "localSecondaryIndexes"

/-- The context with the query of an index, where it has one. -/
def addQuery (c : Context) (r : IndexRecord) : Context :=
  match r.queryField with
  | none   => c
  | some q =>
    (c.addResolver "Query" q (datasourceId r.model) r.model (·.set "index" (.str r.name)))
      |>.ensureObjectField "Query" { name := q, type := .named (connectionName r.model) }

/-- The context with an index on the table of its model, and with its query. -/
def attach (c : Context) (r : IndexRecord) : Context :=
  addQuery
    (c.modifyResource (tableId r.model)
      (·.push (listedUnder c) (entry r.name r.partitionKey r.sortKeys))) r

/-- Gives a model an index. -/
def addIndex (r : IndexRecord) : PassAction Unit := do
  if !(← context).isModel r.model then
    throw (.invalidDirective "index"
      ("index '" ++ r.name ++ "' targets '" ++ r.model ++ "', which is not a @model"))
  if ((← memory).indexesOn r.model).any (·.name == r.name) then
    throw (.invalidDirective "index" ("duplicate index '" ++ r.name ++ "' on '" ++ r.model ++ "'"))
  onContext (attach · r)
  log .debug ("Registered index " ++ r.name ++ " on " ++ r.model)
  onMemory fun m => { m with indexes := m.indexes ++ [r] }

/-- Gives models the indexes that the schema declares. -/
def apply : PassAction Unit := do
  Action.forEach addIndex (← examine records)

end IndexPass

/-- The pass of `@index`. -/
def Pass.index : Pass where
  name      := "index"
  dependsOn := ["model"]
  apply     := IndexPass.apply

end ApiCompiler
