import ApiCompiler.Pass.Basic
import ApiCompiler.Pass.RelationCycle

/-!
# Passes — relations

`@hasMany`, `@hasOne` and `@belongsTo` link a field of one model to another model by a key.

* `linkedFields`: the fields with a directive, both ends of which are models.
-/

namespace ApiCompiler

open PassAction

/-- A field that links two models. -/
structure Link where
  source   : String
  field    : String
  target   : String
  isList   : Bool
  required : Bool
deriving DecidableEq, Repr

namespace Link

/-- The field in words. -/
def place (l : Link) : String := l.source ++ "." ++ l.field

/-- The key that names the source of a link in another model. -/
def foreignKey (l : Link) : String :=
  Text.lowerFirst l.source ++ Text.capitalize l.field ++ "Id"

end Link

/-- The link of a field with a directive, both ends of which have to be models. -/
def linkOf (c : Context) (directive : String) (t : TypeDefinition) (f : FieldDefinition) :
    Except Fault Link :=
  let target := f.type.baseName
  match [t.name, target].find? fun type => !c.isModel type with
  | some type =>
    refuse directive ("@" ++ directive ++ " on " ++ location t f ++ " requires '" ++ type
      ++ "' to be a @model")
  | none      => .ok ⟨t.name, f.name, target, f.type.isList, f.type.isNonNull⟩

/-- The links of the fields with a directive. -/
def linkedFields (c : Context) (directive : String) : Except Fault (List Link) :=
  (c.schema.fieldsWith directive).mapM fun (t, f) => linkOf c directive t f

/-- The context with a key field on a type. -/
def ensureForeignKey (c : Context) (type key : String) : Context :=
  c.modifyType type (·.ensureField { name := key, type := .named "ID" })

/-- The context with another type for a field. -/
def retypeField (c : Context) (typeName field : String) (type : TypeRef) : Context :=
  c.modifyType typeName (·.modifyField field fun f => { f with type })

/-- The context with the resolver of a link, and with properties on it. -/
def addLinkResolver (c : Context) (l : Link) (properties : List (String × Json)) : Context :=
  c.addResolver l.source l.field (datasourceId l.target) l.target fun r =>
    properties.foldl (fun r p => r.set p.1 p.2) r

/-! ### One to many -/

namespace HasManyPass

/-- The index by which the records of a link are found. -/
def indexName (l : Link) : String := "gsi-" ++ l.place

/-- The context with a link to many records. -/
def attach (c : Context) (l : Link) : Context :=
  let c := ensureForeignKey c l.target l.foreignKey
  let c := c.modifyResource (tableId l.target)
    (·.push "globalSecondaryIndexes"
      (.obj [("indexName", .str (indexName l)), ("partitionKey", .str l.foreignKey),
        ("sortKeys", .arr [])]))
  let c := retypeField c l.source l.field (.named (connectionName l.target))
  addLinkResolver c l [("relation", .str "hasMany"), ("index", .str (indexName l))]

/-- Links a field to many records. -/
def link (l : Link) : PassAction Unit := do
  if !l.isList then
    throw (.invalidDirective "hasMany" ("@hasMany field " ++ l.place ++ " must be a list"))
  onContext (attach · l)

/-- Links every field with `@hasMany`. -/
def apply : PassAction Unit := do
  Action.forEach link (← examine (linkedFields · "hasMany"))

end HasManyPass

/-- The pass of `@hasMany`. -/
def Pass.hasMany : Pass where
  name      := "hasMany"
  dependsOn := ["model", "index"]
  apply     := HasManyPass.apply

/-! ### One to one -/

namespace HasOnePass

/-- The context with a link to one record. -/
def attach (c : Context) (l : Link) : Context :=
  addLinkResolver (ensureForeignKey c l.source l.foreignKey) l
    [("relation", .str "hasOne"), ("foreignKey", .str l.foreignKey)]

/-- Links a field to one record. -/
def link (l : Link) : PassAction Unit := do
  if l.isList then
    throw (.invalidDirective "hasOne" ("@hasOne field " ++ l.place ++ " must not be a list"))
  onContext (attach · l)
  onMemory (·.addRelation ⟨l.source, l.field, l.target, l.required⟩)

/-- Links every field with `@hasOne`, and refuses records that need each other. -/
def apply : PassAction Unit := do
  Action.forEach link (← examine (linkedFields · "hasOne"))
  -- the relations of earlier runs and of other passes count too
  match RelationCycle.findRequiredCycle (← memory).relations with
  | some cycle => throw (.cyclicRelation "hasOne" cycle)
  | none       => return ()

end HasOnePass

/-- The pass of `@hasOne`. -/
def Pass.hasOne : Pass where
  name      := "hasOne"
  dependsOn := ["model"]
  apply     := HasOnePass.apply

/-! ### The other end -/

namespace BelongsToPass

/-- Whether a field links back to a model, where a link to many has its connection type by now. -/
def linksTo (source : String) (f : FieldDefinition) : Bool :=
  (f.type.baseName == source || f.type.baseName == connectionName source)
    && (f.hasDirective "hasOne" || f.hasDirective "hasMany")

/-- Whether the other end of a link links back. -/
def hasInverse (c : Context) (l : Link) : Bool :=
  (c.schema.getType? l.target).any fun t => t.fields.any (linksTo l.source)

/-- The key that names the target of a link. -/
def foreignKey (l : Link) : String := l.field ++ "Id"

/-- The context with a link to the record that a record belongs to. -/
def attach (c : Context) (l : Link) : Context :=
  addLinkResolver (ensureForeignKey c l.source (foreignKey l)) l
    [("relation", .str "belongsTo"), ("foreignKey", .str (foreignKey l))]

/-- Links a field to the record that its record belongs to. -/
def link (l : Link) : PassAction Unit := do
  if l.isList then
    throw (.invalidDirective "belongsTo" ("@belongsTo field " ++ l.place ++ " must not be a list"))
  if !hasInverse (← context) l then
    throw (.invalidDirective "belongsTo" ("@belongsTo on " ++ l.place
      ++ " has no matching @hasOne or @hasMany on '" ++ l.target ++ "'"))
  onContext (attach · l)

/-- Links every field with `@belongsTo`. -/
def apply : PassAction Unit := do
  Action.forEach link (← examine (linkedFields · "belongsTo"))

end BelongsToPass

/-- The pass of `@belongsTo`. -/
def Pass.belongsTo : Pass where
  name      := "belongsTo"
  dependsOn := ["hasMany", "hasOne"]
  apply     := BelongsToPass.apply

end ApiCompiler
