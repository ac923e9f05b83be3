import ApiCompiler.Pass.Key
import ApiCompiler.Pass.Model
import ApiCompiler.Pass.Relation

/-!
# Passes — many to many

`@manyToMany` links two models through a join model of its own, which the schema does not declare.
The join model is a model like others: the pass extends what the passes of models, indexes,
required links and authorization rules remember.

* `groups`: the fields of each relation, by its name.
* `buildJoin`: all that is made for one relation.
-/

namespace ApiCompiler.ManyToManyPass

open PassAction

/-- The passes that this one reads and extends. -/
def partners : List Role := [.model, .index, .hasOne, .auth]

/-- One end of a relation. -/
structure Member where
  type   : String
  field  : String
  target : String
deriving DecidableEq, Repr

namespace Member

/-- The field of the join model that holds the key of an end. -/
def key (m : Member) : String := Text.lowerFirst m.type ++ "Id"

/-- The field of the join model that links to an end. -/
def link (m : Member) : String := Text.lowerFirst m.type

end Member

/-- The name of the relation and the end that a field is. -/
def memberOf (t : TypeDefinition) (f : FieldDefinition) (d : Directive) :
    Except Fault (String × Member) := do
  let relationName ← d.requiredString "manyToMany" "relationName" (location t f)
  if !f.type.isList then
    refuse "manyToMany" ("@manyToMany field " ++ location t f ++ " must be a list")
  else return (Text.capitalize relationName, ⟨t.name, f.name, f.type.baseName⟩)

/-- The ends of each relation. -/
def groups (c : Context) : Except Fault (Dict (List Member)) := do
  let members ← (directedFields c "manyToMany").mapM fun (t, f, d) => memberOf t f d
  return members.foldl (fun g (join, m) => g.insert join ((g.find? join).getD [] ++ [m])) ∅

/-- The two ends of a relation, which are different models that refer to each other. -/
def pairOf (join : String) (members : List Member) : Except Fault (Member × Member) :=
  match members with
  | [a, b] =>
    if a.type = b.type then
      refuse "manyToMany" ("relationName '" ++ join ++ "' cannot join '" ++ a.type ++ "' to itself")
    else if a.target ≠ b.type ∨ b.target ≠ a.type then
      refuse "manyToMany"
        ("fields sharing relationName '" ++ join ++ "' must reference each other's types")
    else .ok (a, b)
  | _      =>
    refuse "manyToMany" ("relationName '" ++ join ++ "' must be used on exactly two fields, found "
      ++ toString members.length)

/-- The fields of a join model. -/
def joinFields (a b : Member) : List FieldDefinition :=
  [{ name := "id", type := .required "ID" },
    { name := a.key, type := .required "ID" },
    { name := b.key, type := .required "ID" },
    { name := a.link, type := .required a.type },
    { name := b.link, type := .required b.type }]

/-- The index of a join model by one of its ends. -/
def joinIndex (join : String) (m : Member) : IndexRecord :=
  { model := join, name := "by" ++ m.type, partitionKey := m.key }

/-- The link of a join model to one of its ends. -/
def joinRelation (join : String) (m : Member) : Relation := ⟨join, m.link, m.type, true⟩

/-- The context with one end linked to a join model. -/
def attach (join : String) (c : Context) (m : Member) : Context :=
  (retypeField c m.type m.field (.named (connectionName join))).addResolver m.type m.field
    (datasourceId join) join (·.set "relation" (.str "manyToMany"))

/-- Goes on where an end is a model. -/
def requireModel (m : Member) : PassAction Unit := do
  reading .model
  if (← memory).models.contains m.type then return ()
  else throw (.invalidDirective "manyToMany"
    ("@manyToMany requires '" ++ m.type ++ "' to be a @model"))

/-- Gives a join model the index by one of its ends. -/
def indexEnd (join : String) (m : Member) : PassAction Unit := do
  writing .index
  IndexPass.addIndex (joinIndex join m)

/-- Makes the join model of a relation and links both ends to it. -/
def buildJoin (join : String) (a b : Member) : PassAction Unit := do
  -- the model
  writing .model
  ModelPass.addSynthesized join (joinFields a b)
  -- its indexes
  Action.forEach (indexEnd join) [a, b]
  -- its links
  writing .hasOne
  onMemory fun m => [a, b].foldl (fun m e => m.addRelation (joinRelation join e)) m
  -- its rules
  writing .auth
  onMemory (·.registerJoin join [a.type, b.type])
  -- the fields of its ends
  onContext fun c => [a, b].foldl (attach join) c
  log .debug ("Joined " ++ a.type ++ " and " ++ b.type ++ " through " ++ join)

/-- Links the ends of a relation. -/
def linkGroup (join : String) (members : List Member) : PassAction Unit := do
  let (a, b) ← Action.ofExcept (pairOf join members)
  requireModel a
  requireModel b
  buildJoin join a b

/-- Links the ends of every relation, by the names of the relations. -/
def apply : PassAction Unit := do
  Action.forEach (fun (join, members) => linkGroup join members) (← examine groups).toList

end ApiCompiler.ManyToManyPass

namespace ApiCompiler

/-- The pass of `@manyToMany`. -/
def Pass.manyToMany : Pass where
  name      := "manyToMany"
  dependsOn := ["model", "index", "hasOne"]
  apply     := ManyToManyPass.apply

end ApiCompiler
