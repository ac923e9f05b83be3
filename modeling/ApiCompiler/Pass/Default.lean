import ApiCompiler.Number.Reader
import ApiCompiler.Pass.Basic

/-!
# Passes — default values

`@default` gives a field of a model the value that it takes when a record is made without one.

* `coerce`: the value that a text denotes for a type.
-/

namespace ApiCompiler.DefaultPass

open PassAction

/-- The scalars whose values are texts. -/
def textScalars : List String :=
  ["ID", "String", "AWSDate", "AWSTime", "AWSDateTime", "AWSEmail", "AWSURL", "AWSPhone",
    "AWSIPAddress", "AWSJSON"]

/-- The value of a text that has to be one of a scalar. -/
def valueOf (value scalar : String) (read : Option Json) : Except String Json :=
  match read with
  | some j => .ok j
  | none   => .error ("'" ++ value ++ "' is not a valid " ++ scalar)

/-- The truth value that a text denotes. -/
def readBoolean? (s : String) : Option Bool :=
  if s = "true" then some true else if s = "false" then some false else none

/-- The value that a text denotes for a type that the schema declares. -/
def coerceDeclared (schema : Document) (type value : String) : Except String Json :=
  match schema.getType? type with
  | some t =>
    match t.kind with
    | .enumeration =>
      if value ∈ t.members then .ok (.str value)
      else .error ("'" ++ value ++ "' is not a member of enum " ++ type)
    | .scalar      => .ok (.str value)
    | _            => .error ("type " ++ type ++ " cannot carry a default value")
  | none   => .error ("type " ++ type ++ " cannot carry a default value")

/-- The value that a text denotes for a type. -/
def coerce (schema : Document) (type value : String) : Except String Json :=
  if type = "Int" then
    valueOf value "Int" ((Number.readInteger? value.toList).map Json.int)
  else if type = "Float" then
    valueOf value "Float" ((Number.readFloat? value.toList).map Json.ofFloat)
  else if type = "Boolean" then
    valueOf value "Boolean" ((readBoolean? value).map Json.bool)
  else if type ∈ textScalars then .ok (.str value)
  else coerceDeclared schema type value

/-- The default value of a field. -/
structure Default where
  model : String
  field : String
  value : Json
deriving DecidableEq

/-- The default value that a directive on a field declares. -/
def defaultOf (c : Context) (t : TypeDefinition) (f : FieldDefinition) (d : Directive) :
    Except Fault Default := do
  if !c.isModel t.name then
    refuse "default"
      ("@default on " ++ location t f ++ " requires '" ++ t.name ++ "' to be a @model")
  else if f.type.isList then
    refuse "default" ("@default on " ++ location t f ++ " cannot be used on a list field")
  else
    let raw ← d.requiredString "default" "value" (location t f)
    match coerce c.schema f.type.baseName raw with
    | .ok value     => return ⟨t.name, f.name, value⟩
    | .error reason => refuse "default" ("@default on " ++ location t f ++ ": " ++ reason)

/-- The default values that the schema declares. -/
def defaults (c : Context) : Except Fault (List Default) :=
  (directedFields c "default").mapM fun (t, f, d) => defaultOf c t f d

/-- The resolver with a default value among those that it has. -/
def setDefault (field : String) (value : Json) (r : Resource) : Resource :=
  match (r.get? "defaults").getD (.obj []) with
  | .obj fields => r.set "defaults" (.obj (Dict.insertList field value fields))
  | _           => r

/-- The context with a default value at the creation of a model's records. -/
def attach (c : Context) (d : Default) : Context :=
  c.addResolver "Mutation" ("create" ++ d.model) (datasourceId d.model) d.model
    (setDefault d.field d.value)

/-- Gives fields the default values that the schema declares. -/
def apply : PassAction Unit := do
  let ds ← examine defaults
  onContext fun c => ds.foldl attach c

end ApiCompiler.DefaultPass

namespace ApiCompiler

/-- The pass of `@default`. -/
def Pass.defaultValue : Pass where
  name      := "default"
  dependsOn := ["model"]
  apply     := DefaultPass.apply

end ApiCompiler
