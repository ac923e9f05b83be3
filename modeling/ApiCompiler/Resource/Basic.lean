import ApiCompiler.Json.Decoder

/-!
# Resources — nodes of the graph

A resource is known by its id. Its kind says what it is, its properties how it is set up, and its
stack where it is deployed.
-/

namespace ApiCompiler

open Json

/-- A kind of resource. -/
inductive ResourceKind where
  | graphqlApi
  | schema
  | apiKey
  | table
  | dataSource
  | resolver
  | function
  | searchDomain
  | policy
  | asset
deriving DecidableEq, Repr, Inhabited

namespace ResourceKind

/-- The name of a kind in documents. -/
def name : ResourceKind → String
  | graphqlApi   => "graphqlApi"
  | schema       => "schema"
  | apiKey       => "apiKey"
  | table        => "table"
  | dataSource   => "dataSource"
  | resolver     => "resolver"
  | function     => "function"
  | searchDomain => "searchDomain"
  | policy       => "policy"
  | asset        => "asset"

/-- Every kind. -/
def all : List ResourceKind :=
  [graphqlApi, schema, apiKey, table, dataSource, resolver, function, searchDomain, policy, asset]

def encode (k : ResourceKind) : Json := str k.name

def decode : Decoder ResourceKind := Decoder.variant (all.map fun k => (k.name, k))

end ResourceKind

/-- A resource of the API. -/
structure Resource where
  id         : String
  kind       : ResourceKind
  properties : Dict Json := ∅
  /-- The nested stack it belongs to; without one it belongs to the root stack. -/
  stack      : Option String := none
deriving DecidableEq, Inhabited

namespace Resource

def encode (r : Resource) : Json :=
  obj [("id", str r.id), ("kind", r.kind.encode), ("properties", ofDict r.properties),
    ("stack", ofString? r.stack)]

def record : Record Resource :=
  Resource.mk
    <$> .field "id" Decoder.string
    <*> .field "kind" ResourceKind.decode
    <*> .field "properties" (Decoder.dict Decoder.any)
    <*> .nullable "stack" Decoder.string

def decode : Decoder Resource := record.decode "struct Resource"

/-- The resource with one zero for both of them in its properties. -/
def unsignZeros (r : Resource) : Resource :=
  { r with properties := r.properties.mapValues fun _ => Json.unsignZeros }

/-- Whether two resources are equal, where the two zeros are equal numbers. -/
def agrees (r s : Resource) : Bool := r.unsignZeros == s.unsignZeros

/-- The resource with a property set. -/
def set (r : Resource) (key : String) (value : Json) : Resource :=
  { r with properties := r.properties.insert key value }

/-- The resource with a value at the end of an array property, which is made anew where there is
no array. -/
def push (r : Resource) (key : String) (value : Json) : Resource :=
  match r.properties.find? key with
  | some (.arr items) => r.set key (.arr (items ++ [value]))
  | _                 => r.set key (.arr [value])

/-- A property. -/
def get? (r : Resource) (key : String) : Option Json := r.properties.find? key

/-- A property that is a text. -/
def getString? (r : Resource) (key : String) : Option String := (r.get? key).bind asString?

/-- The property that holds the logical name of a resource. -/
def nameKey : String := "amplify:resource-name"

/-- The resource with a logical name. -/
def setName (r : Resource) (name : String) : Resource := r.set nameKey (.str name)

/-- The logical name of a resource. -/
def name? (r : Resource) : Option String := r.getString? nameKey

theorem get?_set (r : Resource) (key other : String) (value : Json) :
    (r.set key value).get? other = if other = key then some value else r.get? other := by
  simp [get?, set, Dict.find?_insert]

end Resource

/-- The id of the table of a model. -/
def tableId (model : String) : String := model ++ "Table"

/-- The id of the datasource of a model. -/
def datasourceId (model : String) : String := model ++ "DataSource"

/-- The id of the resolver of a field. -/
def resolverId (typeName fieldName : String) : String :=
  typeName ++ "." ++ fieldName ++ "Resolver"

end ApiCompiler
