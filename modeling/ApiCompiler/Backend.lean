import ApiCompiler.Fault
import ApiCompiler.Resource.Basic

/-!
# Backend — what is deployed

A backend holds what is handed to it in memory: named outputs, the resources of the root stack and
of nested stacks, and records of metadata. A store keeps assets under the address of a bucket.

* `Backend.addResource`: an id comes once in a stack.
-/

namespace ApiCompiler

/-- A unit of deployment. -/
inductive StackRef where
  | root
  | nested (name : String)
deriving DecidableEq, Repr, Inhabited

/-- The name of a stack. -/
def StackRef.name : StackRef → String
  | root        => "root"
  | nested name => name

/-- What a backend holds. -/
structure Backend where
  outputs        : Dict String := ∅
  /-- The resources of the root stack, once it has been used. -/
  root           : Option (List Resource) := none
  /-- The resources of the nested stacks. -/
  nested         : Dict (List Resource) := ∅
  metadata       : Dict Json := ∅
  /-- How often metadata was written, also in place of a record. -/
  metadataWrites : Nat := 0
deriving DecidableEq

namespace Backend

/-- The resources of a stack that has been used. -/
def stack? (b : Backend) : StackRef → Option (List Resource)
  | .root        => b.root
  | .nested name => b.nested.find? name

/-- The resources of a stack, in the order in which they came. -/
def resourcesIn (b : Backend) (s : StackRef) : List Resource := (b.stack? s).getD []

/-- The backend with the resources of a stack set. -/
def setStack (b : Backend) (s : StackRef) (resources : List Resource) : Backend :=
  match s with
  | .root        => { b with root := some resources }
  | .nested name => { b with nested := b.nested.insert name resources }

/-- The stacks that have been used, the root stack first and the nested ones by name. -/
def usedStacks (b : Backend) : List (StackRef × List Resource) :=
  (b.root.toList.map fun rs => (.root, rs)) ++ b.nested.toList.map fun p => (.nested p.1, p.2)

/-- Sets an output, which has to have a name. -/
def addOutput (b : Backend) (name value : String) : Except Fault Backend :=
  if name = "" then .error (.backend "output name must not be empty")
  else .ok { b with outputs := b.outputs.insert name value }

/-- The backend with a nested stack, which keeps the resources that it has. -/
def openStack (b : Backend) (name : String) : Backend :=
  b.setStack (.nested name) (b.resourcesIn (.nested name))

/-- Whether a stack has a resource of the id. -/
def holds (b : Backend) (s : StackRef) (id : String) : Bool := (b.resourcesIn s).any (·.id == id)

/-- Puts a resource at the end of a stack. -/
def addResource (b : Backend) (s : StackRef) (r : Resource) : Except Fault Backend :=
  if b.holds s r.id then
    .error (.backend ("resource '" ++ r.id ++ "' already exists in stack '" ++ s.name ++ "'"))
  else .ok (b.setStack s (b.resourcesIn s ++ [r]))

/-- The backend with a record of metadata, in place of any other one of its key. -/
def addMetadata (b : Backend) (key : String) (value : Json) : Backend :=
  { b with metadata := b.metadata.insert key value, metadataWrites := b.metadataWrites + 1 }

theorem stack?_setStack (b : Backend) (s t : StackRef) (resources : List Resource) :
    (b.setStack s resources).stack? t = if t = s then some resources else b.stack? t := by
  cases s <;> cases t <;> simp [setStack, stack?, Dict.find?_insert]

end Backend

/-- An asset that is stored. -/
structure AssetRef where
  name : String
  uri  : String
deriving DecidableEq, Repr

/-- Assets under the address of a bucket. -/
structure AssetStore where
  bucket : String
  assets : Dict String := ∅
deriving DecidableEq

/-- What stores an asset, of a name and with its contents, or refuses it. -/
abbrev AssetProvider := AssetStore → String → String → Except Fault (AssetRef × AssetStore)

namespace AssetStore

/-- Where an asset of the store is. -/
def uri (s : AssetStore) (name : String) : String := "s3://" ++ s.bucket ++ "/" ++ name

/-- The contents of an asset. -/
def contents? (s : AssetStore) (name : String) : Option String := s.assets.find? name

/-- Stores an asset, which has to have a name, in place of any other one of that name. -/
def provide (s : AssetStore) (name contents : String) : Except Fault (AssetRef × AssetStore) :=
  if name = "" then .error (.backend "asset name must not be empty")
  else .ok (⟨name, s.uri name⟩, { s with assets := s.assets.insert name contents })

end AssetStore

end ApiCompiler
