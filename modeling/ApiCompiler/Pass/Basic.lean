import ApiCompiler.Action
import ApiCompiler.Context
import ApiCompiler.Pass.Memory
import ApiCompiler.Schema.Arguments
import ApiCompiler.Text.Case
import ApiCompiler.Text.Plural

/-!
# Passes — what a pass is

A pass has a name, the names of passes that have to run before it, and a step on what the passes
of a run share. Some passes read and extend what others remember; they cannot while somebody else
holds those.

* `Lease`: whether an entry of a chain is held, and for what.
* `PassState`: what the step of a pass works on.
-/

namespace ApiCompiler

/-- How an entry of a chain is held by somebody else. -/
inductive Lease where
  | free
  | reading
  | writing
deriving DecidableEq, Repr, Inhabited

namespace Lease

/-- Whether the entry may be read. -/
def canRead : Lease → Bool
  | writing => false
  | _       => true

/-- Whether the entry may be changed. -/
def canWrite : Lease → Bool
  | free => true
  | _    => false

end Lease

/-- A pass that other passes may refer to. -/
inductive Role where
  | model
  | index
  | hasOne
  | auth
  | manyToMany
deriving DecidableEq, Repr, Inhabited

/-- The name of the pass with a role. -/
def Role.name : Role → String
  | model      => "model"
  | index      => "index"
  | hasOne     => "hasOne"
  | auth       => "auth"
  | manyToMany => "manyToMany"

/-- How the passes that others refer to are held. -/
structure Leases where
  model      : Lease := .free
  index      : Lease := .free
  hasOne     : Lease := .free
  auth       : Lease := .free
  manyToMany : Lease := .free
deriving DecidableEq, Repr, Inhabited

/-- How the pass with a role is held. -/
def Leases.of (l : Leases) : Role → Lease
  | .model      => l.model
  | .index      => l.index
  | .hasOne     => l.hasOne
  | .auth       => l.auth
  | .manyToMany => l.manyToMany

/-- What the step of a pass works on. -/
structure PassState where
  context : Context := {}
  memory  : Memory := {}
  leases  : Leases := {}
deriving DecidableEq

/-- A step of a pass. -/
abbrev PassAction := Action PassState

/-- A pass. -/
structure Pass where
  name      : String
  dependsOn : List String := []
  apply     : PassAction Unit

namespace PassAction

/-- The context of the run. -/
def context : PassAction Context := do return (← get).context

/-- What passes remember. -/
def memory : PassAction Memory := do return (← get).memory

/-- Changes the context. -/
def onContext (f : Context → Context) : PassAction Unit :=
  Action.change fun s => { s with context := f s.context }

/-- Changes what passes remember. -/
def onMemory (f : Memory → Memory) : PassAction Unit :=
  Action.change fun s => { s with memory := f s.memory }

/-- Leaves a diagnostic. -/
def log (level : LogLevel) (message : String) : PassAction Unit :=
  onContext (·.log level message)

/-- The value of a computation on the context, which may refuse it. -/
def examine {α : Type} (f : Context → Except Fault α) : PassAction α := do
  Action.ofExcept (f (← context))

/-- Goes on where the pass with a role may be read. -/
def reading (role : Role) : PassAction Unit := do
  if ((← get).leases.of role).canRead then return () else throw (.passBusy role.name)

/-- Goes on where the pass with a role may be changed. -/
def writing (role : Role) : PassAction Unit := do
  if ((← get).leases.of role).canWrite then return () else throw (.passBusy role.name)

/-- The step that works on the context alone. -/
def ofContext {α : Type} (x : Action Context α) : PassAction α :=
  Action.within (·.context) (fun s c => { s with context := c }) x

end PassAction

/-- The fault of a directive that is used in a way that its pass does not support. -/
def refuse {α : Type} (pass message : String) : Except Fault α :=
  .error (.invalidDirective pass message)

/-- A field of a definition in words. -/
def location (t : TypeDefinition) (f : FieldDefinition) : String := t.name ++ "." ++ f.name

/-- The name of the type that pages through the records of a model. -/
def connectionName (model : String) : String := "Model" ++ model ++ "Connection"

/-- The fields that carry a directive, each with its type and the first such directive. -/
def directedFields (c : Context) (directive : String) :
    List (TypeDefinition × FieldDefinition × Directive) :=
  (c.schema.fieldsWith directive).filterMap fun (t, f) =>
    (f.directive? directive).map fun d => (t, f, d)

end ApiCompiler
