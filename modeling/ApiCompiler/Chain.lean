import ApiCompiler.Pass.Access
import ApiCompiler.Pass.Binding
import ApiCompiler.Pass.Default
import ApiCompiler.Pass.Join
import ApiCompiler.Pass.Storage

/-!
# Chains — passes in their order

A chain is a list of entries: passes, some of which others refer to, and each of which may be held
by somebody else.

* `builtin`: the entries that every chain starts with.
* `validate`: names come once, and a pass comes after all that it depends on.
-/

namespace ApiCompiler

/-- A pass in a chain. -/
structure Entry where
  pass  : Pass
  /-- What other passes know it as. -/
  role  : Option Role := none
  lease : Lease := .free

namespace Entry

/-- The fault of an entry that is held. -/
def busy : Fault := .passBusy "<chain entry>"

/-- Refuses an entry that somebody else holds. -/
def checkFree (e : Entry) : Except Fault Unit :=
  if e.lease.canWrite then .ok () else .error busy

/-- Refuses an entry that somebody else changes. -/
def checkReadable (e : Entry) : Except Fault Unit :=
  if e.lease.canRead then .ok () else .error busy

/-- Applies the pass of an entry, which nobody else may hold. -/
def apply (e : Entry) : PassAction Unit := do
  Action.ofExcept e.checkFree
  e.pass.apply

end Entry

/-- Passes in the order in which they run. -/
abbrev Chain := List Entry

namespace Chain

/-- The passes that every chain starts with, in their order. -/
def builtin (args : FactoryArgs) : Chain :=
  [{ pass := .model, role := some .model },
    { pass := .function args.functionNameMap },
    { pass := .http },
    { pass := .predictions args.storageConfig },
    { pass := .primaryKey },
    { pass := .index, role := some .index },
    { pass := .hasMany },
    { pass := .hasOne, role := some .hasOne },
    { pass := .manyToMany, role := some .manyToMany },
    { pass := .belongsTo },
    { pass := .defaultValue },
    { pass := .auth args, role := some .auth },
    { pass := .mapsTo },
    { pass := .searchable }]

/-- A chain with custom passes after those that every chain starts with. -/
def build (args : FactoryArgs) (custom : List Pass) : Chain :=
  builtin args ++ custom.map fun pass => { pass := pass }

/-- The trace of the construction of a chain. -/
def buildTrace (chain : Chain) (custom : List Pass) : LogEntry :=
  ⟨.debug, "[CHAIN] Built " ++ toString chain.length ++ " passes ("
    ++ toString custom.length ++ " custom)"⟩

/-- The names of the passes, which cannot be told of one that is being changed. -/
def names (chain : Chain) : Except Fault (List String) :=
  chain.mapM fun e => do e.checkReadable; return e.pass.name

/-- Checks entries that follow passes of the names `seen`. -/
def validateAfter (seen : List String) : Chain → Except Fault Unit
  | []        => .ok ()
  | e :: rest => do
    e.checkReadable
    match e.pass.dependsOn.find? (· ∉ seen) with
    | some missing => .error (.unsatisfiedDependency e.pass.name missing)
    | none         =>
      if e.pass.name ∈ seen then .error (.duplicatePass e.pass.name)
      else validateAfter (e.pass.name :: seen) rest

/-- Checks that names come once and that a pass comes after all that it depends on. -/
def validate (chain : Chain) : Except Fault Unit := validateAfter [] chain

/-- How the entry with a role is held; a role that no entry has is free. -/
def leaseOf (chain : Chain) (role : Role) : Lease :=
  ((chain.find? (·.role == some role)).map (·.lease)).getD .free

/-- How the entries that passes refer to are held. -/
def leases (chain : Chain) : Leases where
  model      := chain.leaseOf .model
  index      := chain.leaseOf .index
  hasOne     := chain.leaseOf .hasOne
  auth       := chain.leaseOf .auth
  manyToMany := chain.leaseOf .manyToMany

/-- The chain with the entry at a position held. -/
def hold (chain : Chain) (position : Nat) (lease : Lease) : Chain :=
  chain.modify position fun e => { e with lease }

end Chain

end ApiCompiler
