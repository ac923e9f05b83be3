/-!
# Faults

What can stop the compilation of an API, by cause, with the words for each cause.

* `Fault.kind`: the stage of the work that a fault belongs to.
* `Fault.message`: its words.
-/

namespace ApiCompiler

/-- The stage of the work that a fault belongs to. -/
inductive FaultKind where
  /-- The configuration or the chain of passes is unfit, before any pass runs. -/
  | construction
  /-- A pass refused the schema; the passes after it do not run. -/
  | pass
  /-- A document of outputs is not of its version's form. -/
  | validation
  /-- The backend refused an operation. -/
  | backend
deriving DecidableEq, Repr

/-- What stops the work. -/
inductive Fault where
  /-- The text of the configuration is not a JSON text. -/
  | malformedConfig
  | invalidConfig (reason : String)
  | unsatisfiedDependency (pass dependency : String)
  | duplicatePass (pass : String)
  | schemaParse (reason : String)
  | invalidDirective (pass message : String)
  | unresolvedDatasource (pass model reason : String)
  | cyclicRelation (pass : String) (cycle : List String)
  | passBusy (pass : String)
  | validation (reason : String)
  | backend (reason : String)
deriving DecidableEq, Repr, Inhabited

namespace Fault

/-- The stage that a fault belongs to. -/
def kind : Fault → FaultKind
  | malformedConfig          => .construction
  | invalidConfig _          => .construction
  | unsatisfiedDependency .. => .construction
  | duplicatePass _          => .construction
  | schemaParse _            => .pass
  | invalidDirective ..      => .pass
  | unresolvedDatasource ..  => .pass
  | cyclicRelation ..        => .pass
  | passBusy _               => .pass
  | validation _             => .validation
  | backend _                => .backend

/-- The words for a fault. -/
def message : Fault → String
  | malformedConfig                         => "invalid transform configuration: not a JSON text"
  | invalidConfig reason                    => "invalid transform configuration: " ++ reason
  | unsatisfiedDependency pass dependency   =>
    "pass '" ++ pass ++ "' depends on '" ++ dependency ++ "', which does not run before it"
  | duplicatePass pass                      => "duplicate pass name in chain: " ++ pass
  | schemaParse reason                      => "schema parse error: " ++ reason
  | invalidDirective pass message           =>
    "[" ++ pass ++ "] invalid directive usage: " ++ message
  | unresolvedDatasource pass model reason  =>
    "[" ++ pass ++ "] unresolved datasource for model '" ++ model ++ "': " ++ reason
  | cyclicRelation pass cycle               =>
    "[" ++ pass ++ "] cyclic relationship: " ++ " -> ".intercalate cycle
  | passBusy pass                           => "pass '" ++ pass ++ "' is already in use"
  | validation reason                       => "output validation failed: " ++ reason
  | backend reason                          => "backend error: " ++ reason

end Fault

end ApiCompiler
