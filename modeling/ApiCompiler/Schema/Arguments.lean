import ApiCompiler.Fault
import ApiCompiler.Json.Decoder
import ApiCompiler.Schema.Basic

/-!
# Schema — typed arguments of a directive

The arguments of a directive are laid over defaults, as a whole or object by object, and decoded.

* `requiredString`: an argument that has to be a text or an enum value.
* `decodeArguments`: all arguments as a value of some type.
-/

namespace ApiCompiler

namespace Directive

/-- The arguments laid over defaults. -/
def argumentsOver (d : Directive) (defaults : Json) (deep : Bool) : Json :=
  if deep then Json.merge defaults d.argumentsJson else Json.mergeShallow defaults d.argumentsJson

/-- The arguments laid over defaults, decoded. -/
def decodeArguments {α : Type} (d : Directive) (decode : Json.Decoder α) (defaults : Json)
    (deep : Bool) : Except Fault α :=
  match decode .value (d.argumentsOver defaults deep) with
  | .ok a    => .ok a
  | .error e => .error (.invalidDirective d.name ("invalid arguments: " ++ e.message))

/-- An argument that has to be a text or an enum value; `location` says where the directive is. -/
def requiredString (d : Directive) (pass argument location : String) : Except Fault String :=
  match (d.argument? argument).bind Value.asString? with
  | some s => .ok s
  | none   =>
    .error (.invalidDirective pass ("@" ++ d.name ++ " on " ++ location ++ " requires a string '"
      ++ argument ++ "' argument"))

end Directive

end ApiCompiler
