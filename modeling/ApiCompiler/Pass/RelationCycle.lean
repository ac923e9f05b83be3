import ApiCompiler.Pass.Memory

/-!
# Passes — cycles of required relations

A record that needs another one, which needs the first, cannot be made. The search goes through
the models by name, and from each through what it needs, depth first.

* `findRequiredCycle`: a closed list of models, each of which needs the next, where there is one.
-/

namespace ApiCompiler.RelationCycle

/-- The models that a model needs, in the order of the relations. -/
def needs (relations : List Relation) (model : String) : List String :=
  (relations.filter fun r => r.required && r.source == model).map (·.target)

/-- The models that need another one, by name. -/
def roots (relations : List Relation) : List String :=
  (Dict.ofList ((relations.filter (·.required)).map fun r => (r.source, ()))).keys

/-- Looks for a cycle through `model`, to which `path` leads, and through what it needs: stops
with the first one, or goes on with the models that are known to be on none. -/
def visit (relations : List Relation) :
    (depth : Nat) → (path done : List String) → (model : String) →
      Except (List String) (List String)
  | 0,         _,    done, _     => .ok done
  | depth + 1, path, done, model =>
    -- the path from the model back to itself
    if model ∈ path then .error (path.dropWhile (· != model) ++ [model])
    else if model ∈ done then .ok done
    else do
      let done ← (needs relations model).foldlM
        (fun done next => visit relations depth (path ++ [model]) done next) done
      -- no cycle leads through the model
      return model :: done

/-- The first cycle of required relations, its first model again at its end. A path that comes
back to no model is not longer than the relations. -/
def findRequiredCycle (relations : List Relation) : Option (List String) :=
  match (roots relations).foldlM
      (fun done root => visit relations (relations.length + 2) [] done root) [] with
  | .error cycle => some cycle
  | .ok _        => none

end ApiCompiler.RelationCycle
