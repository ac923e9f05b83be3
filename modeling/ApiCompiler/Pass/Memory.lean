import ApiCompiler.Access.Rule
import ApiCompiler.Config.Datasource

/-!
# Passes — what they remember

The passes of a chain keep what they learn: over the passes of one run, and from one run of the
chain to the next.

* `Memory.addRelation`, `Memory.extendRules`: nothing is kept twice.
-/

namespace ApiCompiler

/-- What is known about a materialized model. -/
structure ModelRecord where
  datasource  : DatasourceType
  /-- Whether it was made for another pass and not declared in the schema. -/
  synthesized : Bool
deriving DecidableEq, Repr, Inhabited

/-- A secondary index of a model. -/
structure IndexRecord where
  model        : String
  name         : String
  partitionKey : String
  sortKeys     : List String := []
  queryField   : Option String := none
deriving DecidableEq, Repr, Inhabited

/-- A link from a field of one model to another model. -/
structure Relation where
  source   : String
  field    : String
  target   : String
  required : Bool
deriving DecidableEq, Repr, Inhabited

/-- What the passes of a chain remember. -/
structure Memory where
  models     : Dict ModelRecord := ∅
  indexes    : List IndexRecord := []
  relations  : List Relation := []
  rules      : Dict (List AuthRule) := ∅
  /-- The models that each join model connects. -/
  joinModels : Dict (List String) := ∅
deriving DecidableEq

/-- A list with an item at its end, unless it has it. -/
def appendNew {α : Type} [DecidableEq α] (items : List α) (a : α) : List α :=
  if a ∈ items then items else items ++ [a]

theorem mem_appendNew {α : Type} [DecidableEq α] {items : List α} {a b : α} :
    b ∈ appendNew items a ↔ b ∈ items ∨ b = a := by
  unfold appendNew
  split
  · next h => exact ⟨.inl, fun h' => h'.elim id fun e => e ▸ h⟩
  · simp

theorem nodup_appendNew {α : Type} [DecidableEq α] {items : List α} (h : items.Nodup) (a : α) :
    (appendNew items a).Nodup := by
  unfold appendNew
  split
  · exact h
  · next ha => exact List.nodup_append.2 ⟨h, by simp, by rintro x hx y hy rfl; simp_all⟩

namespace Memory

/-- The indexes of a model. -/
def indexesOn (m : Memory) (model : String) : List IndexRecord :=
  m.indexes.filter (·.model == model)

/-- The rules of a model. -/
def rulesFor (m : Memory) (model : String) : List AuthRule := (m.rules.find? model).getD []

/-- The memory with a relation, which is not kept twice. -/
def addRelation (m : Memory) (r : Relation) : Memory :=
  { m with relations := appendNew m.relations r }

/-- The memory with rules for a model, none of which is kept twice. -/
def extendRules (m : Memory) (model : String) (rules : List AuthRule) : Memory :=
  { m with rules := m.rules.insert model (rules.foldl appendNew (m.rulesFor model)) }

/-- The memory with a join model, which takes over the rules of what it connects. -/
def registerJoin (m : Memory) (join : String) (sources : List String) : Memory :=
  { m with joinModels := m.joinModels.insert join sources }

end Memory

end ApiCompiler
