import ApiCompiler.Resource.Basic

/-!
# Resources — the graph

The resources of an API by id, with rising ids.

* `get?_add`, `get?_ensure`, `get?_modify`: what each operation does to the resource of an id.
-/

namespace ApiCompiler

/-- Resources by id. -/
structure ResourceGraph where
  byId : Dict Resource := ∅
deriving DecidableEq, Inhabited

namespace ResourceGraph

/-- The resources by rising id. -/
def toList (g : ResourceGraph) : List Resource := g.byId.values

/-- Puts a resource in place of any other one of its id. -/
def add (g : ResourceGraph) (r : Resource) : ResourceGraph := ⟨g.byId.insert r.id r⟩

/-- The resource of an id. -/
def get? (g : ResourceGraph) (id : String) : Option Resource := g.byId.find? id

/-- Whether an id has a resource. -/
def contains (g : ResourceGraph) (id : String) : Bool := g.byId.contains id

/-- Adds a resource unless its id has one. -/
def ensure (g : ResourceGraph) (r : Resource) : ResourceGraph :=
  if g.contains r.id then g else g.add r

/-- Applies `f` to the resource of an id, where there is one. -/
def modify (g : ResourceGraph) (id : String) (f : Resource → Resource) : ResourceGraph :=
  ⟨g.byId.modify id f⟩

/-- The resources of a kind, by rising id. -/
def ofKind (g : ResourceGraph) (kind : ResourceKind) : List Resource :=
  g.toList.filter (·.kind == kind)

/-- How many resources there are. -/
def size (g : ResourceGraph) : Nat := g.byId.size

/-- Whether there are no resources. -/
def isEmpty (g : ResourceGraph) : Bool := g.byId.isEmpty

/-- The resources that an earlier graph does not have or has otherwise, by rising id. -/
def changesSince (g before : ResourceGraph) : List Resource :=
  g.toList.filter fun r => !(before.get? r.id).any (·.agrees r)

/-- The graph of a list of resources, the last one of a repeated id. -/
def ofList (resources : List Resource) : ResourceGraph := resources.foldl add {}

theorem get?_add (g : ResourceGraph) (r : Resource) (id : String) :
    (g.add r).get? id = if id = r.id then some r else g.get? id := by
  simp [get?, add, Dict.find?_insert]

theorem contains_iff_get? {g : ResourceGraph} {id : String} :
    g.contains id = true ↔ ∃ r, g.get? id = some r :=
  Dict.contains_iff_find?

theorem get?_ensure (g : ResourceGraph) (r : Resource) (id : String) :
    (g.ensure r).get? id = if id = r.id then some ((g.get? id).getD r) else g.get? id := by
  unfold ensure
  by_cases h : g.contains r.id = true
  · obtain ⟨s, hs⟩ := contains_iff_get?.1 h
    by_cases hid : id = r.id
    · subst hid; simp [h, hs]
    · simp [h, hid]
  · have hn : g.get? r.id = none := by
      cases hg : g.get? r.id with
      | none => rfl
      | some s => exact absurd (contains_iff_get?.2 ⟨s, hg⟩) h
    by_cases hid : id = r.id
    · subst hid; simp [h, get?_add, hn]
    · simp [h, get?_add, hid]

theorem get?_modify (g : ResourceGraph) (id other : String) (f : Resource → Resource) :
    (g.modify id f).get? other = if other = id then (g.get? id).map f else g.get? other := by
  unfold modify Dict.modify get?
  cases h : g.byId.find? id with
  | none =>
    by_cases hid : other = id
    · subst hid; simp [h]
    · simp [hid]
  | some r => by_cases hid : other = id <;> simp [Dict.find?_insert, hid]

end ResourceGraph

end ApiCompiler
