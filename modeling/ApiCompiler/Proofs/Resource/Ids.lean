import ApiCompiler.Pass.Storage

/-!
# Resources — what an id says

The ids of tables, datasources and resolvers end in different words, so that none of one kind is
ever that of another kind, whatever names a schema uses.

* `kindOfId?`: the kind that an id stands for.
* `datasourceId_inj`: a datasource belongs to one model.
-/

namespace ApiCompiler

/-- Whether a text ends in `w`. -/
def endsIn (w s : String) : Bool := w.toList.isSuffixOf s.toList

theorem endsIn_append (w v s : String) :
    endsIn w (s ++ v) = w.toList.reverse.isPrefixOf (v.toList.reverse ++ s.toList.reverse) := by
  rw [endsIn, List.isSuffixOf, String.toList_append, List.reverse_append]

/-- The kind of resource that an id of a certain form stands for, where the form is that of no
other kind. -/
def kindOfId? (id : String) : Option ResourceKind :=
  if endsIn "Table" id then some .table
  else if endsIn "DataSource" id then some .dataSource
  else if endsIn "Resolver" id then some .resolver
  else if id = SearchPass.domainId then some .searchDomain
  else none

theorem kindOfId?_tableId (model : String) : kindOfId? (tableId model) = some .table := by
  rw [kindOfId?, tableId, endsIn_append]
  rfl

theorem kindOfId?_datasourceId (model : String) :
    kindOfId? (datasourceId model) = some .dataSource := by
  rw [kindOfId?, datasourceId, endsIn_append, endsIn_append]
  rfl

theorem kindOfId?_resolverId (typeName fieldName : String) :
    kindOfId? (resolverId typeName fieldName) = some .resolver := by
  rw [kindOfId?, resolverId, endsIn_append, endsIn_append, endsIn_append]
  rfl

theorem datasourceId_inj {a b : String} (h : datasourceId a = datasourceId b) : a = b :=
  (String.append_left_inj _).1 h

theorem tableId_inj {a b : String} (h : tableId a = tableId b) : a = b :=
  (String.append_left_inj _).1 h

theorem tableId_ne_datasourceId (model other : String) : tableId model ≠ datasourceId other := by
  intro he
  have := (kindOfId?_tableId model).symm.trans (he ▸ kindOfId?_datasourceId other)
  cases this

/-- The resolvers of one type belong to its fields. -/
theorem fieldName_inj {type a b : String} (h : resolverId type a = resolverId type b) : a = b :=
  (String.append_right_inj _).1 ((String.append_left_inj _).1 h)

end ApiCompiler
