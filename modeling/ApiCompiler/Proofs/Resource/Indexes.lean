import ApiCompiler.Proofs.Chain.Order
import ApiCompiler.Proofs.Pass.Properties
import ApiCompiler.Proofs.Resource.Endpoints
import ApiCompiler.Proofs.Resource.Keys
import Mathlib.Data.List.Nodup

/-!
# Resources — names of indexes

A table lists its indexes under two names of a property, global ones and local ones. Those that the
schema declares and those of a join model are checked against the ones that are remembered of the
model; that of a link is listed by the table of its target as it is.

* `Resource.indexNames`, `ResourceGraph.Indexes`: the names that a table lists, and what a further
  one adds to them.
* `PassState.Lists`: every table lists what is remembered of its model, and more. Passes of indexes
  and of links keep it.
* `PassState.ListsApart`: the same behind join models, whose own indexes have different names.
* `Document.LinksApart`: no link to a model shares the name of its index.
* `Chain.indexNames_nodup_iff_of_completes`: where the names of indexes are unique per table.
-/

namespace ApiCompiler

open PassAction

/-! ### What tables list -/

/-- The items of a list; of what is no list there are none. -/
def Json.items : Option Json → List Json
  | some (.arr items) => items
  | _                 => []

/-- The names of indexes that are listed by properties. -/
def indexNamesOf (property : String → Option Json) : List (Option Json) :=
  indexLists.flatMap fun list => (Json.items (property list)).map (·.get? "indexName")

/-- The names of the indexes that a table lists, global ones first. -/
def Resource.indexNames (r : Resource) : List (Option Json) := indexNamesOf r.get?

/-- The name of an index as an entry has it. -/
def indexLabel (name : String) : Option Json := some (.str name)

theorem indexLabel_injective : Function.Injective indexLabel := fun _ _ h =>
  Json.str.inj (Option.some.inj h)

theorem indexNamesOf_congr {property property' : String → Option Json}
    (h : ∀ list ∈ indexLists, property' list = property list) :
    indexNamesOf property' = indexNamesOf property :=
  List.flatMap_congr fun list hl => by rw [h list hl]

theorem Resource.items_push (r : Resource) (list : String) (entry : Json) :
    Json.items ((r.push list entry).get? list) = Json.items (r.get? list) ++ [entry] := by
  unfold push
  split
  · next items hitems => rw [get?_set, if_pos rfl, get?, hitems, Json.items, Json.items]
  · next hitems =>
    rw [get?_set, if_pos rfl, get?, Json.items]
    cases hv : r.properties.find? list with
    | none => rfl
    | some v =>
      cases v with
      | arr items => exact absurd hv (hitems items)
      | _ => rfl

/-- An entry that is listed brings its name. -/
theorem Resource.indexNames_push (r : Resource) {list : String} (hl : list ∈ indexLists)
    (entry : Json) :
    (r.push list entry).indexNames.Perm (r.indexNames ++ [entry.get? "indexName"]) := by
  have other : ∀ list', list' ≠ list → (r.push list entry).get? list' = r.get? list' :=
    fun _ hne => get?_push r hne entry
  simp only [indexLists, List.mem_cons, List.not_mem_nil, or_false] at hl
  simp only [indexNames, indexNamesOf, indexLists, List.flatMap_cons, List.flatMap_nil,
    List.append_nil]
  rcases hl with rfl | rfl
  · rw [items_push, other _ (by decide), List.map_append, List.append_assoc, List.append_assoc]
    exact (List.perm_append_comm).append_left _
  · rw [items_push, other _ (by decide), List.map_append, List.append_assoc]
    rfl

namespace ResourceGraph

/-- The names of the indexes that are listed by the table of a model. -/
def indexNames (g : ResourceGraph) (model : String) : List (Option Json) :=
  indexNamesOf (g.property? (tableId model))

/-- A model has a table, which has a key. -/
def HasTable (g : ResourceGraph) (model : String) : Prop :=
  (g.property? (tableId model) "hashKey").isSome = true

variable {g g' g'' : ResourceGraph} {model : String}

theorem indexNames_of_get? {r : Resource} (h : g.get? (tableId model) = some r) :
    g.indexNames model = r.indexNames := by
  unfold indexNames Resource.indexNames
  exact indexNamesOf_congr fun list _ => property?_of_get? h list

theorem HasTable.contains (h : g.HasTable model) : g.contains (tableId model) = true := by
  by_contra hc
  rw [HasTable, property?_of_not_contains hc] at h
  cases h

/-- Tables of some ids have the same keys and the same indexes in two graphs. -/
def SameTables (p : String → Prop) (g g' : ResourceGraph) : Prop :=
  ∀ key ∈ "hashKey" :: indexLists, g.Same p key g'

namespace SameTables

variable {p : String → Prop}

theorem refl (p : String → Prop) (g : ResourceGraph) : g.SameTables p g :=
  fun key _ => .refl p key g

theorem trans (h : g.SameTables p g') (h' : g'.SameTables p g'') : g.SameTables p g'' :=
  fun key hk => (h key hk).trans (h' key hk)

theorem of_imp {q : String → Prop} (h : g.SameTables p g') (hpq : ∀ id, q id → p id) :
    g.SameTables q g' :=
  fun key hk id hid => h key hk id (hpq id hid)

theorem hasTable_iff (h : g.SameTables p g') (hm : p (tableId model)) :
    g'.HasTable model ↔ g.HasTable model := by
  rw [HasTable, HasTable, h _ List.mem_cons_self _ hm]

theorem indexNames_eq (h : g.SameTables p g') (hm : p (tableId model)) :
    g'.indexNames model = g.indexNames model :=
  indexNamesOf_congr fun list hl => h list (List.mem_cons_of_mem _ hl) _ hm

end SameTables

/-- The table of a model, if there is one, lists a further index, and other tables are the same. -/
structure Indexes (g : ResourceGraph) (model name : String) (g' : ResourceGraph) : Prop where
  hasTable_iff : ∀ other, g'.HasTable other ↔ g.HasTable other
  own : g.HasTable model → (g'.indexNames model).Perm (g.indexNames model ++ [indexLabel name])
  others : ∀ other, other ≠ model → g.SameTables (· = tableId other) g'

theorem Indexes.trans_same {name : String} (h : g.Indexes model name g')
    (h' : g'.SameTables (Chain.OfKind .table) g'') : g.Indexes model name g'' where
  hasTable_iff other := (h'.hasTable_iff (kindOfId?_tableId other)).trans (h.hasTable_iff other)
  own ht := h'.indexNames_eq (kindOfId?_tableId model) ▸ h.own ht
  others other hne :=
    (h.others other hne).trans (h'.of_imp fun _ hid => hid ▸ kindOfId?_tableId other)

theorem indexes_modify_push {list : String} (hl : list ∈ indexLists) {entry : Json} {name : String}
    (he : entry.get? "indexName" = indexLabel name) :
    g.Indexes model name (g.modify (tableId model) (·.push list entry)) where
  hasTable_iff other := by
    have hkey : "hashKey" ∉ [list] := by
      simp only [indexLists, List.mem_cons, List.not_mem_nil, or_false] at hl ⊢
      rcases hl with rfl | rfl <;> decide
    rw [HasTable, HasTable, property?_modify (.push (List.mem_singleton_self list) entry) hkey]
  own ht := by
    obtain ⟨r, hr⟩ := contains_iff_get?.1 ht.contains
    have pushed : (g.modify (tableId model) (·.push list entry)).get? (tableId model)
        = some (r.push list entry) := by
      rw [get?_modify, if_pos rfl, hr, Option.map_some]
    rw [indexNames_of_get? pushed, indexNames_of_get? hr, ← he]
    exact r.indexNames_push hl entry
  others other hne := by
    have same : (g.modify (tableId model) (·.push list entry)).get? (tableId other)
        = g.get? (tableId other) := by
      rw [get?_modify, if_neg fun h => hne (tableId_inj h)]
    rintro key - _ rfl
    exact property?_congr same key

end ResourceGraph

namespace Context

/-- What a resolver is made with and gets is nothing of a table. -/
theorem sameTables_addResolver {p : String → Prop} {c : Context} {keys : List String}
    {f : Resource → Resource} (hf : Decorates keys f)
    (hk : ∀ key ∈ "hashKey" :: indexLists, key ∉ keys)
    (typeName fieldName datasource stack : String) :
    c.resources.SameTables p (c.addResolver typeName fieldName datasource stack f).resources :=
  fun key hkey => same_addResolver hf
    ((by decide : ∀ key ∈ "hashKey" :: indexLists, key ∉ resolverProperties) key hkey)
    (hk key hkey) _ _ _ _

end Context

/-! ### Passes -/

namespace ModelPass

/-- The table of a model is made without indexes, where one is made. -/
theorem indexNames_addStore {c d : Context} {model : String} (h : addStore c model = .ok d) :
    d.resources.indexNames model = [] ∨ c.resources.SameTables (· = tableId model) d.resources := by
  rcases addStore_eq h with rfl | ⟨dbType, secrets, rfl⟩
  · left
    have made : ((c.resources.add (table c model)).add (tableDatasource model)).get? (tableId model)
        = some (table c model) := by
      rw [ResourceGraph.get?_add, id_tableDatasource, if_neg (tableId_ne_datasourceId model model),
        ResourceGraph.get?_add, id_table, if_pos rfl]
    have lists : ∀ list ∈ indexLists, Json.items ((table c model).get? list) = [] := by
      unfold table
      split <;> simp [indexLists, Resource.get?_set, ResourceGraph.get?_bare, Json.items]
    refine (ResourceGraph.indexNames_of_get? (g := (c.resources.add _).add _) made).trans ?_
    exact List.flatMap_eq_nil_iff.2 fun list hl => by rw [lists list hl, List.map_nil]
  · refine .inr fun key _ => ResourceGraph.same_add fun he => ?_
    rw [id_relationalDatasource] at he
    exact tableId_ne_datasourceId model model he.symm

/-- What is made of a model behind its store is nothing of a table. -/
theorem sameTables_of_addStore {model : String} {synthesized : Bool} {s t : PassState}
    (h : (materialize model synthesized).on s = (.ok (), t)) : ∃ c,
      addStore s.context model = .ok c
        ∧ ∀ p, c.resources.SameTables p t.context.resources := by
  obtain ⟨c, d, hc, hd, ht, -⟩ := materialize_ok h
  refine ⟨c, hc, fun p key hk => ?_⟩
  rw [ht, Context.resources_log, ← resources_addFields hd]
  exact same_addOperations
    ((by decide : ∀ key ∈ "hashKey" :: indexLists, key ∉ resolverProperties) key hk) d model

theorem indexNames_of_materialize {model : String} {synthesized : Bool} {s t : PassState}
    (h : (materialize model synthesized).on s = (.ok (), t)) :
    t.context.resources.indexNames model = []
      ∨ s.context.resources.SameTables (· = tableId model) t.context.resources := by
  obtain ⟨c, hc, same⟩ := sameTables_of_addStore h
  rcases indexNames_addStore hc with hn | hs
  · exact .inl (((same (· = tableId model)).indexNames_eq rfl).trans hn)
  · exact .inr (hs.trans (same _))

/-- The tables of other models are the same. -/
theorem sameTables_of_materialize {model : String} {synthesized : Bool} {s t : PassState}
    (h : (materialize model synthesized).on s = (.ok (), t)) {other : String}
    (hne : other ≠ model) :
    s.context.resources.SameTables (· = tableId other) t.context.resources := by
  obtain ⟨c, hc, same⟩ := sameTables_of_addStore h
  refine ResourceGraph.SameTables.trans (fun key _ => ?_) (same _)
  exact same_addStore (fun he => hne (tableId_inj he).symm)
    (fun he => tableId_ne_datasourceId other model he.symm) hc

/-- The tables that the pass makes are those of models of the schema, and list no indexes. -/
theorem tables_of_apply {c : Context} (hc : c.resources = {}) {t : PassState}
    (h : apply.on { context := c } = (.ok (), t)) (model : String) :
    (t.context.resources.HasTable model → model ∈ c.schema.namesWith "model")
      ∧ t.context.resources.indexNames model = [] := by
  constructor
  · intro ht
    have counts : t.context.isModel model = true := Context.isModel_iff.2 (.inl ht.contains)
    refine ((isModel_of_apply h model).1 counts).resolve_left fun hm => ?_
    rw [Context.isModel, hc] at hm
    cases hm
  · rw [apply, on_context_bind] at h
    obtain ⟨_, u, hu, hlog⟩ := Action.on_bind_eq_ok.1 h
    cases hlog
    have unlisted : u.context.resources.indexNames model = [] := by
      refine Action.forEach_invariant (I := fun v : PassState =>
        v.context.resources.indexNames model = []) (fun made _ v w hw hv => ?_) hu (by rw [hc]; rfl)
      rw [materializeDeclared, on_memory_bind] at hw
      split at hw
      · cases hw
        exact hv
      · by_cases hne : model = made
        · subst hne
          exact (indexNames_of_materialize hw).elim id fun hs => (hs.indexNames_eq rfl).trans hv
        · exact ((sameTables_of_materialize hw hne).indexNames_eq rfl).trans hv
    exact unlisted

/-- The pass remembers the models of the schema. -/
theorem contains_of_apply {c : Context} (hc : c.resources = {}) {t : PassState}
    (h : apply.on { context := c } = (.ok (), t)) {model : String}
    (hm : model ∈ c.schema.namesWith "model") : t.memory.models.contains model = true := by
  have fresh : PassState.Agrees (fun _ => False) { context := c } := by
    intro type
    rw [Context.isModel, hc]
    exact iff_of_false Bool.false_ne_true fun h => h.elim Bool.false_ne_true id
  have counts := (isModel_of_apply h model).2 (.inr hm)
  exact ((agrees_of_apply fresh h model).1 counts).resolve_right id

end ModelPass

namespace IndexPass

theorem indexes_attach (c : Context) (r : IndexRecord) :
    c.resources.Indexes r.model r.name (attach c r).resources := by
  have pushed : c.resources.Indexes r.model r.name (c.resources.modify (tableId r.model)
      (·.push (listedUnder c) (entry r.name r.partitionKey r.sortKeys))) :=
    ResourceGraph.indexes_modify_push (listedUnder_mem c) rfl
  rw [attach, addQuery]
  split
  · exact pushed
  · exact pushed.trans_same (Context.sameTables_addResolver (c := c.modifyResource _ _)
      (.set (List.mem_singleton_self "index") _) (by decide) _ _ _ _)

/-- An index that is added is the only one of its name that is remembered of the model. -/
theorem addIndex_ok {r : IndexRecord} {s t : PassState} (h : (addIndex r).on s = (.ok (), t)) :
    (∀ r' ∈ s.memory.indexesOn r.model, r'.name ≠ r.name)
      ∧ t.context.resources = (attach s.context r).resources
      ∧ t.memory = { s.memory with indexes := s.memory.indexes ++ [r] } := by
  rw [on_addIndex] at h
  split at h
  · cases (Prod.mk.inj h).1
  · split at h
    · cases (Prod.mk.inj h).1
    · next hnew =>
      cases h
      refine ⟨fun r' hr' he => hnew ?_, rfl, rfl⟩
      exact List.any_eq_true.2 ⟨r', hr', beq_iff_eq.2 he⟩

end IndexPass

namespace HasManyPass

theorem indexes_attach (c : Context) (l : Link) :
    c.resources.Indexes l.target (indexName l) (attach c l).resources := by
  have pushed : c.resources.Indexes l.target (indexName l) (c.resources.modify (tableId l.target)
      (·.push "globalSecondaryIndexes" (.obj [("indexName", .str (indexName l)),
        ("partitionKey", .str l.foreignKey), ("sortKeys", .arr [])]))) :=
    ResourceGraph.indexes_modify_push List.mem_cons_self rfl
  have linked : Decorates ["relation", "index"] fun r =>
      [("relation", .str "hasMany"), ("index", .str (indexName l))].foldl
        (fun r p => r.set p.1 p.2) r := .foldl_set (by simp)
  exact pushed.trans_same (Context.sameTables_addResolver
    (c := retypeField ((ensureForeignKey c l.target l.foreignKey).modifyResource (tableId l.target)
      _) l.source l.field _) linked (by decide) _ _ _ _)

end HasManyPass

/-! ### Indexes that are remembered -/

namespace Memory

/-- The indexes of a model have different names. -/
def NamesApart (m : Memory) : Prop := (m.indexes.map fun r => (r.model, r.name)).Nodup

variable {m : Memory}

theorem mem_indexesOn {model : String} {r : IndexRecord} :
    r ∈ m.indexesOn model ↔ r ∈ m.indexes ∧ r.model = model := by
  rw [indexesOn, List.mem_filter, beq_iff_eq]

theorem NamesApart.eq (h : m.NamesApart) {r r' : IndexRecord} (hr : r ∈ m.indexes)
    (hr' : r' ∈ m.indexes) (hmodel : r.model = r'.model) (hname : r.name = r'.name) : r = r' :=
  List.inj_on_of_nodup_map h hr hr' (Prod.ext hmodel hname)

theorem NamesApart.indexesOn (h : m.NamesApart) (model : String) :
    ((m.indexesOn model).map (·.name)).Nodup := by
  have pairs : (m.indexesOn model).map (fun r => (r.model, r.name))
      = ((m.indexesOn model).map (·.name)).map fun name => (model, name) := by
    rw [List.map_map]
    exact List.map_congr_left fun r hr => Prod.ext (mem_indexesOn.1 hr).2 rfl
  have sublist : ((m.indexesOn model).map fun r => (r.model, r.name)).Sublist
      (m.indexes.map fun r => (r.model, r.name)) := List.filter_sublist.map _
  exact .of_map _ (pairs ▸ h.sublist sublist)

end Memory

/-- Every table is that of one of some models, and lists the indexes that are remembered of it, and
`more`. -/
structure PassState.Lists (models : List String) (more : String → List String) (s : PassState) :
    Prop where
  model : ∀ m, s.context.resources.HasTable m → m ∈ models
  names : ∀ m, s.context.resources.HasTable m → (s.context.resources.indexNames m).Perm
    (((s.memory.indexesOn m).map (·.name) ++ more m).map indexLabel)

namespace IndexPass

variable {r : IndexRecord} {rs : List IndexRecord} {s t : PassState}

theorem namesApart_of_addIndex (hs : s.memory.NamesApart) (h : (addIndex r).on s = (.ok (), t)) :
    t.memory.NamesApart := by
  obtain ⟨hnew, -, hm⟩ := addIndex_ok h
  rw [hm, Memory.NamesApart, List.map_append]
  refine List.nodup_append.2 ⟨hs, List.nodup_singleton _, ?_⟩
  rintro p hp q hq rfl
  obtain ⟨r', hr', he⟩ := List.mem_map.1 hp
  rw [List.map_singleton, List.mem_singleton, ← he] at hq
  obtain ⟨hmodel, hname⟩ := Prod.mk.inj hq
  exact hnew r' (Memory.mem_indexesOn.2 ⟨hr', hmodel⟩) hname

/-- An index that is remembered is listed by the table of its model, if there is one. -/
theorem lists_of_addIndex {models : List String} {more : String → List String}
    (hs : s.Lists models more) (h : (addIndex r).on s = (.ok (), t)) : t.Lists models more := by
  obtain ⟨-, hres, hm⟩ := addIndex_ok h
  have indexed := indexes_attach s.context r
  rw [← hres] at indexed
  refine ⟨fun m ht => hs.model m ((indexed.hasTable_iff m).1 ht), fun m ht => ?_⟩
  have before := hs.names m ((indexed.hasTable_iff m).1 ht)
  have remembered : t.memory.indexesOn m
      = s.memory.indexesOn m ++ if r.model = m then [r] else [] := by
    rw [hm, Memory.indexesOn, Memory.indexesOn, List.filter_append]
    congr 1
    by_cases he : r.model = m <;> simp [he]
  rw [remembered]
  by_cases he : r.model = m
  · subst he
    have listed := (indexed.own ((indexed.hasTable_iff _).1 ht)).trans (before.append_right _)
    refine listed.trans ?_
    rw [if_pos rfl, List.map_append, List.map_append, List.map_append, List.map_append,
      List.append_assoc, List.append_assoc]
    exact List.perm_append_comm.append_left _
  · rw [if_neg he, List.append_nil, (indexed.others m (Ne.symm he)).indexNames_eq rfl]
    exact before

theorem exists_of_apply (h : apply.on s = (.ok (), t)) :
    ∃ rs, (Action.forEach addIndex rs).on s = (.ok (), t) := by
  rw [apply, on_examine_bind] at h
  split at h
  · exact ⟨_, h⟩
  · cases (Prod.mk.inj h).1

/-- Where the pass succeeds, its indexes are listed, and have different names. -/
theorem lists_of_apply {models : List String} {more : String → List String}
    (hs : s.Lists models more) (ha : s.memory.NamesApart) (h : apply.on s = (.ok (), t)) :
    t.Lists models more ∧ t.memory.NamesApart := by
  obtain ⟨rs, hrs⟩ := exists_of_apply h
  exact Action.forEach_invariant
    (I := fun u : PassState => u.Lists models more ∧ u.memory.NamesApart)
    (fun r _ u v hv hu => ⟨lists_of_addIndex hu.1 hv, namesApart_of_addIndex hu.2 hv⟩) hrs ⟨hs, ha⟩

/-- The pass remembers the indexes that the schema declares, behind those before. -/
theorem indexes_of_forEach (h : (Action.forEach addIndex rs).on s = (.ok (), t)) :
    t.memory.indexes = s.memory.indexes ++ rs := by
  induction rs generalizing s with
  | nil =>
    cases h
    exact (List.append_nil _).symm
  | cons r rs ih =>
    obtain ⟨u, hu, h⟩ := Action.forEach_cons_ok.1 h
    rw [ih h, (addIndex_ok hu).2.2, List.append_assoc]
    rfl

end IndexPass

namespace HasManyPass

variable {ls : List Link} {s t : PassState} {models : List String} {more : String → List String}

theorem link_ok {l : Link} (h : (link l).on s = (.ok (), t)) :
    l.isList = true ∧ t = { s with context := attach s.context l } := by
  rw [link] at h
  replace h := (on_guard _ _ (fun _ => onContext (attach · l)) s).symm.trans h
  split at h
  · cases (Prod.mk.inj h).1
  · next hl =>
    cases h
    exact ⟨by simpa using hl, rfl⟩

/-- Links are listed by the tables of the models that they lead to, where there are such. -/
theorem lists_of_forEach (hs : s.Lists models more)
    (h : (Action.forEach link ls).on s = (.ok (), t)) :
    (∀ l ∈ ls, l.isList = true) ∧ t.memory = s.memory ∧ t.Lists models fun m =>
      more m ++ (ls.filter (·.target == m)).map indexName := by
  induction ls generalizing s more with
  | nil =>
    cases h
    exact ⟨List.forall_mem_nil _, rfl, by simpa using hs⟩
  | cons l ls ih =>
    obtain ⟨u, hu, h⟩ := Action.forEach_cons_ok.1 h
    obtain ⟨hl, rfl⟩ := link_ok hu
    have indexed := indexes_attach s.context l
    have linked : PassState.Lists models
        (fun m => more m ++ if l.target = m then [indexName l] else [])
        { s with context := attach s.context l } := by
      refine ⟨fun m ht => hs.model m ((indexed.hasTable_iff m).1 ht), fun m ht => ?_⟩
      have before := hs.names m ((indexed.hasTable_iff m).1 ht)
      by_cases he : l.target = m
      · subst he
        have listed := (indexed.own ((indexed.hasTable_iff _).1 ht)).trans (before.append_right _)
        refine listed.trans (.of_eq ?_)
        rw [if_pos rfl, ← List.append_assoc, List.map_append, List.map_append, List.map_append,
          List.map_singleton]
      · rw [if_neg he, List.append_nil, (indexed.others m (Ne.symm he)).indexNames_eq rfl]
        exact before
    obtain ⟨hlists, hm, ht⟩ := ih linked h
    refine ⟨List.forall_mem_cons.2 ⟨hl, hlists⟩, hm, ?_⟩
    have split : ∀ m, (more m ++ if l.target = m then [indexName l] else [])
        ++ (ls.filter (·.target == m)).map indexName
        = more m ++ ((l :: ls).filter (·.target == m)).map indexName := fun m => by
      rw [List.append_assoc, List.filter_cons]
      by_cases he : l.target = m <;> simp [he]
    simpa only [split] using ht

end HasManyPass

/-! ### Join models -/

/-- The tables of some models list the indexes that are remembered of them, and `more`; the indexes
of any other table have different names. -/
structure PassState.ListsApart (models : List String) (more : String → List String)
    (s : PassState) : Prop where
  made  : ∀ m, s.context.resources.HasTable m → s.memory.models.contains m = true
  known : ∀ m ∈ models, s.memory.models.contains m = true
  names : ∀ m ∈ models, s.context.resources.HasTable m → (s.context.resources.indexNames m).Perm
    (((s.memory.indexesOn m).map (·.name) ++ more m).map indexLabel)
  apart : ∀ m ∈ models, ((s.memory.indexesOn m).map (·.name)).Nodup
  joins : ∀ m, m ∉ models → s.context.resources.HasTable m →
    (s.context.resources.indexNames m).Nodup

/-- Where every table is that of one of some models, no others are there to tell apart. -/
theorem PassState.Lists.listsApart {models : List String} {more : String → List String}
    {s : PassState} (h : s.Lists models more) (ha : s.memory.NamesApart)
    (hm : ∀ m ∈ models, s.memory.models.contains m = true) : s.ListsApart models more where
  made m ht := hm m (h.model m ht)
  known := hm
  names m _ := h.names m
  apart m _ := ha.indexesOn m
  joins m hne ht := absurd (h.model m ht) hne

namespace ManyToManyPass

variable {join : String} {a b : Member} {s t : PassState}

/-- The table of a join model lists an index by each end. -/
theorem indexes_of_linkEnds (h : (linkEnds join a b).on s = (.ok (), t)) :
    ∃ g, s.context.resources.Indexes join ("by" ++ a.type) g
      ∧ g.Indexes join ("by" ++ b.type) t.context.resources := by
  obtain ⟨v, w, hv, hw, hlinked, -⟩ := linkEnds_ok h
  have indexed : ∀ {m : Member} {s t : PassState}, (indexEnd join m).on s = (.ok (), t) →
      s.context.resources.Indexes join ("by" ++ m.type) t.context.resources := fun {m s t} hm => by
    obtain ⟨-, hres, -⟩ := IndexPass.addIndex_ok (on_of_writing hm)
    rw [hres]
    exact IndexPass.indexes_attach s.context (joinIndex join m)
  refine ⟨_, indexed hv, (indexed hw).trans_same ?_⟩
  rw [hlinked]
  refine fun key hk => Context.same_foldl (fun m _ c => ?_) w.context
  exact Context.sameTables_addResolver (c := retypeField c m.type m.field _)
    (.set (List.mem_singleton_self "relation") _) (by decide) _ _ _ _ key hk

/-- A join model leaves the tables of other models alone. -/
theorem sameTables_of_linkGroup {members : List Member}
    (h : (linkGroup join members).on s = (.ok (), t)) {model : String} (hne : model ≠ join) :
    s.context.resources.SameTables (· = tableId model) t.context.resources := by
  obtain ⟨a, b, -, hl⟩ := linkedBy_of_linkGroup h
  obtain ⟨u, hu, hends⟩ := hl.made
  rw [ModelPass.on_addSynthesized] at hu
  split at hu
  · cases (Prod.mk.inj hu).1
  · obtain ⟨g, ha, hb⟩ := indexes_of_linkEnds hends
    exact ((ModelPass.sameTables_of_materialize hu hne).trans (ha.others model hne)).trans
      (hb.others model hne)

/-- A relation is joined by a table of its own, whose indexes have different names. -/
theorem listsApart_of_linkGroup {models : List String} {more : String → List String}
    (hs : s.ListsApart models more) {members : List Member}
    (h : (linkGroup join members).on s = (.ok (), t)) : t.ListsApart models more := by
  obtain ⟨a, b, rfl, hl⟩ := linkedBy_of_linkGroup h
  have remembered := hl.remembers
  obtain ⟨datasource, hmodels⟩ := remembered.models
  have contains : ∀ m, t.memory.models.contains m = true ↔
      m = join ∨ s.memory.models.contains m = true := fun m => by
    rw [hmodels, Dict.contains_insert, Bool.or_eq_true, decide_eq_true_eq]
  have other : ∀ m ∈ models, m ≠ join := by
    rintro m hm rfl
    exact absurd (hs.known m hm) (Bool.eq_false_iff.1 remembered.fresh)
  obtain ⟨u, hu, hends⟩ := hl.made
  rw [ModelPass.on_addSynthesized] at hu
  split at hu
  · cases (Prod.mk.inj hu).1
  · obtain ⟨g, ha, hb⟩ := indexes_of_linkEnds hends
    have kept : ∀ m, m ≠ join → (t.context.resources.HasTable m ↔ s.context.resources.HasTable m)
        ∧ t.context.resources.indexNames m = s.context.resources.indexNames m := fun m hne =>
      have same := sameTables_of_linkGroup h hne
      ⟨same.hasTable_iff rfl, same.indexNames_eq rfl⟩
    have indexes : ∀ m ∈ models, t.memory.indexesOn m = s.memory.indexesOn m := fun m hm => by
      have hne : (join == m) = false := beq_eq_false_iff_ne.2 (other m hm).symm
      rw [Memory.indexesOn, remembered.indexes, List.filter_append]
      simp [joinIndex, hne, Memory.indexesOn]
    refine ⟨fun m ht => (contains m).2 ?_, fun m hm => (contains m).2 (.inr (hs.known m hm)),
      fun m hm ht => ?_, fun m hm => ?_, fun m hm ht => ?_⟩
    · by_cases hne : m = join
      · exact .inl hne
      · exact .inr (hs.made m ((kept m hne).1.1 ht))
    · rw [(kept m (other m hm)).2, indexes m hm]
      exact hs.names m hm ((kept m (other m hm)).1.1 ht)
    · rw [indexes m hm]
      exact hs.apart m hm
    · by_cases hne : m = join
      · subst hne
        have hgroup := (hb.hasTable_iff m).1 ht
        have hmade := (ha.hasTable_iff m).1 hgroup
        rcases ModelPass.indexNames_of_materialize hu with hn | same
        · have listed := (hb.own hgroup).trans ((ha.own hmade).append_right _)
          rw [hn, List.nil_append] at listed
          refine listed.nodup_iff.2 ?_
          have ends : indexLabel ("by" ++ a.type) ≠ indexLabel ("by" ++ b.type) := fun he =>
            hl.distinct ((String.append_right_inj _).1 (indexLabel_injective he))
          simpa using ends
        · have before := hs.made m ((same.hasTable_iff rfl).1 hmade)
          exact absurd before (Bool.eq_false_iff.1 remembered.fresh)
      · rw [(kept m hne).2]
        exact hs.joins m hm ((kept m hne).1.1 ht)

theorem listsApart_of_apply {models : List String} {more : String → List String}
    (hs : s.ListsApart models more) (h : apply.on s = (.ok (), t)) : t.ListsApart models more := by
  rw [apply, on_examine_bind] at h
  split at h
  · exact Action.forEach_invariant (fun p _ u v hv hu => listsApart_of_linkGroup hu hv) h hs
  · cases (Prod.mk.inj h).1

end ManyToManyPass

/-! ### Passes that leave tables alone -/

/-- Tables have the same keys and the same indexes, and what is remembered of models and of indexes
is the same. -/
structure PassState.KeepsTables (s t : PassState) : Prop where
  tables  : s.context.resources.SameTables (Chain.OfKind .table) t.context.resources
  indexes : t.memory.indexes = s.memory.indexes
  models  : t.memory.models = s.memory.models

instance : IsPreorder PassState PassState.KeepsTables where
  refl _ := ⟨.refl _ _, rfl, rfl⟩
  trans _ _ _ h h' :=
    ⟨h.tables.trans h'.tables, h'.indexes.trans h.indexes, h'.models.trans h.models⟩

namespace PassState.KeepsTables

variable {s t : PassState} {models : List String} {more : String → List String}

theorem hasTable_iff (h : s.KeepsTables t) (m : String) :
    t.context.resources.HasTable m ↔ s.context.resources.HasTable m :=
  h.tables.hasTable_iff (kindOfId?_tableId m)

theorem indexNames_eq (h : s.KeepsTables t) (m : String) :
    t.context.resources.indexNames m = s.context.resources.indexNames m :=
  h.tables.indexNames_eq (kindOfId?_tableId m)

theorem indexesOn_eq (h : s.KeepsTables t) (m : String) :
    t.memory.indexesOn m = s.memory.indexesOn m := by
  rw [Memory.indexesOn, h.indexes, Memory.indexesOn]

theorem lists (h : s.KeepsTables t) (hs : s.Lists models more) : t.Lists models more where
  model m ht := hs.model m ((h.hasTable_iff m).1 ht)
  names m ht := by
    rw [h.indexNames_eq, h.indexesOn_eq]
    exact hs.names m ((h.hasTable_iff m).1 ht)

theorem listsApart (h : s.KeepsTables t) (hs : s.ListsApart models more) :
    t.ListsApart models more where
  made m ht := h.models ▸ hs.made m ((h.hasTable_iff m).1 ht)
  known m hm := h.models ▸ hs.known m hm
  names m hm ht := by
    rw [h.indexNames_eq, h.indexesOn_eq]
    exact hs.names m hm ((h.hasTable_iff m).1 ht)
  apart m hm := h.indexesOn_eq m ▸ hs.apart m hm
  joins m hm ht := h.indexNames_eq m ▸ hs.joins m hm ((h.hasTable_iff m).1 ht)

end PassState.KeepsTables

/-! ### Links -/

/-- The fields that link to many records of a model, as they are written. -/
def Document.linksTo (d : Document) (model : String) : List String :=
  ((d.fieldsWith "hasMany").filter (·.2.type.baseName == model)).map fun p => location p.1 p.2

/-- The links to a model are of different fields, and no index of the model has the name of the
index of a link. -/
structure Document.LinksApart (d : Document) (records : List IndexRecord) (model : String) :
    Prop where
  fields : (d.linksTo model).Nodup
  names  : ∀ field ∈ d.linksTo model, ∀ r ∈ records, r.model = model → r.name ≠ "gsi-" ++ field

/-- Links are those of the fields that the schema has from the first, and lead to the same models
where they are lists. -/
theorem linkedFields_settled {d : Document} {c : Context} {directive : String} {ls : List Link}
    (h : linkedFields c directive = .ok ls) (hd : d.Settles c.schema) :
    List.Forall₂ (fun (p : TypeDefinition × FieldDefinition) (l : Link) =>
      l.source = p.1.name ∧ l.field = p.2.name
        ∧ (l.isList = true → l.target = p.2.type.baseName)) (d.fieldsWith directive) ls := by
  have found : List.Forall₂ (fun (p : TypeDefinition × FieldDefinition) (l : Link) =>
      l.source = p.1.name ∧ l.field = p.2.name ∧ l.isList = p.2.type.isList
        ∧ l.target = p.2.type.baseName) (c.schema.fieldsWith directive) ls := by
    refine Except.forall₂_of_mapM h fun (t, f) _ l hof => ?_
    dsimp only [linkOf] at hof
    split at hof
    · cases hof
    · cases hof
      exact ⟨rfl, rfl, rfl, rfl⟩
  refine forall₂_comp ?_ (hd.fieldsWith directive) found
  rintro p p' l ⟨hname, hsettles⟩ ⟨hsource, hfield, hlist, htarget⟩
  -- a list has kept its type
  exact ⟨hsource.trans hname, hfield.trans hsettles.name,
    fun hl => by rw [htarget, hsettles.type (hlist ▸ hl)]⟩

/-- Where all links that are found are lists, they are those that the schema has from the first. -/
theorem HasManyPass.indexNames_of_linkedFields {d : Document} {c : Context} {ls : List Link}
    (h : linkedFields c "hasMany" = .ok ls) (hl : ∀ l ∈ ls, l.isList = true)
    (hd : d.Settles c.schema) (model : String) :
    (ls.filter (·.target == model)).map indexName = (d.linksTo model).map ("gsi-" ++ ·) := by
  have lists : List.Forall₂ (fun l l' : Link => l = l' ∧ l.isList = true) ls ls :=
    List.forall₂_same.2 fun l hm => ⟨rfl, hl l hm⟩
  have all : List.Forall₂ (fun (p : TypeDefinition × FieldDefinition) (l : Link) =>
      (p.2.type.baseName, location p.1 p.2) = (l.target, l.place)) (d.fieldsWith "hasMany") ls := by
    refine forall₂_comp ?_ (linkedFields_settled h hd) lists
    rintro p l _ ⟨hsource, hfield, htarget⟩ ⟨rfl, hl⟩
    rw [htarget hl, Link.place, hsource, hfield, location]
  have same : (d.fieldsWith "hasMany").map (fun p => (p.2.type.baseName, location p.1 p.2))
      = ls.map fun l => (l.target, l.place) := by
    rwa [← List.forall₂_eq_eq_eq, List.forall₂_map_left_iff, List.forall₂_map_right_iff]
  have named := congrArg (fun pairs : List (String × String) =>
    (pairs.filter (·.1 == model)).map fun q => "gsi-" ++ q.2) same
  simp only [List.filter_map, List.map_map] at named
  rw [Document.linksTo, List.map_map]
  exact named.symm

/-- Where the pass succeeds, the tables that list what is remembered list its links behind it. -/
theorem HasManyPass.lists_of_apply {d : Document} {models : List String} {s t : PassState}
    (hs : s.Lists models fun _ => []) (hd : d.Settles s.context.schema)
    (h : apply.on s = (.ok (), t)) :
    t.memory = s.memory ∧ t.Lists models fun m => (d.linksTo m).map ("gsi-" ++ ·) := by
  rw [apply, on_examine_bind] at h
  split at h
  · next ls hls =>
    obtain ⟨hall, hmemory, lists⟩ := lists_of_forEach hs h
    simp only [List.nil_append, indexNames_of_linkedFields hls hall hd] at lists
    exact ⟨hmemory, lists⟩
  · cases (Prod.mk.inj h).1

/-- The indexes that a table of a model lists have different names where the links to the model are
of different fields, and none has the name of an index that is remembered of the model. -/
theorem PassState.ListsApart.nodup_indexNames_iff {d : Document} {models : List String}
    {s : PassState} (h : s.ListsApart models fun m => (d.linksTo m).map ("gsi-" ++ ·))
    {model : String} (hm : model ∈ models) (ht : s.context.resources.HasTable model) :
    (s.context.resources.indexNames model).Nodup ↔ d.LinksApart s.memory.indexes model := by
  rw [(h.names model hm ht).nodup_iff, List.nodup_map_iff indexLabel_injective, List.nodup_append,
    List.nodup_map_iff fun _ _ he => (String.append_right_inj _).1 he]
  constructor
  · rintro ⟨-, hfields, hnames⟩
    exact ⟨hfields, fun field hf r hr hmodel hname => hnames r.name
      (List.mem_map_of_mem (Memory.mem_indexesOn.2 ⟨hr, hmodel⟩)) _ (List.mem_map_of_mem hf) hname⟩
  · rintro ⟨hfields, hnames⟩
    refine ⟨h.apart model hm, hfields, ?_⟩
    rintro name hname _ hlink rfl
    obtain ⟨r, hr, rfl⟩ := List.mem_map.1 hname
    obtain ⟨field, hf, he⟩ := List.mem_map.1 hlink
    obtain ⟨hr, hmodel⟩ := Memory.mem_indexesOn.1 hr
    exact hnames field hf r hr hmodel he.symm

/-! ### Runs -/

/-- The table of a model has a key. -/
theorem Context.Keyed.hasTable {spared : Document → String → Prop} {c : Context}
    (h : c.Keyed spared) (hc : c.IsSound) {model : String}
    (hm : c.resources.contains (tableId model) = true) : c.resources.HasTable model := by
  obtain ⟨r, hr⟩ := ResourceGraph.contains_iff_get?.1 hm
  obtain ⟨_, -, ht⟩ := h _ r hr ((hc.all _ r hr).kind _ (kindOfId?_tableId model))
  obtain ⟨field, hfield, -⟩ := ht.hashKey
  rw [ResourceGraph.HasTable, ResourceGraph.property?_of_get? hr, hfield]
  rfl

theorem PrimaryKeyPass.contains_of_apply {s t : PassState} (h : apply.on s = (.ok (), t))
    {id : String} (ht : t.context.resources.contains id = true) :
    s.context.resources.contains id = true := by
  rw [apply, on_examine_bind] at h
  split at h
  · cases h
    refine List.foldlRecOn (motive := fun d : Context => d.resources.contains id = true →
      s.context.resources.contains id = true) _ setKey (fun hs => hs) (fun d hd k _ hk => hd ?_) ht
    obtain ⟨r, hr⟩ := ResourceGraph.contains_iff_get?.1 hk
    rw [get?_setKey] at hr
    split at hr
    · obtain ⟨q, hq, -⟩ := Option.map_eq_some_iff.1 hr
      exact ResourceGraph.contains_iff_get?.2 ⟨q, hq⟩
    · exact ResourceGraph.contains_iff_get?.2 ⟨r, hr⟩
  · cases (Prod.mk.inj h).1

namespace Chain

open Context

variable {args : FactoryArgs} {c : Context} {s t u v w x y z : PassState}

/-- The passes that neither make tables nor change the keys and the indexes of any. -/
def sparingTables : List String :=
  ["function", "http", "predictions", "hasOne", "belongsTo", "default", "auth", "mapsTo",
    "searchable"]

/-- The passes of these names leave tables alone. -/
theorem keepsTables_of_forEach {es : Chain}
    (hes : ∀ e ∈ es, e ∈ builtin args ∧ e.pass.name ∈ sparingTables)
    (h : (Action.forEach Entry.apply es).on s = (.ok (), t)) : s.KeepsTables t := by
  have names : ∀ name ∈ sparingTables,
      (∀ key ∈ "hashKey" :: indexLists, key ∉ resolverProperties ∧ key ∉ changed name)
      ∧ ResourceKind.table ∉ supplied name ∧ Part.indexes ∉ touched name
      ∧ Part.models ∉ touched name := by decide
  refine Follows.of_ok (R := PassState.KeepsTables)
    (follows_forEach fun e he => follows_bind (follows_ofExcept _) fun _ s => ?_) h
  obtain ⟨hmem, hname⟩ := hes e he
  obtain ⟨hkeys, hkind, hindexes, hmodels⟩ := names _ hname
  exact ⟨fun key hk => builtin_leaves hmem (hkeys key hk).1 (hkeys key hk).2 hkind s,
    builtin_spares hmem hindexes s, builtin_spares hmem hmodels s⟩

/-- The passes of keys, of indexes and of links to many records, which a run goes on with behind
bound fields. -/
structure Indexing (w x y z : PassState) : Prop where
  key     : PrimaryKeyPass.apply.on w = (.ok (), x)
  index   : IndexPass.apply.on x = (.ok (), y)
  hasMany : HasManyPass.apply.on y = (.ok (), z)

theorem Completes.cutIndexes (h : Completes args c s) : ∃ t u v w x y z, Binds args c t u v w
    ∧ Indexing w x y z
    ∧ (Action.forEach Entry.apply ((builtin args).drop 7)).on z = (.ok (), s) := by
  obtain ⟨t, u, v, w, hb, hrest⟩ := h.cutBound
  have hsplit : (builtin args).drop 4 = { pass := .primaryKey }
      :: { pass := .index, role := some .index } :: { pass := .hasMany }
      :: (builtin args).drop 7 := rfl
  rw [hsplit, Action.forEach_cons_ok, on_apply_free] at hrest
  obtain ⟨x, hx, hrest⟩ := hrest
  rw [Action.forEach_cons_ok, on_apply_free] at hrest
  obtain ⟨y, hy, hrest⟩ := hrest
  rw [Action.forEach_cons_ok, on_apply_free] at hrest
  obtain ⟨z, hz, hrest⟩ := hrest
  exact ⟨t, u, v, w, x, y, z, hb, ⟨hx, hy, hz⟩, hrest⟩

namespace Binds

variable (h : Binds args c t u v w)
include h

theorem keepsTables : t.KeepsTables w := by
  have run : (Action.forEach Entry.apply (((builtin args).drop 1).take 3)).on t = (.ok (), w) :=
    Action.forEach_cons_ok.2 ⟨u, h.function, Action.forEach_cons_ok.2 ⟨v, h.http,
      Action.forEach_cons_ok.2 ⟨w, h.predictions, rfl⟩⟩⟩
  have sparing : ∀ name ∈ (builtinNames.drop 1).take 3, name ∈ sparingTables := by decide
  exact keepsTables_of_forEach (fun e he =>
    ⟨(mem_slice he).1, sparing _ (mem_slice he).2⟩) run

/-- Tables that are there before the pass of keys have one. -/
theorem hasTable (hc : c.resources = {}) {model : String}
    (hm : w.context.resources.contains (tableId model) = true) :
    w.context.resources.HasTable model := by
  have edits : Edits AnyName (ModelPass.Ready Document.DeclaresKey) c w.context :=
    (((ModelPass.apply_edits _).of_ok h.model).trans
      ((FunctionPass.apply_edits _ _).of_ok h.function)).trans
      (((HttpPass.apply_edits _).of_ok h.http).trans
        ((PredictionsPass.apply_edits _ _).of_ok h.predictions))
  have keyed : w.context.Keyed Document.DeclaresKey :=
    Edits.keyed (fun _ _ _ hd hk => Document.HasField.mono hk hd) edits (keyed_of_empty hc)
  exact keyed.hasTable (edits.isSound (isSound_of_empty hc)) hm

/-- The passes before that of indexes make tables of the models of the schema, which list no
indexes, and remember none. -/
theorem lists (hc : c.resources = {}) (hx : PrimaryKeyPass.apply.on w = (.ok (), x)) :
    x.memory.indexes = [] ∧ x.Lists (c.schema.namesWith "model") (fun _ => [])
      ∧ ∀ m ∈ c.schema.namesWith "model", x.memory.models.contains m = true := by
  have indexes : x.memory.indexes = [] := by
    have first : Part.indexes.Same _ t := (ModelPass.apply_spares (by decide)).of_ok h.model
    have keys : Part.indexes.Same w x := PrimaryKeyPass.apply_spares.of_ok hx
    exact Eq.trans keys (h.keepsTables.indexes.trans first)
  have keys : Part.models.Same w x := PrimaryKeyPass.apply_spares.of_ok hx
  have models : x.memory.models = t.memory.models := Eq.trans keys h.keepsTables.models
  have unlisted : ∀ m, x.context.resources.indexNames m = [] := fun m => by
    rw [← (ModelPass.tables_of_apply hc h.model m).2, ← h.keepsTables.indexNames_eq m]
    refine indexNamesOf_congr fun list hl => ?_
    exact (PrimaryKeyPass.apply_leaves (p := OfKind .table)
      ((by decide : ∀ list ∈ indexLists, list ∉ ["hashKey", "sortKeys"]) list hl)).of_ok hx _
      (kindOfId?_tableId m)
  refine ⟨indexes, ⟨fun m hm => ?_, fun m _ => ?_⟩,
    fun m hm => models ▸ ModelPass.contains_of_apply hc h.model hm⟩
  · -- a table that has got a key was there, and had one
    have before := h.hasTable hc (PrimaryKeyPass.contains_of_apply hx hm.contains)
    exact (ModelPass.tables_of_apply hc h.model m).1 ((h.keepsTables.hasTable_iff m).1 before)
  · rw [unlisted, Memory.indexesOn, indexes]
    exact .nil

end Binds

theorem Indexing.edits (h : Indexing w x y z) : Edits AnyName AnyTime w.context y.context :=
  ((PrimaryKeyPass.apply_edits _).of_ok h.key).trans ((IndexPass.apply_edits _).of_ok h.index)

/-- The passes of indexes and of links list them with the tables of the models of the schema. -/
theorem Indexing.lists (h : Indexing w x y z) (hc : c.resources = {}) (hb : Binds args c t u v w) :
    z.memory.NamesApart ∧ (∀ m ∈ c.schema.namesWith "model", z.memory.models.contains m = true)
      ∧ z.Lists (c.schema.namesWith "model")
        fun m => (c.schema.linksTo m).map ("gsi-" ++ ·) := by
  obtain ⟨hindexes, lists, known⟩ := hb.lists hc h.key
  have apart : x.memory.NamesApart := by
    rw [Memory.NamesApart, hindexes]
    exact List.nodup_nil
  obtain ⟨indexed, apart⟩ := IndexPass.lists_of_apply lists apart h.index
  have edits : Edits AnyName AnyTime c y.context := hb.edits.trans h.edits
  obtain ⟨hmemory, linked⟩ := HasManyPass.lists_of_apply indexed edits.settles h.hasMany
  have models : Part.models.Same x y := (IndexPass.apply_spares (by decide)).of_ok h.index
  refine ⟨hmemory ▸ apart, fun m hm => ?_, linked⟩
  rw [hmemory, show y.memory.models = x.memory.models from models]
  exact known m hm

/-- Behind links to many records, only the pass of join models makes tables and remembers
indexes. -/
theorem exists_joined (hrun : (Action.forEach Entry.apply ((builtin args).drop 7)).on z
    = (.ok (), s)) :
    ∃ j k, z.KeepsTables j ∧ ManyToManyPass.apply.on j = (.ok (), k) ∧ k.KeepsTables s := by
  have hsplit : (builtin args).drop 7 = ((builtin args).drop 7).take 1
      ++ { pass := .manyToMany, role := some .manyToMany } :: (builtin args).drop 9 := rfl
  rw [hsplit, Action.forEach_append_ok] at hrun
  obtain ⟨j, hj, hrun⟩ := hrun
  rw [Action.forEach_cons_ok, on_apply_free] at hrun
  obtain ⟨k, hk, hrun⟩ := hrun
  have sparing : ∀ name ∈ (builtinNames.drop 7).take 1 ++ builtinNames.drop 9,
      name ∈ sparingTables := by decide
  have hasOne : z.KeepsTables j := keepsTables_of_forEach (fun e he =>
    ⟨(mem_slice he).1, sparing _ (List.mem_append_left _ (mem_slice he).2)⟩) hj
  have rest : k.KeepsTables s := keepsTables_of_forEach (fun e he =>
    ⟨(List.mem_of_mem_drop he : e ∈ builtin args),
      sparing _ (List.mem_append_right _ (name_mem_drop he))⟩) hrun
  exact ⟨j, k, hasOne, hk, rest⟩

/-- What tables list where a run ends well: those of the models of the schema the indexes that are
remembered and those of links, and others indexes of different names. -/
theorem Completes.listsApart (hc : c.resources = {}) (h : Completes args c s) :
    s.ListsApart (c.schema.namesWith "model") fun m => (c.schema.linksTo m).map ("gsi-" ++ ·) := by
  obtain ⟨t, u, v, w, x, y, z, hb, hi, hrun⟩ := h.cutIndexes
  obtain ⟨apart, known, lists⟩ := hi.lists hc hb
  obtain ⟨j, k, hasOne, hk, rest⟩ := exists_joined hrun
  have linked := hasOne.listsApart (lists.listsApart apart known)
  exact rest.listsApart (ManyToManyPass.listsApart_of_apply linked hk)

/-- **Names of indexes are unique per table** exactly where no index has the name of a link's:
wherever a fresh run of the passes that every chain starts with ends well, the entries that each
table lists have different names, global and local ones together, if and only if, for each model of
the schema that has a table, the links to it are of different fields, and no index of it that is
remembered has the name that is made of such a field. -/
theorem indexNames_nodup_iff_of_completes (hc : c.resources = {}) (h : Completes args c s) :
    (∀ r ∈ s.context.resources.ofKind .table, r.indexNames.Nodup) ↔
      ∀ model ∈ c.schema.namesWith "model", s.context.resources.contains (tableId model) = true →
        c.schema.LinksApart s.memory.indexes model := by
  have lists := h.listsApart hc
  have keyed := h.keyed hc
  have sound := h.edits.isSound (isSound_of_empty hc)
  constructor
  · intro hall model hm ht
    rw [← lists.nodup_indexNames_iff hm (keyed.hasTable sound ht)]
    obtain ⟨r, hr⟩ := ResourceGraph.contains_iff_get?.1 ht
    rw [ResourceGraph.indexNames_of_get? hr]
    exact hall r (sound.all.mem_ofKind_of_get? hr (kindOfId?_tableId model)).1
  · intro hall r hr
    obtain ⟨hr, hkind⟩ := sound.all.mem_ofKind_iff.1 hr
    obtain ⟨model, hid, -⟩ := keyed r.id r hr hkind
    rw [hid] at hr
    have ht := ResourceGraph.contains_iff_get?.2 ⟨r, hr⟩
    rw [← ResourceGraph.indexNames_of_get? hr]
    by_cases hm : model ∈ c.schema.namesWith "model"
    · exact (lists.nodup_indexNames_iff hm (keyed.hasTable sound ht)).2 (hall model hm ht)
    · exact lists.joins model hm (keyed.hasTable sound ht)

/-- Names of indexes are unique where a table lists that of a link and that of a field, and others
those of a join. -/
theorem indexNames_nodup_iff_taggedPosts : taggedPosts.resources = {}
    ∧ Completes {} taggedPosts (lastState {} taggedPosts)
    ∧ ((∀ r ∈ (lastState {} taggedPosts).context.resources.ofKind .table, r.indexNames.Nodup) ↔
      ∀ model ∈ taggedPosts.schema.namesWith "model",
        (lastState {} taggedPosts).context.resources.contains (tableId model) = true →
          taggedPosts.schema.LinksApart (lastState {} taggedPosts).memory.indexes model) :=
  ⟨rfl, completes_taggedPosts, indexNames_nodup_iff_of_completes rfl completes_taggedPosts⟩

/-- A schema with an index that has the name of a link's. -/
def namedAsLink : Context where
  schema := ⟨[{
    kind := .object, name := "Post", directives := [⟨"model", []⟩],
    fields := [{ name := "comments", type := .list (.named "Comment"),
                 directives := [⟨"hasMany", []⟩] }] }, {
    kind := .object, name := "Comment", directives := [⟨"model", []⟩],
    fields := [{ name := "text", type := .named "String",
                 directives := [⟨"index", [("name", .string "gsi-Post.comments")]⟩] }] }]⟩

/-- The table of comments lists two indexes of a name. -/
theorem not_nodup_namedAsLink : namedAsLink.resources = {}
    ∧ Completes {} namedAsLink (lastState {} namedAsLink)
    ∧ ¬ ∀ r ∈ (lastState {} namedAsLink).context.resources.ofKind .table, r.indexNames.Nodup := by
  have run := completes_of_endsWell (p := fun s => !(s.context.resources.ofKind .table).all
    fun r => decide r.indexNames.Nodup) (by decide +kernel : endsWell {} namedAsLink _ = true)
  refine ⟨rfl, run.1, fun h => ?_⟩
  have unique := List.all_eq_true.2 fun r hr => decide_eq_true (h r hr)
  simpa [unique] using run.2

end Chain

end ApiCompiler
