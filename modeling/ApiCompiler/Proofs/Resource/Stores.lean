import ApiCompiler.Proofs.Access.Reach
import ApiCompiler.Proofs.Chain.Closure
import ApiCompiler.Proofs.Resource.Links
import Mathlib.Data.List.Induction

/-!
# Resources — physical stores

The table of a model is named after the model, or by the last type of its name that asks for another
table; a search is that of the last model whose query it is. No pass compares these names with each
other.

* `Document.tableName`: the name that the table of a model gets.
* `Context.Edits.named`: before tables are renamed, each has the name of its model.
* `MapsToPass.get?_foldl_rename`, `SearchPass.index_foldl_attach`: the last name counts.
* `Chain.storesApart_iff_of_completes`: where models have stores of their own.
-/

namespace ApiCompiler

open PassAction

/-- The name of the table of a model: the last one that a type of its name asks for, and else that
of the model. -/
def Document.tableName (d : Document) (model : String) : String :=
  (Dict.lastIn? model d.tableNames).getD model

/-! ### Tables before they are renamed -/

theorem ModelPass.tableName_table (c : Context) (model : String) :
    (table c model).get? "tableName" = some (.str model) := by
  unfold table
  split <;> simp [Resource.get?_set]

theorem MapsToPass.tableName_rename (r : Resource) (table : String) :
    ((r.set "tableName" (.str table)).setName table).get? "tableName" = some (.str table) := by
  rw [Resource.setName, Resource.get?_set, if_neg (by decide), Resource.get?_set, if_pos rfl]

namespace Context

variable {known : String → Prop} {ready : Document → String → Prop} {c d : Context}

/-- A table is named after its model, or as one of some pairs asks. -/
def NamedBy (names : List (String × String)) (id : String) (r : Resource) : Prop :=
  ∃ model table, id = tableId model ∧ r.get? "tableName" = some (.str table)
    ∧ (table = model ∨ (model, table) ∈ names)

theorem NamedBy.decorate {names : List (String × String)} {id : String} {r : Resource}
    (h : NamedBy names id r) {keys : List String} {f : Resource → Resource}
    (hf : Decorates keys f) (hk : "tableName" ∉ keys) : NamedBy names id (f r) := by
  obtain ⟨model, table, hid, hname, hasked⟩ := h
  exact ⟨model, table, hid, (hf.get? r _ hk).trans hname, hasked⟩

/-- Every table is named after its model, or as a type of the schema asks. -/
def Named (c : Context) : Prop := c.resources.AllOf .table (NamedBy c.schema.tableNames)

theorem named_of_empty (h : c.resources = {}) : c.Named := by
  rw [Named, h]
  exact .empty

/-- **Every change keeps tables named after their models**, or renames them as the schema asks. -/
theorem Edit.named (h : Edit known ready c d) (hc : c.Named) : d.Named := by
  have kept : c.resources.AllOf .table (NamedBy d.schema.tableNames) := by
    rw [(Edits.of h).tableNames]
    exact hc
  have decorated : ∀ {id keys f}, Decorates keys f → "tableName" ∉ keys →
      (c.resources.modify id f).AllOf .table (NamedBy d.schema.tableNames) := fun hf hk =>
    kept.modify _ hf.kind fun _ hr => hr.decorate hf hk
  cases h with
  | log | object | field | mark | retype => exact kept
  | @store model _ _ h =>
    rcases ModelPass.addStore_eq h with rfl | ⟨dbType, secrets, rfl⟩
    · have tabled := kept.add (r := ModelPass.table c model) fun _ =>
        ⟨model, model, ModelPass.id_table c model, ModelPass.tableName_table c model, .inl rfl⟩
      exact tabled.add nofun
    · refine kept.add fun hk => ?_
      rw [ModelPass.kind_relationalDatasource] at hk
      cases hk
  | supply h => exact kept.add fun hk => absurd hk (ResourceGraph.kindOfId?_of_supplies h).2.2
  | resolver =>
    refine kept.add fun hk => ?_
    rw [ResourceGraph.kind_newResolver] at hk
    cases hk
  | decorate id hf => exact decorated hf (by decide)
  | @rename model table h =>
    exact kept.modify _ (Decorates.rename table).kind fun r _ =>
      ⟨model, table, rfl, MapsToPass.tableName_rename r table, .inr h⟩
  | key => exact decorated (.setKey _ _) (by decide)
  | index _ hl => exact decorated (.pushIndex hl _) (by decide)

theorem Edits.named (h : Edits known ready c d) (hc : c.Named) : d.Named := by
  induction h with
  | refl => exact hc
  | tail _ h ih => exact h.named ih

end Context

/-! ### Renamed tables -/

namespace MapsToPass

/-- A table has the last name that it is given, and else the one that it had. -/
theorem get?_foldl_rename (ms : List Mapping) (c : Context) {model : String} {r : Resource}
    (h : (ms.foldl rename c).resources.get? (tableId model) = some r) :
    ∃ q, c.resources.get? (tableId model) = some q ∧ r.kind = q.kind
      ∧ r.get? "tableName" = ((Dict.lastIn? model (ms.map (·.pair))).map Json.str).or
        (q.get? "tableName") := by
  induction ms using List.reverseRecOn generalizing r with
  | nil => exact ⟨r, h, rfl, rfl⟩
  | append_singleton ms m ih =>
    rw [List.foldl_append, List.foldl_cons, List.foldl_nil, rename, Context.resources_log,
      Context.resources_modifyResource, Context.resources_modifyResource,
      ResourceGraph.get?_modify, if_neg, ResourceGraph.get?_modify] at h
    · rw [List.map_append, List.map_cons, List.map_nil, Dict.lastIn?_append, Dict.lastIn?_singleton]
      split at h
      · next he =>
        obtain ⟨q, hq, rfl⟩ := Option.map_eq_some_iff.1 h
        have same : m.pair.1 = model := (tableId_inj he).symm
        obtain ⟨p, hp, hk, -⟩ := ih (he ▸ hq)
        refine ⟨p, hp, hk, ?_⟩
        rw [tableName_rename, if_pos same]
        rfl
      · next hne =>
        have other : ¬ m.pair.1 = model := fun he => hne (congrArg tableId he.symm)
        obtain ⟨p, hp, hk, hname⟩ := ih h
        exact ⟨p, hp, hk, by rw [hname, if_neg other, Option.none_or]⟩
    · -- a table is no datasource
      intro he
      have hkind := congrArg kindOfId? he
      rw [kindOfId?_tableId, kindOfId?_datasourceId] at hkind
      cases hkind

/-- **Tables are renamed as the schema asks**, where they have been named after their models. -/
theorem tableName_of_apply {s t : PassState} (hs : s.context.Named)
    (h : apply.on s = (.ok (), t)) {id : String} {r : Resource}
    (hr : t.context.resources.get? id = some r) (hk : r.kind = .table) :
    ∃ model, id = tableId model
      ∧ r.get? "tableName" = some (.str (s.context.schema.tableName model)) := by
  rw [apply, on_examine_bind] at h
  split at h
  · next ms hms =>
    cases h
    have renamed : Context.Edits Context.AnyName Context.AnyTime _ (ms.foldl rename s.context) :=
      foldl_rename_edits hms
    have hnamed := renamed.named hs
    obtain ⟨model, -, rfl, -⟩ := hnamed id r hr hk
    obtain ⟨q, hq, hkind, hname⟩ := get?_foldl_rename ms s.context hr
    refine ⟨model, rfl, ?_⟩
    obtain ⟨_, table, hid, hown, hasked⟩ := hs _ q hq (hkind.symm.trans hk)
    obtain rfl := tableId_inj hid
    rw [hname, map_pair_mappings hms, Document.tableName]
    cases hlast : Dict.lastIn? model s.context.schema.tableNames with
    | some table => rfl
    | none =>
      -- a model for which no name is asked has its own
      have none := Dict.lastIn?_eq_none_iff.1 hlast
      have own : table = model := hasked.resolve_right fun hm =>
        none (List.mem_map_of_mem hm)
      exact hown.trans (by rw [own]; rfl)
  · cases (Prod.mk.inj h).1

end MapsToPass

/-! ### Tables and searches -/

namespace SearchPass

/-- A graph has a table under an id, by the name that a resource has. -/
def TableIn (g : ResourceGraph) (id : String) (r : Resource) : Prop :=
  ∃ q, g.get? id = some q ∧ q.kind = .table ∧ r.get? "tableName" = q.get? "tableName"

theorem TableIn.decorate {g : ResourceGraph} {id : String} {r : Resource} (h : TableIn g id r)
    {keys : List String} {f : Resource → Resource} (hf : Decorates keys f)
    (hk : "tableName" ∉ keys) : TableIn g id (f r) := by
  obtain ⟨q, hq, hkind, hname⟩ := h
  exact ⟨q, hq, hkind, (hf.get? r _ hk).trans hname⟩

theorem tables_attach {g : ResourceGraph} {c : Context}
    (h : c.resources.AllOf .table (TableIn g)) (m : String) :
    (attach c m).resources.AllOf .table (TableIn g) := by
  have streams : Decorates ["streamViewType"]
      (·.set "streamViewType" (.str "NEW_AND_OLD_IMAGES")) := .set (by decide) _
  have indexes : Decorates ["index"] (·.set "index" (.str (Text.lowercase m))) :=
    .set (by decide) _
  have streamed := h.modify (tableId m) streams.kind fun _ hr => hr.decorate streams (by decide)
  refine ResourceGraph.AllOf.modify (streamed.ensure fun hk => ?_) (queryId m) indexes.kind
    fun _ hr => hr.decorate indexes (by decide)
  rw [ResourceGraph.kind_newResolver] at hk
  cases hk

theorem tables_provision (c : Context) (ms : List String) :
    (provision c ms).resources.AllOf .table (TableIn c.resources) := by
  have start : c.resources.AllOf .table (TableIn c.resources) :=
    fun _ r hr hk => ⟨r, hr, hk, rfl⟩
  refine ((start.add (r := domain _) nofun).add (r := datasource) nofun).add fun hk => ?_
  rw [streaming, (ResourceGraph.streaming_decorates ms).kind] at hk
  cases hk

theorem queryId_inj {m n : String} (h : queryId m = queryId n) : queryName m = queryName n :=
  fieldName_inj h

/-- A search that is of one model only is by the index of that model. -/
theorem index_foldl_attach {ms : List String} {m : String} (hm : m ∈ ms)
    (hown : ∀ n ∈ ms, queryName n = queryName m → n = m) (c : Context) :
    ∃ r, (ms.foldl attach c).resources.get? (queryId m) = some r
      ∧ r.get? "index" = some (.str (Text.lowercase m)) := by
  obtain ⟨before, behind, rfl⟩ := List.append_of_mem hm
  rw [List.foldl_append, List.foldl_cons]
  -- attached once, the index stays, since later models have queries of their own
  have attached : ∀ d, ∃ r, (attach d m).resources.get? (queryId m) = some r
      ∧ r.get? "index" = some (.str (Text.lowercase m)) := fun d => by
    rw [resources_attach, Context.get?_addResolver, queryId, if_pos rfl]
    exact ⟨_, rfl, by rw [Resource.get?_set, if_pos rfl]⟩
  refine List.foldlRecOn (motive := fun d : Context => ∃ r,
    d.resources.get? (queryId m) = some r ∧ r.get? "index" = some (.str (Text.lowercase m)))
    behind attach (attached _) fun d hd n hn => ?_
  by_cases hsame : queryName n = queryName m
  · rw [hown n (List.mem_append_right _ (List.mem_cons_of_mem m hn)) hsame]
    exact attached d
  · obtain ⟨r, hr, hindex⟩ := hd
    have other : queryId m ≠ resolverId "Query" (queryName n) := fun he =>
      hsame (queryId_inj (m := m) he).symm
    rw [resources_attach, Context.get?_addResolver, if_neg other,
      Context.resources_modifyResource, ResourceGraph.get?_modify]
    split
    · next he =>
      rw [← he, hr]
      exact ⟨_, rfl, by rw [Resource.get?_set, if_neg (by decide), hindex]⟩
    · exact ⟨r, hr, hindex⟩

/-- What the search pass leaves of tables and makes of queries. -/
theorem stores_of_apply {s t : PassState} (h : apply.on s = (.ok (), t)) :
    t.context.resources.AllOf .table (TableIn s.context.resources)
      ∧ ∀ m ∈ s.context.schema.namesWith "searchable",
        (∀ n ∈ s.context.schema.namesWith "searchable", queryName n = queryName m → n = m) →
          ∃ r, t.context.resources.get? (queryId m) = some r
            ∧ r.get? "index" = some (.str (Text.lowercase m)) := by
  rw [apply, on_examine_bind] at h
  split at h
  · next ms hms =>
    rw [← models_eq hms]
    split at h
    · next hempty =>
      cases List.isEmpty_iff.1 hempty
      cases h
      exact ⟨fun _ r hr hk => ⟨r, hr, hk, rfl⟩, fun _ hm => absurd hm List.not_mem_nil⟩
    · cases h
      refine ⟨?_, fun m hm hown => index_foldl_attach hm hown _⟩
      exact List.foldlRecOn
        (motive := fun d : Context => d.resources.AllOf .table (TableIn s.context.resources)) ms
        attach (tables_provision _ ms) fun _ hd m _ => tables_attach hd m
  · cases (Prod.mk.inj h).1

end SearchPass

/-! ### Runs -/

/-- Different tables have different names, and different models that can be searched have different
queries, which search by different indexes. -/
structure ResourceGraph.StoresApart (searched : List String) (g : ResourceGraph) : Prop where
  tables   : ∀ r ∈ g.ofKind .table, ∀ q ∈ g.ofKind .table, r.id ≠ q.id →
    r.get? "tableName" ≠ q.get? "tableName"
  searches : ∀ m ∈ searched, ∀ n ∈ searched, m ≠ n →
    ∃ r ∈ g.ofKind .resolver, ∃ q ∈ g.ofKind .resolver,
      r.id = SearchPass.queryId m ∧ q.id = SearchPass.queryId n ∧ r.id ≠ q.id
        ∧ r.get? "index" ≠ q.get? "index"

instance (searched : List String) (g : ResourceGraph) : Decidable (g.StoresApart searched) :=
  decidable_of_iff
    ((∀ r ∈ g.ofKind .table, ∀ q ∈ g.ofKind .table, r.id ≠ q.id →
        r.get? "tableName" ≠ q.get? "tableName")
      ∧ ∀ m ∈ searched, ∀ n ∈ searched, m ≠ n →
        ∃ r ∈ g.ofKind .resolver, ∃ q ∈ g.ofKind .resolver,
          r.id = SearchPass.queryId m ∧ q.id = SearchPass.queryId n ∧ r.id ≠ q.id
            ∧ r.get? "index" ≠ q.get? "index")
    ⟨fun h => ⟨h.1, h.2⟩, fun h => ⟨h.tables, h.searches⟩⟩

/-- Different models that have tables have different names for them, and different models that can
be searched have different plurals, and different names also in small letters. -/
structure Context.NamesApart (schema : Document) (c : Context) : Prop where
  tables   : ∀ m n, m ≠ n → c.resources.contains (tableId m) = true →
    c.resources.contains (tableId n) = true → schema.tableName m ≠ schema.tableName n
  searches : ∀ m ∈ schema.namesWith "searchable", ∀ n ∈ schema.namesWith "searchable", m ≠ n →
    SearchPass.queryName m ≠ SearchPass.queryName n ∧ Text.lowercase m ≠ Text.lowercase n

namespace Chain

variable {args : FactoryArgs} {c : Context} {s : PassState}

/-- The last two passes of a run that ends well: tables are renamed, and models made searchable. -/
theorem Completes.cutNames (h : Completes args c s) :
    ∃ t u, Context.Edits Context.AnyName (ModelPass.Ready Document.DeclaresKey) c t.context
      ∧ MapsToPass.apply.on t = (.ok (), u) ∧ SearchPass.apply.on u = (.ok (), s) := by
  have hsplit : builtin args = (builtin args).take 12
      ++ [{ pass := .mapsTo }, { pass := .searchable }] := rfl
  rw [Completes, hsplit, Action.forEach_append_ok] at h
  obtain ⟨t, ht, h⟩ := h
  rw [Action.forEach_cons_ok, on_apply_free] at h
  obtain ⟨u, hu, h⟩ := h
  rw [Action.forEach_cons_ok, on_apply_free] at h
  obtain ⟨v, hv, h⟩ := h
  cases h
  have before := (entries_edits (fun _ he _ => builtin_edits (List.mem_of_mem_take he)
    fun _ _ => trivial) _).of_ok ht
  exact ⟨t, u, before, hu, hv⟩

/-- The tables are those of models, named as the schema asks. -/
theorem Completes.tableName (hc : c.resources = {}) (h : Completes args c s) {r : Resource}
    (hr : r ∈ s.context.resources.ofKind .table) :
    ∃ m, r.id = tableId m ∧ s.context.resources.contains (tableId m) = true
      ∧ r.get? "tableName" = some (.str (c.schema.tableName m)) := by
  obtain ⟨hget, hk⟩ := (h.isSound hc).all.mem_ofKind_iff.1 hr
  obtain ⟨t, u, before, hmaps, hsearch⟩ := h.cutNames
  obtain ⟨q, hq, hqk, hname⟩ := (SearchPass.stores_of_apply hsearch).1 r.id r hget hk
  obtain ⟨m, hid, htable⟩ :=
    MapsToPass.tableName_of_apply (before.named (Context.named_of_empty hc)) hmaps hq hqk
  refine ⟨m, hid, ResourceGraph.contains_iff_get?.2 ⟨r, hid ▸ hget⟩, hname.trans (htable.trans ?_)⟩
  rw [Document.tableName, before.tableNames, Document.tableName]

theorem Completes.exists_table (hc : c.resources = {}) (h : Completes args c s) {m : String}
    (hm : s.context.resources.contains (tableId m) = true) :
    ∃ r ∈ s.context.resources.ofKind .table, r.id = tableId m
      ∧ r.get? "tableName" = some (.str (c.schema.tableName m)) := by
  have sound := (h.isSound hc).all
  obtain ⟨r, hr, hk, hid⟩ := sound.exists_of_contains (kindOfId?_tableId m) hm
  have hmem := sound.mem_ofKind_iff.2 ⟨sound.mem_iff.1 hr, hk⟩
  obtain ⟨n, hid', -, hname⟩ := h.tableName hc hmem
  obtain rfl := tableId_inj (hid.symm.trans hid')
  exact ⟨r, hmem, hid, hname⟩

/-- Tables are apart where the names are that the schema asks for. -/
theorem Completes.tablesApart_iff (hc : c.resources = {}) (h : Completes args c s) :
    (∀ r ∈ s.context.resources.ofKind .table, ∀ q ∈ s.context.resources.ofKind .table,
        r.id ≠ q.id → r.get? "tableName" ≠ q.get? "tableName")
      ↔ ∀ m n, m ≠ n → s.context.resources.contains (tableId m) = true →
        s.context.resources.contains (tableId n) = true →
          c.schema.tableName m ≠ c.schema.tableName n := by
  constructor
  · intro hapart m n hne hm hn he
    obtain ⟨r, hr, hrid, hrname⟩ := h.exists_table hc hm
    obtain ⟨q, hq, hqid, hqname⟩ := h.exists_table hc hn
    refine hapart r hr q hq (fun hids => hne ?_) (by rw [hrname, hqname, he])
    exact tableId_inj (hrid.symm.trans (hids.trans hqid))
  · intro hapart r hr q hq hne he
    obtain ⟨m, hrid, hm, hrname⟩ := h.tableName hc hr
    obtain ⟨n, hqid, hn, hqname⟩ := h.tableName hc hq
    rw [hrname, hqname] at he
    refine hapart m n (fun hmn => hne ?_) hm hn (Json.str.inj (Option.some.inj he))
    rw [hrid, hqid, hmn]

/-- A search that is of one model only is by the index of that model. -/
theorem Completes.index (hc : c.resources = {}) (h : Completes args c s) {m : String}
    (hm : m ∈ c.schema.namesWith "searchable")
    (hown : ∀ n ∈ c.schema.namesWith "searchable", m ≠ n →
      SearchPass.queryName m ≠ SearchPass.queryName n) :
    ∃ r ∈ s.context.resources.ofKind .resolver, r.id = SearchPass.queryId m
      ∧ r.get? "index" = some (.str (Text.lowercase m)) := by
  obtain ⟨t, u, before, hmaps, hsearch⟩ := h.cutNames
  have same : u.context.schema.namesWith "searchable" = c.schema.namesWith "searchable" := by
    rw [(MapsToPass.guards_apply hmaps).1, before.namesWith (by decide)]
  obtain ⟨r, hget, hindex⟩ := (SearchPass.stores_of_apply hsearch).2 m (same ▸ hm)
    fun n hn he => by_contra fun hne => hown n (same ▸ hn) (Ne.symm hne) he.symm
  have sound := (h.isSound hc).all
  have hid := (sound _ r hget).id_eq
  exact ⟨r, sound.mem_ofKind_iff.2 ⟨hid.symm ▸ hget, SearchPass.kind_of_queryId sound hget⟩, hid,
    hindex⟩

/-- Searches are apart where the names of their models are, in the plural and in small letters. -/
theorem Completes.searchesApart_iff (hc : c.resources = {}) (h : Completes args c s) :
    (∀ m ∈ c.schema.namesWith "searchable", ∀ n ∈ c.schema.namesWith "searchable", m ≠ n →
        ∃ r ∈ s.context.resources.ofKind .resolver, ∃ q ∈ s.context.resources.ofKind .resolver,
          r.id = SearchPass.queryId m ∧ q.id = SearchPass.queryId n ∧ r.id ≠ q.id
            ∧ r.get? "index" ≠ q.get? "index")
      ↔ ∀ m ∈ c.schema.namesWith "searchable", ∀ n ∈ c.schema.namesWith "searchable", m ≠ n →
        SearchPass.queryName m ≠ SearchPass.queryName n ∧ Text.lowercase m ≠ Text.lowercase n := by
  have sound := (h.isSound hc).all
  constructor
  · intro hapart
    have queries : ∀ m ∈ c.schema.namesWith "searchable",
        ∀ n ∈ c.schema.namesWith "searchable", m ≠ n →
          SearchPass.queryName m ≠ SearchPass.queryName n := by
      intro m hm n hn hne he
      obtain ⟨r, -, q, -, hr, hq, hids, -⟩ := hapart m hm n hn hne
      rw [hr, hq, SearchPass.queryId, SearchPass.queryId, he] at hids
      exact hids rfl
    -- the query of a model is the one that searches by its index
    have index : ∀ m ∈ c.schema.namesWith "searchable",
        ∀ r ∈ s.context.resources.ofKind .resolver, r.id = SearchPass.queryId m →
          r.get? "index" = some (.str (Text.lowercase m)) := by
      intro m hm r hr hid
      obtain ⟨q, hq, hqid, hindex⟩ := h.index hc hm (queries m hm)
      have hget := (sound.mem_ofKind_iff.1 hr).1
      rw [hid, ← hqid, (sound.mem_ofKind_iff.1 hq).1] at hget
      exact Option.some.inj hget ▸ hindex
    refine fun m hm n hn hne => ⟨queries m hm n hn hne, fun he => ?_⟩
    obtain ⟨r, hr, q, hq, hrid, hqid, -, hindex⟩ := hapart m hm n hn hne
    exact hindex (by rw [index m hm r hr hrid, index n hn q hq hqid, he])
  · intro hapart m hm n hn hne
    have own : ∀ m ∈ c.schema.namesWith "searchable", _ := fun m hm =>
      h.index hc hm fun n hn hne => (hapart m hm n hn hne).1
    obtain ⟨r, hr, hrid, hri⟩ := own m hm
    obtain ⟨q, hq, hqid, hqi⟩ := own n hn
    refine ⟨r, hr, q, hq, hrid, hqid, fun he => ?_, fun he => ?_⟩
    · exact (hapart m hm n hn hne).1
        (SearchPass.queryId_inj (hrid.symm.trans (he.trans hqid)))
    · rw [hri, hqi] at he
      exact (hapart m hm n hn hne).2 (Json.str.inj (Option.some.inj he))

/-- **Where models have stores of their own**: wherever a fresh run of the passes that every chain
starts with ends well, tables and searches are apart exactly where the names are that they are made
from. A table is named as a type of the schema asks, also where that is the name of another table,
and a query that two models share searches one of them. -/
theorem storesApart_iff_of_completes (hc : c.resources = {}) (h : Completes args c s) :
    s.context.resources.StoresApart (c.schema.namesWith "searchable")
      ↔ s.context.NamesApart c.schema := by
  have htables := h.tablesApart_iff hc
  have hsearches := h.searchesApart_iff hc
  constructor
  · exact fun hapart => ⟨htables.1 hapart.tables, hsearches.1 hapart.searches⟩
  · exact fun hapart => ⟨htables.2 hapart.tables, hsearches.2 hapart.searches⟩

/-- A schema with two models that can be searched, one of which keeps an older table. -/
def archivedPosts : Context where
  schema := ⟨[{
    kind := .object, name := "Post",
    directives := [⟨"model", []⟩, ⟨"mapsTo", [("name", .string "Article")]⟩, ⟨"searchable", []⟩],
    fields := [{ name := "title", type := .named "String" }] }, {
    kind := .object, name := "Comment", directives := [⟨"model", []⟩, ⟨"searchable", []⟩],
    fields := [{ name := "text", type := .named "String" }] }]⟩

/-- The names of models with stores of their own are apart. -/
theorem storesApart_iff_archivedPosts :
    archivedPosts.resources = {} ∧ Completes {} archivedPosts (lastState {} archivedPosts)
      ∧ (lastState {} archivedPosts).context.resources.StoresApart
          (archivedPosts.schema.namesWith "searchable")
      ∧ (lastState {} archivedPosts).context.NamesApart archivedPosts.schema := by
  obtain ⟨hcompletes, hapart⟩ := completes_of_endsWell
    (p := fun s => decide (s.context.resources.StoresApart ["Post", "Comment"]))
    (show endsWell {} archivedPosts _ = true by decide +kernel)
  have hapart := of_decide_eq_true hapart
  exact ⟨rfl, hcompletes, hapart, (storesApart_iff_of_completes rfl hcompletes).1 hapart⟩

/-- A schema with a model that asks for the table of another one. -/
def mappedPosts : Context where
  schema := ⟨[{
    kind := .object, name := "Article", directives := [⟨"model", []⟩],
    fields := [{ name := "title", type := .named "String" }] }, {
    kind := .object, name := "Post",
    directives := [⟨"model", []⟩, ⟨"mapsTo", [("name", .string "Article")]⟩],
    fields := [{ name := "title", type := .named "String" }] }]⟩

/-- Two models share a table where one asks for that of the other one. -/
theorem not_storesApart_mappedPosts :
    mappedPosts.resources = {} ∧ Completes {} mappedPosts (lastState {} mappedPosts)
      ∧ ¬ (lastState {} mappedPosts).context.resources.StoresApart
          (mappedPosts.schema.namesWith "searchable") := by
  obtain ⟨hcompletes, hshared⟩ := completes_of_endsWell
    (p := fun s => !decide (s.context.resources.StoresApart []))
    (show endsWell {} mappedPosts _ = true by decide +kernel)
  rw [Bool.not_eq_true', decide_eq_false_iff_not] at hshared
  exact ⟨rfl, hcompletes, hshared⟩

end Chain

end ApiCompiler
