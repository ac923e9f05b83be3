import ApiCompiler.Proofs.Resource.Indexes
import ApiCompiler.Proofs.Resource.Stores

/-!
# Resources — queries of indexes

An index that has a query asks for a resolver of the query, which is bound to the datasource of its
model, and names the index. A resolver that is there keeps what it is bound to, and names the index
that it is last told: the first that asks is read from, and the last that asks is read by.

* `IndexPass.asked`: what an index asks for the resolver of its query.
* `IndexPass.source?_of_forEach`, `IndexPass.index_of_forEach`: the first datasource and the last
  name of an index count.
* `Document.renamings`: the names of indexes that links and searches give to resolvers later on.
* `Context.QueriesApart`: no two indexes have one query, and no other resolver is one.
* `Chain.queried_iff_of_completes`: where every index can be queried through its own resolver.
-/

namespace ApiCompiler

open PassAction

/-! ### Indexes -/

namespace IndexPass

/-- What an index gives to the resolver of its query, where it has one. -/
def asked (g : IndexRecord → Json) (r : IndexRecord) : List (String × Json) :=
  r.queryField.toList.map fun q => (resolverId "Query" q, g r)

/-- The datasource that an index is read from. -/
def sourceOf (r : IndexRecord) : Json := .str (datasourceId r.model)

/-- The index as a resolver names it. -/
def named (r : IndexRecord) : Json := .str r.name

variable {r : IndexRecord} {rs : List IndexRecord} {s t : PassState}

theorem mem_flatMap_asked {g : IndexRecord → Json} {q : String} {v : Json} :
    (resolverId "Query" q, v) ∈ rs.flatMap (asked g) ↔
      ∃ r ∈ rs, r.queryField = some q ∧ v = g r := by
  simp only [List.mem_flatMap, asked, List.mem_map, Option.mem_toList]
  refine exists_congr fun r => and_congr_right fun _ => ⟨?_, ?_⟩
  · rintro ⟨q', hq, he⟩
    obtain ⟨hid, hv⟩ := Prod.mk.inj he
    exact ⟨fieldName_inj hid ▸ hq, hv.symm⟩
  · rintro ⟨hq, rfl⟩
    exact ⟨q, hq, rfl⟩

theorem listing (c : Context) (r : IndexRecord) : Decorates indexLists
    (·.push (listedUnder c) (entry r.name r.partitionKey r.sortKeys)) :=
  .push (listedUnder_mem c) _

theorem source?_of_addIndex {id : String} (h : (addIndex r).on s = (.ok (), t)) :
    t.context.resources.source? id
      = (s.context.resources.source? id).or (Dict.findList? id (asked sourceOf r)) := by
  have listed : ∀ id, (s.context.resources.modify (tableId r.model) _).source? id
      = s.context.resources.source? id :=
    ResourceGraph.source?_modify (listing s.context r) (by decide) (tableId r.model)
  rw [(addIndex_ok h).2.1, attach, addQuery, asked]
  cases r.queryField with
  | none => exact (listed id).trans Option.or_none.symm
  | some q =>
    refine (Context.source?_addResolver (c := s.context.modifyResource (tableId r.model) _)
      (.set (List.mem_singleton_self "index") _) (by decide) _ _ _ _ id).trans ?_
    rw [Context.resources_modifyResource, listed]
    rfl

theorem index_of_addIndex {id : String} (h : (addIndex r).on s = (.ok (), t)) :
    t.context.resources.property? id "index" = (Dict.lastIn? id (asked named r)).or
      (s.context.resources.property? id "index") := by
  have listed : (s.context.resources.modify (tableId r.model) _).property? id "index"
      = s.context.resources.property? id "index" :=
    ResourceGraph.property?_modify (listing s.context r) (by decide) (tableId r.model) id
  rw [(addIndex_ok h).2.1, attach, addQuery, asked]
  cases r.queryField with
  | none => exact listed
  | some q =>
    refine (Context.property?_addResolver (v := named r)
      (fun p => by rw [Resource.get?_set, if_pos rfl]; rfl)
      (s.context.modifyResource (tableId r.model) _) _ _ _ _ id).trans ?_
    rw [Context.resources_modifyResource, listed, Option.toList_some, List.map_singleton,
      Dict.lastIn?_singleton]
    split <;> rfl

/-- **The first index that asks is read from.** -/
theorem source?_of_forEach {id : String} (h : (Action.forEach addIndex rs).on s = (.ok (), t)) :
    t.context.resources.source? id
      = (s.context.resources.source? id).or (Dict.findList? id (rs.flatMap (asked sourceOf))) := by
  rw [Dict.findList?_flatMap]
  exact Action.forEach_first (I := fun _ => True)
    (v := fun s : PassState => s.context.resources.source? id)
    (fun _ _ _ _ hr _ => ⟨trivial, source?_of_addIndex hr⟩) h trivial

/-- **The last index that asks is read by.** -/
theorem index_of_forEach {id : String} (h : (Action.forEach addIndex rs).on s = (.ok (), t)) :
    t.context.resources.property? id "index" = (Dict.lastIn? id (rs.flatMap (asked named))).or
      (s.context.resources.property? id "index") :=
  forEach_last (v := fun s : PassState => s.context.resources.property? id "index")
    (fun _ _ _ _ => index_of_addIndex) h

end IndexPass

namespace PrimaryKeyPass

theorem source?_of_apply {s t : PassState} (h : apply.on s = (.ok (), t)) {id : String} :
    t.context.resources.source? id = s.context.resources.source? id := by
  rw [apply, on_examine_bind] at h
  split at h
  · cases h
    refine List.foldlRecOn (motive := fun d : Context =>
      d.resources.source? id = s.context.resources.source? id) _ setKey rfl fun d hd k _ => ?_
    rw [← hd, setKey]
    split
    · exact ResourceGraph.source?_modify (.setKey _ _) (by decide) _ _
    · rfl
  · cases (Prod.mk.inj h).1

end PrimaryKeyPass

/-! ### Later names of indexes -/

namespace Document

/-- The names of indexes that links to many records give to resolvers. -/
def linkNames (d : Document) : List (String × Json) :=
  (d.fieldsWith "hasMany").map fun p =>
    (resolverId p.1.name p.2.name, .str ("gsi-" ++ location p.1 p.2))

/-- The names of indexes that searches give to resolvers. -/
def searchNames (d : Document) : List (String × Json) :=
  (d.namesWith "searchable").map fun m => (SearchPass.queryId m, .str (Text.lowercase m))

/-- The names of indexes that resolvers are given behind the pass of indexes, in that order. -/
def laterNames (d : Document) : List (String × Json) := d.linkNames ++ d.searchNames

end Document

namespace HasManyPass

/-- What links name is what the schema says from the first. -/
theorem linkNames_of_linkedFields {d : Document} {c : Context} {ls : List Link}
    (h : linkedFields c "hasMany" = .ok ls) (hd : d.Settles c.schema) :
    ls.map (fun l => (resolverId l.source l.field, Json.str (indexName l))) = d.linkNames := by
  have kept : List.Forall₂ (fun (p : TypeDefinition × FieldDefinition) (l : Link) =>
      (resolverId l.source l.field, Json.str (indexName l))
        = (resolverId p.1.name p.2.name, .str ("gsi-" ++ location p.1 p.2)))
      (d.fieldsWith "hasMany") ls :=
    (linkedFields_settled h hd).imp fun p l ⟨hsource, hfield, _⟩ => by
      rw [indexName, Link.place, hsource, hfield, location]
  rw [Document.linkNames, ← List.forall₂_eq_eq_eq, List.forall₂_map_left_iff,
    List.forall₂_map_right_iff]
  exact kept.flip

theorem index_attach (c : Context) (l : Link) (id : String) :
    (attach c l).resources.property? id "index"
      = if resolverId l.source l.field = id then some (.str (indexName l))
        else c.resources.property? id "index" := by
  have push : Decorates indexLists (·.push "globalSecondaryIndexes" (.obj
      [("indexName", .str (indexName l)), ("partitionKey", .str l.foreignKey),
        ("sortKeys", .arr [])])) := .push List.mem_cons_self _
  have listed := ResourceGraph.property?_modify (g := c.resources) push
    (by decide : "index" ∉ indexLists) (tableId l.target) id
  refine (Context.property?_addResolver (v := .str (indexName l))
    (fun r => by simp [Resource.get?_set]) _ _ _ _ _ id).trans ?_
  split
  · rfl
  · exact listed

/-- The last link of a field names its index. -/
theorem index_of_apply {d : Document} {s t : PassState} (hd : d.Settles s.context.schema)
    (h : apply.on s = (.ok (), t)) (id : String) :
    t.context.resources.property? id "index" = (Dict.lastIn? id d.linkNames).or
      (s.context.resources.property? id "index") := by
  rw [apply, on_examine_bind] at h
  split at h
  · next ls hls =>
    rw [← linkNames_of_linkedFields hls hd, List.map_eq_flatMap]
    refine forEach_last (v := fun s : PassState => s.context.resources.property? id "index")
      (fun l _ u v hv => ?_) h
    obtain ⟨-, rfl⟩ := link_ok hv
    rw [Dict.lastIn?_singleton]
    refine (index_attach u.context l id).trans ?_
    split <;> rfl
  · cases (Prod.mk.inj h).1

end HasManyPass

namespace SearchPass

theorem index_attach (c : Context) (m id : String) : (attach c m).resources.property? id "index"
    = if queryId m = id then some (.str (Text.lowercase m))
      else c.resources.property? id "index" := by
  have view : Decorates ["streamViewType"]
      (·.set "streamViewType" (.str "NEW_AND_OLD_IMAGES")) := .set List.mem_cons_self _
  have viewed := ResourceGraph.property?_modify (g := c.resources) view
    (by decide : "index" ∉ ["streamViewType"]) (tableId m) id
  rw [resources_attach, Context.property?_addResolver (v := .str (Text.lowercase m))
    fun r => by rw [Resource.get?_set, if_pos rfl]]
  split
  · next he => rw [queryId, if_pos he]
  · next he => rw [queryId, if_neg he, Context.resources_modifyResource, viewed]

/-- The last search of a query names its index. -/
theorem index_of_apply {s t : PassState} (h : apply.on s = (.ok (), t)) {id : String}
    (hid : kindOfId? id = some .resolver) :
    t.context.resources.property? id "index" = (Dict.lastIn? id s.context.schema.searchNames).or
      (s.context.resources.property? id "index") := by
  rw [apply, on_examine_bind] at h
  split at h
  · next ms hms =>
    rw [Document.searchNames, ← models_eq hms]
    split at h
    · next hempty =>
      cases List.isEmpty_iff.1 hempty
      cases h
      rfl
    · cases h
      have others : ∀ other ∈ [domainId, searchDatasource, streamingFunction],
          kindOfId? other ≠ some .resolver := by decide
      have provisioned : s.context.resources.Same (Chain.OfKind .resolver) "index"
          (provision s.context ms).resources := same_provision others s.context ms
      rw [← provisioned id hid]
      exact foldl_last (I := fun _ => True)
        (v := fun d : Context => d.resources.property? id "index")
        (fun m _ d _ => ⟨trivial, index_attach d m id⟩) trivial
  · cases (Prod.mk.inj h).1

end SearchPass

namespace ManyToManyPass

/-- Indexes of join models have no queries. -/
theorem indexes_of_apply {s t : PassState} (h : apply.on s = (.ok (), t)) :
    ∃ joins, t.memory.indexes = s.memory.indexes ++ joins ∧ ∀ r ∈ joins, r.queryField = none := by
  rw [apply, on_examine_bind] at h
  split at h
  · refine Action.forEach_invariant (I := fun u : PassState => ∃ joins, u.memory.indexes
      = s.memory.indexes ++ joins ∧ ∀ r ∈ joins, r.queryField = none) (fun p _ u v hv hu => ?_)
      h ⟨[], (List.append_nil _).symm, List.forall_mem_nil _⟩
    obtain ⟨joins, hjoins, hnone⟩ := hu
    obtain ⟨a, b, -, hl⟩ := linkedBy_of_linkGroup hv
    refine ⟨joins ++ [joinIndex p.1 a, joinIndex p.1 b], ?_, ?_⟩
    · rw [hl.remembers.indexes, hjoins, List.append_assoc]
    · simpa [or_imp, forall_and, joinIndex] using hnone
  · cases (Prod.mk.inj h).1

end ManyToManyPass

/-! ### Runs -/

/-- An index is queried by the resolver of a query, which is bound to the datasource of the model of
the index, and names the index. -/
def ResourceGraph.Queried (g : ResourceGraph) (r : IndexRecord) (q : String) : Prop :=
  ∃ p ∈ g.ofKind .resolver, p.id = resolverId "Query" q
    ∧ p.get? "dataSource" = some (.str (datasourceId r.model))
    ∧ p.get? "index" = some (.str r.name)

instance (g : ResourceGraph) (r : IndexRecord) (q : String) : Decidable (g.Queried r q) :=
  inferInstanceAs (Decidable (∃ p ∈ g.ofKind .resolver, _))

theorem ResourceGraph.AllSound.queried_iff {g : ResourceGraph} (h : g.AllSound) {r : IndexRecord}
    {q : String} : g.Queried r q ↔
      g.source? (resolverId "Query" q) = some (IndexPass.sourceOf r)
        ∧ g.property? (resolverId "Query" q) "index" = some (IndexPass.named r) := by
  constructor
  · rintro ⟨p, hp, hid, hsource, hindex⟩
    have hget := (h.mem_ofKind_iff.1 hp).1
    rw [hid] at hget
    exact ⟨source?_eq_some_iff.2 ⟨p, hget, hsource⟩,
      (property?_of_get? hget "index").trans hindex⟩
  · rintro ⟨hsource, hindex⟩
    obtain ⟨p, hget, hsource⟩ := source?_eq_some_iff.1 hsource
    obtain ⟨hp, hid⟩ := h.mem_ofKind_of_get? hget (kindOfId?_resolverId "Query" q)
    exact ⟨p, hp, hid, hsource, (property?_of_get? hget "index").symm.trans hindex⟩

/-- The queries of indexes are apart: no two indexes have one query, a query that an earlier pass
asks for is bound to the datasource of the model, and one that is told of an index later on is told
of the same index. -/
structure Context.QueriesApart (c : Context) (records : List IndexRecord) : Prop where
  own  : ∀ r ∈ records, ∀ r' ∈ records, ∀ q, r.queryField = some q → r'.queryField = some q → r = r'
  free : ∀ r ∈ records, ∀ q, r.queryField = some q → ∀ datasource,
    Dict.findList? (resolverId "Query" q) c.attachments = some datasource →
      datasource = datasourceId r.model
  kept : ∀ r ∈ records, ∀ q, r.queryField = some q → ∀ name,
    Dict.lastIn? (resolverId "Query" q) c.schema.laterNames = some name → name = .str r.name

namespace Chain

open Context

variable {args : FactoryArgs} {c : Context} {s t u v w x y z : PassState}

/-- Behind links to many records, only searches tell resolvers of indexes. -/
theorem index_of_joined (before : Edits AnyName AnyTime c z.context)
    (hrun : (Action.forEach Entry.apply ((builtin args).drop 7)).on z = (.ok (), s)) {id : String}
    (hid : kindOfId? id = some .resolver) :
    s.context.resources.property? id "index" = (Dict.lastIn? id c.schema.searchNames).or
      (z.context.resources.property? id "index") := by
  have hsplit : (builtin args).drop 7 = ((builtin args).drop 7).take 6 ++ [{ pass := .searchable }]
    := rfl
  rw [hsplit, Action.forEach_append_ok] at hrun
  obtain ⟨m, hm, hrun⟩ := hrun
  obtain ⟨n, hn, hrun⟩ := Action.forEach_cons_ok.1 hrun
  cases hrun
  have names : ∀ name ∈ (builtinNames.drop 7).take 6, "index" ∉ changed name
      ∧ ResourceKind.resolver ∉ supplied name := by decide
  have leaves : Leaves (OfKind .resolver) "index"
      (Action.forEach Entry.apply (((builtin args).drop 7).take 6)) :=
    entries_leave fun e he => by
      obtain ⟨hmem, hname⟩ := mem_slice he
      exact builtin_leaves hmem (by decide) (names _ hname).1 (names _ hname).2
  have same : Document.searchNames m.context.schema = c.schema.searchNames := by
    have edits : Edits AnyName AnyTime c m.context :=
      before.trans (edits_of_forEach (fun _ he => (mem_slice he).1) hm)
    rw [Document.searchNames, Document.searchNames, edits.namesWith (by decide)]
  rw [SearchPass.index_of_apply hn hid, same, leaves.of_ok hm id hid]

/-- What the queries of indexes become, where the pass of indexes has added these: each is bound as
it is first asked, by an earlier pass or by the first index, and names what it is last told, by a
later pass or else by the last index. -/
structure QueriesOf (c : Context) (rs : List IndexRecord) (s : PassState) : Prop where
  mem_iff : ∀ r q, r.queryField = some q → (r ∈ s.memory.indexes ↔ r ∈ rs)
  apart   : ∀ r ∈ rs, ∀ r' ∈ rs, r.model = r'.model → r.name = r'.name → r = r'
  source  : ∀ id v, kindOfId? id = some .resolver →
    Dict.findList? id (rs.flatMap (IndexPass.asked IndexPass.sourceOf)) = some v →
      s.context.resources.source? id
        = some (((Dict.findList? id c.attachments).map .str).getD v)
  index   : ∀ id v, kindOfId? id = some .resolver →
    Dict.lastIn? id (rs.flatMap (IndexPass.asked IndexPass.named)) = some v →
      s.context.resources.property? id "index"
        = some ((Dict.lastIn? id c.schema.laterNames).getD v)

theorem Completes.queries (hc : c.resources = {}) (h : Completes args c s) :
    ∃ rs, QueriesOf c rs s := by
  obtain ⟨t, u, v, w, x, y, z, hb, hi, hrun⟩ := h.cutIndexes
  obtain ⟨rs, hrs⟩ := IndexPass.exists_of_apply hi.index
  obtain ⟨j, k, hasOne, hk, rest⟩ := exists_joined hrun
  obtain ⟨joins, hjoins, hnone⟩ := ManyToManyPass.indexes_of_apply hk
  have hmany : Part.indexes.Same y z := HasManyPass.apply_spares.of_ok hi.hasMany
  have indexes : z.memory.indexes = rs := by
    rw [show z.memory.indexes = y.memory.indexes from hmany, IndexPass.indexes_of_forEach hrs,
      (hb.lists hc hi.key).1, List.nil_append]
  have apart := (hi.lists hc hb).1
  have indexed : Edits AnyName AnyTime c y.context := hb.edits.trans hi.edits
  have linked : Edits AnyName AnyTime y.context z.context :=
    (HasManyPass.apply_edits fun _ _ => trivial).of_ok hi.hasMany
  refine ⟨rs, fun r q hq => ?_, fun r hr r' hr' => apart.eq (indexes ▸ hr) (indexes ▸ hr'),
    fun id v hid hv => ?_, fun id v hid hv => ?_⟩
  · rw [rest.indexes, hjoins, hasOne.indexes, indexes, List.mem_append]
    refine or_iff_left fun hr => ?_
    rw [hnone r hr] at hq
    cases hq
  · refine (edits_drop hrun).source? hid (linked.source? hid ?_)
    rw [IndexPass.source?_of_forEach hrs, PrimaryKeyPass.source?_of_apply hi.key,
      hb.source? hc hid, hv, Option.or_some]
  · rw [index_of_joined (indexed.trans linked) hrun hid,
      HasManyPass.index_of_apply indexed.settles hi.hasMany, IndexPass.index_of_forEach hrs, hv,
      Option.some_or, ← Option.or_assoc, Document.laterNames, Dict.lastIn?_append, Option.or_some]

/-- Two of the indexes that have a query tell what it becomes. -/
theorem QueriesOf.exists_given {rs : List IndexRecord} (h : QueriesOf c rs s) {r : IndexRecord}
    (hr : r ∈ s.memory.indexes) {q : String} (hq : r.queryField = some q) :
    ∃ first ∈ s.memory.indexes, ∃ last ∈ s.memory.indexes,
      first.queryField = some q ∧ last.queryField = some q
        ∧ s.context.resources.source? (resolverId "Query" q)
          = some (((Dict.findList? (resolverId "Query" q) c.attachments).map .str).getD
            (IndexPass.sourceOf first))
        ∧ s.context.resources.property? (resolverId "Query" q) "index"
          = some ((Dict.lastIn? (resolverId "Query" q) c.schema.laterNames).getD
            (IndexPass.named last)) := by
  have hmem : ∀ g, resolverId "Query" q ∈ (rs.flatMap (IndexPass.asked g)).map (·.1) := fun g =>
    List.mem_map.2 ⟨(_, g r),
      IndexPass.mem_flatMap_asked.2 ⟨r, (h.mem_iff r q hq).1 hr, hq, rfl⟩, rfl⟩
  obtain ⟨source, hsource⟩ := Dict.exists_findList? (hmem IndexPass.sourceOf)
  obtain ⟨name, hname⟩ := Dict.exists_lastIn? (hmem IndexPass.named)
  obtain ⟨first, hfirst, hfq, rfl⟩ := IndexPass.mem_flatMap_asked.1 (Dict.mem_of_findList? hsource)
  obtain ⟨last, hlast, hlq, rfl⟩ := IndexPass.mem_flatMap_asked.1 (Dict.mem_of_lastIn? hname)
  have hid := kindOfId?_resolverId "Query" q
  exact ⟨first, (h.mem_iff first q hfq).2 hfirst, last, (h.mem_iff last q hlq).2 hlast, hfq, hlq,
    h.source _ _ hid hsource, h.index _ _ hid hname⟩

/-- **Every index can be queried through its own resolver** exactly where queries are apart:
wherever a fresh run of the passes that every chain starts with ends well, the resolver of the query
of each index that is remembered is bound to the datasource of the model, and names the index, if
and only if no two indexes have one query, and no resolver that is bound elsewhere or told of
another index is that of a query. -/
theorem queried_iff_of_completes (hc : c.resources = {}) (h : Completes args c s) :
    (∀ r ∈ s.memory.indexes, ∀ q, r.queryField = some q → s.context.resources.Queried r q) ↔
      c.QueriesApart s.memory.indexes := by
  obtain ⟨rs, queries⟩ := h.queries hc
  have sound := (h.edits.isSound (isSound_of_empty hc)).all
  have queried : ∀ r q, s.context.resources.Queried r q ↔
      s.context.resources.source? (resolverId "Query" q) = some (IndexPass.sourceOf r)
        ∧ s.context.resources.property? (resolverId "Query" q) "index"
          = some (IndexPass.named r) := fun r q => sound.queried_iff
  constructor
  · intro hall
    refine ⟨fun r hr r' hr' q hq hq' => ?_, fun r hr q hq d hd => ?_, fun r hr q hq n hn => ?_⟩
    · obtain ⟨hsource, hindex⟩ := (queried r q).1 (hall r hr q hq)
      obtain ⟨hsource', hindex'⟩ := (queried r' q).1 (hall r' hr' q hq')
      have hmodel := Json.str.inj (Option.some.inj (hsource.symm.trans hsource'))
      have hname := Json.str.inj (Option.some.inj (hindex.symm.trans hindex'))
      exact queries.apart r ((queries.mem_iff r q hq).1 hr) r' ((queries.mem_iff r' q hq').1 hr')
        (datasourceId_inj hmodel) hname
    · obtain ⟨first, -, last, -, -, -, hsource, -⟩ := queries.exists_given hr hq
      rw [((queried r q).1 (hall r hr q hq)).1, hd] at hsource
      exact (Json.str.inj (Option.some.inj hsource)).symm
    · obtain ⟨first, -, last, -, -, -, -, hindex⟩ := queries.exists_given hr hq
      rw [((queried r q).1 (hall r hr q hq)).2, hn] at hindex
      exact (Option.some.inj hindex).symm
  · intro hapart r hr q hq
    obtain ⟨first, hfirst, last, hlast, hfq, hlq, hsource, hindex⟩ := queries.exists_given hr hq
    obtain rfl := hapart.own r hr first hfirst q hq hfq
    obtain rfl := hapart.own r hr last hlast q hq hlq
    refine (queried r q).2 ⟨hsource.trans (congrArg some ?_), hindex.trans (congrArg some ?_)⟩
    · cases hd : Dict.findList? (resolverId "Query" q) c.attachments with
      | none => rfl
      | some d => rw [hapart.free r hr q hq d hd]; rfl
    · cases hn : Dict.lastIn? (resolverId "Query" q) c.schema.laterNames with
      | none => rfl
      | some n => exact hapart.kept r hr q hq n hn

/-- A schema with a field that is indexed under some names. -/
def indexedPost (names : List String) : Context where
  schema := ⟨[{
    kind := .object, name := "Post", directives := [⟨"model", []⟩],
    fields := [{ name := "title", type := .named "String",
                 directives := names.map fun name => ⟨"index", [("name", .string name)]⟩ }] }]⟩

/-- The only index of a field can be queried. -/
theorem queried_indexedPost : (indexedPost ["a"]).resources = {}
    ∧ Completes {} (indexedPost ["a"]) (lastState {} (indexedPost ["a"]))
    ∧ (lastState {} (indexedPost ["a"])).memory.indexes
      = [⟨"Post", "a", "title", [], some "postsByTitle"⟩]
    ∧ ∀ r ∈ (lastState {} (indexedPost ["a"])).memory.indexes, ∀ q, r.queryField = some q →
      (lastState {} (indexedPost ["a"])).context.resources.Queried r q := by
  have run := completes_of_endsWell (p := fun s =>
    decide (s.memory.indexes = [⟨"Post", "a", "title", [], some "postsByTitle"⟩]))
    (by decide +kernel : endsWell {} (indexedPost ["a"]) _ = true)
  have indexes := of_decide_eq_true run.2
  refine ⟨rfl, run.1, indexes, (queried_iff_of_completes rfl run.1).2 ?_⟩
  rw [indexes]
  have single : ∀ q, some "postsByTitle" = some q → q = "postsByTitle" :=
    fun q hq => (Option.some.inj hq).symm
  have unbound : Dict.findList? (resolverId "Query" "postsByTitle") (indexedPost ["a"]).attachments
      = none := by decide +kernel
  have unnamed : Dict.lastIn? (resolverId "Query" "postsByTitle")
      (indexedPost ["a"]).schema.laterNames = none := by decide +kernel
  refine ⟨fun r hr r' hr' _ _ _ => ?_, List.forall_mem_singleton.2 fun q hq d hd => ?_,
    List.forall_mem_singleton.2 fun q hq n hn => ?_⟩
  · rw [List.mem_singleton.1 hr, List.mem_singleton.1 hr']
  · rw [single q hq, unbound] at hd
    cases hd
  · rw [single q hq, unnamed] at hn
    cases hn

/-- The first of two indexes of a field cannot be queried. -/
theorem not_queried_indexedPost : (indexedPost ["a", "b"]).resources = {}
    ∧ Completes {} (indexedPost ["a", "b"]) (lastState {} (indexedPost ["a", "b"]))
    ∧ ¬ ∀ r ∈ (lastState {} (indexedPost ["a", "b"])).memory.indexes, ∀ q,
      r.queryField = some q →
        (lastState {} (indexedPost ["a", "b"])).context.resources.Queried r q := by
  have run := completes_of_endsWell (p := fun s => s.memory.indexes.any fun r =>
    r.queryField.any fun q => !decide (s.context.resources.Queried r q))
    (by decide +kernel : endsWell {} (indexedPost ["a", "b"]) _ = true)
  refine ⟨rfl, run.1, fun h => ?_⟩
  obtain ⟨r, hr, hany⟩ := List.any_eq_true.1 run.2
  obtain ⟨q, hq, hnot⟩ := (Option.any_eq_true _ _).1 hany
  simp [h r hr q hq] at hnot

end Chain

end ApiCompiler
