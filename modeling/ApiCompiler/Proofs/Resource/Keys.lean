import ApiCompiler.Proofs.Chain.Started
import ApiCompiler.Proofs.Resource.Links

/-!
# Resources — keys of tables

* `IsKeyed`: the keys and indexes of a table are of fields that its model has.
* `KeyedTable`: the invariant behind it. A model whose schema declares its key is made with the key
  `id`, which it need not have, until the pass of keys gives it its own.
* `Edit.keyed`, `PrimaryKeyPass.keyed_apply`: changes keep the invariant, and that pass settles it.
* `Chain.isKeyed_of_completes`: every key of every table is of fields of its model.
-/

namespace ApiCompiler

/-! ### Tables with keys -/

/-- An index as a table lists it: its name, and keys that are of fields that a type has. -/
structure Document.HasIndex (d : Document) (type : String) (v : Json) : Prop where
  shape        : ∃ fields, v = .obj fields
    ∧ fields.map (·.1) = ["indexName", "partitionKey", "sortKeys"]
  name         : ∃ name, v.get? "indexName" = some (.str name)
  partitionKey : ∃ field, v.get? "partitionKey" = some (.str field) ∧ d.Declares type field
  sortKeys     : ∃ items, v.get? "sortKeys" = some (.arr items)
    ∧ ∀ item ∈ items, ∃ field, item = .str field ∧ d.Declares type field

namespace Document

variable {d d' : Document} {type partitionKey : String} {sortKeys : List String}

theorem HasKey.declares_sortKeys (h : d.HasKey type partitionKey sortKeys) :
    ∀ item ∈ sortKeys.map Json.str, ∃ field, item = .str field ∧ d.Declares type field := by
  intro item hm
  obtain ⟨field, hf, rfl⟩ := List.mem_map.1 hm
  exact ⟨field, rfl, h field (List.mem_cons_of_mem _ hf)⟩

theorem hasIndex_entry (name : String) (h : d.HasKey type partitionKey sortKeys) :
    d.HasIndex type (IndexPass.entry name partitionKey sortKeys) where
  shape := ⟨_, rfl, rfl⟩
  name := ⟨name, rfl⟩
  partitionKey := ⟨partitionKey, rfl, h _ List.mem_cons_self⟩
  sortKeys := ⟨_, rfl, h.declares_sortKeys⟩

theorem HasIndex.mono {v : Json} (h : d.HasIndex type v) (hd : d.GrownTo d') :
    d'.HasIndex type v where
  shape := h.shape
  name := h.name
  partitionKey := by
    obtain ⟨field, hv, hf⟩ := h.partitionKey
    exact ⟨field, hv, hf.mono hd⟩
  sortKeys := by
    obtain ⟨items, hv, hitems⟩ := h.sortKeys
    refine ⟨items, hv, fun item hm => ?_⟩
    obtain ⟨field, hitem, hf⟩ := hitems item hm
    exact ⟨field, hitem, hf.mono hd⟩

end Document

namespace Resource

/-- A table whose sort keys and indexes are of fields that its model has. -/
structure IsIndexed (d : Document) (model : String) (r : Resource) : Prop where
  sortKeys : r.Lists "sortKeys" fun v => ∃ field, v = .str field ∧ d.Declares model field
  indexes  : ∀ list ∈ indexLists, r.Lists list (d.HasIndex model)

/-- A table all of whose keys are of fields that its model has. -/
structure IsKeyed (d : Document) (model : String) (r : Resource) : Prop
    extends IsIndexed d model r where
  hashKey : ∃ field, r.get? "hashKey" = some (.str field) ∧ d.Declares model field

/-- The table of a model that the schema has; its key is of a field of the model, or is `id` where
the model is `spared` that field. -/
structure KeyedTable (spared : Document → String → Prop) (d : Document) (model : String)
    (r : Resource) : Prop extends IsIndexed d model r where
  typed   : d.IsTyped model
  hashKey : ∃ field, r.get? "hashKey" = some (.str field)
    ∧ (d.Declares model field ∨ field = "id" ∧ spared d model)

variable {spared spared' : Document → String → Prop} {d d' : Document} {model : String}
  {r : Resource}

theorem IsIndexed.mono (h : r.IsIndexed d model) (hd : d.GrownTo d') : r.IsIndexed d' model where
  sortKeys := h.sortKeys.mono fun _ ⟨field, hv, hf⟩ => ⟨field, hv, hf.mono hd⟩
  indexes list hl := (h.indexes list hl).mono fun _ hv => hv.mono hd

theorem KeyedTable.mono (h : r.KeyedTable spared d model) (hd : d.GrownTo d')
    (hs : spared d model → spared' d' model) : r.KeyedTable spared' d' model where
  toIsIndexed := h.toIsIndexed.mono hd
  typed := h.typed.mono hd
  hashKey := by
    obtain ⟨field, hr, hf⟩ := h.hashKey
    exact ⟨field, hr, hf.imp (·.mono hd) (And.imp_right hs)⟩

/-- Where no model is spared anything, all keys are of fields. -/
theorem KeyedTable.isKeyed (h : r.KeyedTable ModelPass.NoneSpared d model) : r.IsKeyed d model where
  toIsIndexed := h.toIsIndexed
  hashKey := by
    obtain ⟨field, hr, hf⟩ := h.hashKey
    exact ⟨field, hr, hf.resolve_right And.right⟩

/-- Properties that are no keys do not matter. -/
theorem KeyedTable.decorate (h : r.KeyedTable spared d model) {keys : List String}
    {f : Resource → Resource} (hf : Decorates keys f) (hk : ∀ key ∈ keyProperties, key ∉ keys) :
    (f r).KeyedTable spared d model where
  sortKeys := h.sortKeys.of_get?_eq (hf.get? r _ (hk _ (by decide)))
  indexes list hl := by
    have listed : ∀ list ∈ indexLists, list ∈ keyProperties := by decide
    exact (h.indexes list hl).of_get?_eq (hf.get? r _ (hk _ (listed list hl)))
  typed := h.typed
  hashKey := by
    rw [hf.get? r _ (hk _ (by decide))]
    exact h.hashKey

/-- A table whose key is set is spared nothing. -/
theorem KeyedTable.setKey (h : r.KeyedTable spared d model) {partitionKey : String}
    {sortKeys : List String} (hk : d.HasKey model partitionKey sortKeys) :
    ((r.set "hashKey" (.str partitionKey)).set "sortKeys" (.ofStrings sortKeys)).KeyedTable
      spared' d model where
  sortKeys v hv := by
    rw [get?_set, if_pos rfl] at hv
    cases hv
    exact ⟨_, rfl, hk.declares_sortKeys⟩
  indexes list hl := by
    have hkept : ∀ list ∈ indexLists, list ≠ "sortKeys" ∧ list ≠ "hashKey" := by decide
    refine (h.indexes list hl).of_get?_eq ?_
    rw [get?_set, if_neg (hkept list hl).1, get?_set, if_neg (hkept list hl).2]
  typed := h.typed
  hashKey :=
    ⟨partitionKey, by rw [get?_set, if_neg (by decide), get?_set, if_pos rfl],
      .inl (hk _ List.mem_cons_self)⟩

theorem get?_push (r : Resource) {key other : String} (h : other ≠ key) (value : Json) :
    (r.push key value).get? other = r.get? other :=
  (Decorates.push (List.mem_singleton.2 rfl) value).get? r other fun hm =>
    h (List.mem_singleton.1 hm)

/-- A table that has got a further index. -/
theorem KeyedTable.pushIndex (h : r.KeyedTable spared d model) {list : String}
    (hl : list ∈ indexLists) {entry : Json} (he : d.HasIndex model entry) :
    (r.push list entry).KeyedTable spared d model := by
  have hkey : ∀ list ∈ indexLists, "sortKeys" ≠ list ∧ "hashKey" ≠ list := by decide
  refine ⟨⟨?_, fun other ho => ?_⟩, h.typed, ?_⟩
  · exact h.sortKeys.of_get?_eq (get?_push r (hkey list hl).1 entry)
  · by_cases hsame : other = list
    · subst hsame
      exact (h.indexes other ho).push he
    · exact (h.indexes other ho).of_get?_eq (get?_push r hsame entry)
  · rw [get?_push r (hkey list hl).2]
    exact h.hashKey

end Resource

/-- The table that a model is made with has the key `id`, and no indexes. -/
theorem ModelPass.keyedTable_table {spared : Document → String → Prop} {c : Context}
    {model : String} (h : Ready spared c.schema model) :
    (table c model).KeyedTable spared c.schema model := by
  have get? : ∀ key ∈ keyProperties, (table c model).get? key =
      if key = "globalSecondaryIndexes" then some (.arr [])
      else if key = "hashKey" then some (.str "id") else none := by
    unfold table
    split <;> simp [keyProperties, indexLists, Resource.get?_set, ResourceGraph.get?_bare]
  have hashKey := get? "hashKey" (by decide)
  refine ⟨⟨fun v hv => ?_, fun list hl v hv => ?_⟩, h.1, "id", hashKey,
    h.2.imp_right fun hs => ⟨rfl, hs⟩⟩
  · cases (get? "sortKeys" (by decide)).symm.trans hv
  · have hkey : ∀ list ∈ indexLists, list ∈ keyProperties ∧ list ≠ "hashKey" := by decide
    rw [get? list (hkey list hl).1, if_neg (hkey list hl).2] at hv
    split at hv
    · cases hv
      exact ⟨[], rfl, nofun⟩
    · cases hv

/-! ### Changes keep the invariant -/

namespace Context

variable {spared spared' : Document → String → Prop} {c d : Context}

/-- Every table of a context is that of a model, with keys of fields of it. -/
def Keyed (spared : Document → String → Prop) (c : Context) : Prop :=
  ∀ id r, c.resources.get? id = some r → r.kind = .table →
    ∃ model, id = tableId model ∧ r.KeyedTable spared c.schema model

theorem keyed_of_empty (h : c.resources = {}) : c.Keyed spared := by
  intro id r hr
  rw [h] at hr
  cases hr

/-- The schema may grow. -/
theorem Keyed.mono (h : c.Keyed spared) (hres : d.resources = c.resources)
    (hd : c.schema.GrownTo d.schema)
    (hs : ∀ model, spared c.schema model → spared' d.schema model) : d.Keyed spared' := by
  intro id r hr hk
  rw [hres] at hr
  obtain ⟨model, hid, ht⟩ := h id r hr hk
  exact ⟨model, hid, ht.mono hd (hs model)⟩

theorem Keyed.add (h : c.Keyed spared) {r : Resource}
    (hr : r.kind = .table → ∃ model, r.id = tableId model ∧ r.KeyedTable spared c.schema model) :
    (c.addResource r).Keyed spared := by
  intro id s hs hk
  rw [resources_addResource, ResourceGraph.get?_add] at hs
  split at hs
  · next he =>
    cases hs
    exact he ▸ hr hk
  · exact h id s hs hk

theorem Keyed.modify (h : c.Keyed spared) {id : String} {f : Resource → Resource}
    (hkind : ∀ r, (f r).kind = r.kind)
    (hf : ∀ model r, id = tableId model → r.KeyedTable spared c.schema model →
      (f r).KeyedTable spared c.schema model) : (c.modifyResource id f).Keyed spared := by
  intro other s hs hk
  rw [resources_modifyResource, ResourceGraph.get?_modify] at hs
  split at hs
  · next he =>
    obtain ⟨r, hr, rfl⟩ := Option.map_eq_some_iff.1 hs
    obtain ⟨model, hid, ht⟩ := h id r hr ((hkind r).symm.trans hk)
    exact ⟨model, he.trans hid, hf model r hid ht⟩
  · exact h other s hs hk

end Context

/-- What holds the key of a model is no other model's table. -/
theorem PrimaryKeyPass.eq_of_holder {c : Context} {model other : String}
    (h : holder c model = tableId other) : model = other := by
  unfold holder at h
  split at h
  · exact tableId_inj h
  · have hkind := congrArg kindOfId? h
    rw [kindOfId?_datasourceId, kindOfId?_tableId] at hkind
    cases hkind

/-- **Every change keeps the keys of tables**, where models stay spared as the schema grows. -/
theorem Context.Edit.keyed {known : String → Prop} {spared : Document → String → Prop}
    {c d : Context} (hs : ∀ d d' model, Document.GrownTo d d' → spared d model → spared d' model)
    (h : Edit known (ModelPass.Ready spared) c d) (hc : c.Keyed spared) : d.Keyed spared := by
  have grown := h.grownTo
  cases h with
  | log | object | field | mark | retype => exact hc.mono rfl grown fun model => hs _ _ model grown
  | store hr h =>
    rcases ModelPass.addStore_eq h with rfl | ⟨dbType, secrets, rfl⟩
    · have tabled := hc.add (r := ModelPass.table c _) fun _ =>
        ⟨_, ModelPass.id_table c _, ModelPass.keyedTable_table hr⟩
      exact tabled.add nofun
    · refine hc.add fun hk => ?_
      rw [ModelPass.kind_relationalDatasource] at hk
      cases hk
  | supply h => exact hc.add fun hk => absurd hk (ResourceGraph.kindOfId?_of_supplies h).2.2
  | resolver typeName fieldName stack =>
    refine hc.add fun hk => ?_
    rw [ResourceGraph.kind_newResolver] at hk
    cases hk
  | decorate id hf => exact hc.modify hf.kind fun _ _ _ ht => ht.decorate hf (by decide)
  | rename =>
    exact hc.modify (Decorates.rename _).kind fun _ _ _ ht =>
      ht.decorate (Decorates.rename _) (by decide)
  | @key k h =>
    refine hc.modify (Decorates.setKey _ _).kind fun model r hid ht => ?_
    cases PrimaryKeyPass.eq_of_holder hid
    exact ht.setKey h
  | @index model list name partitionKey sortKeys hl h =>
    refine hc.modify (Decorates.pushIndex hl _).kind fun other r hid ht => ?_
    cases tableId_inj hid
    exact ht.pushIndex hl (Document.hasIndex_entry name (h ht.typed))

theorem Context.Edits.keyed {known : String → Prop} {spared : Document → String → Prop}
    {c d : Context} (hs : ∀ d d' model, Document.GrownTo d d' → spared d model → spared d' model)
    (h : Edits known (ModelPass.Ready spared) c d) (hc : c.Keyed spared) : d.Keyed spared := by
  induction h with
  | refl => exact hc
  | tail _ h ih => exact h.keyed hs ih

/-! ### The pass of keys -/

namespace PrimaryKeyPass

open PassAction

/-- A model that is to get one of some keys. -/
def Awaits (ks : List Key) (_ : Document) (model : String) : Prop := ∃ k ∈ ks, k.model = model

theorem schema_setKey (c : Context) (k : Key) : (setKey c k).schema = c.schema := by
  unfold setKey
  dsimp only
  split <;> rfl

theorem get?_setKey (c : Context) (k : Key) (id : String) : (setKey c k).resources.get? id =
    if id = holder c k.model then (c.resources.get? id).map fun r =>
      (r.set "hashKey" (.str k.partitionKey)).set "sortKeys" (.ofStrings k.sortKeys)
    else c.resources.get? id := by
  unfold setKey
  dsimp only
  split
  · rw [Context.resources_log, Context.resources_modifyResource, ResourceGraph.get?_modify]
    split
    · next he => rw [he]
    · rfl
  · next hn =>
    split
    · next he =>
      cases hr : c.resources.get? id with
      | none => rfl
      | some r => exact absurd (ResourceGraph.contains_iff_get?.2 ⟨r, he ▸ hr⟩) hn
    · rfl

theorem holder_of_get? {c : Context} {model : String} {r : Resource}
    (h : c.resources.get? (tableId model) = some r) : holder c model = tableId model :=
  if_pos (ResourceGraph.contains_iff_get?.2 ⟨r, h⟩)

/-- A model that has got its key awaits none. -/
theorem keyed_setKey {c : Context} {k : Key} {ks : List Key}
    (hk : c.schema.HasKey k.model k.partitionKey k.sortKeys) (h : c.Keyed (Awaits (k :: ks))) :
    (setKey c k).Keyed (Awaits ks) := by
  intro id r hr hkind
  rw [schema_setKey]
  rw [get?_setKey] at hr
  split at hr
  · obtain ⟨q, hq, rfl⟩ := Option.map_eq_some_iff.1 hr
    obtain ⟨model, rfl, ht⟩ := h id q hq hkind
    cases eq_of_holder (Eq.symm ‹_›)
    exact ⟨_, rfl, ht.setKey hk⟩
  · next hother =>
    obtain ⟨model, rfl, ht⟩ := h id r hr hkind
    refine ⟨model, rfl, ht.mono (.refl _) fun ⟨k', hmem, hmodel⟩ => ?_⟩
    rcases List.mem_cons.1 hmem with rfl | hmem
    · subst hmodel
      exact absurd (holder_of_get? hr).symm hother
    · exact ⟨k', hmem, hmodel⟩

theorem keyed_foldl_setKey {ks : List Key} {c : Context}
    (hk : ∀ k ∈ ks, c.schema.HasKey k.model k.partitionKey k.sortKeys)
    (h : c.Keyed (Awaits ks)) : (ks.foldl setKey c).Keyed ModelPass.NoneSpared := by
  induction ks generalizing c with
  | nil => exact h.mono rfl (.refl _) fun _ ⟨_, hmem, _⟩ => nomatch hmem
  | cons k ks ih =>
    refine ih (fun k' hmem => ?_) (keyed_setKey (hk k List.mem_cons_self) h)
    rw [schema_setKey]
    exact hk k' (List.mem_cons_of_mem k hmem)

/-- **The pass of keys settles them**: every model whose schema declares its key gets it. -/
theorem keyed_apply {s t : PassState} (h : apply.on s = (.ok (), t))
    (hs : s.context.Keyed Document.DeclaresKey) : t.context.Keyed ModelPass.NoneSpared := by
  rw [apply, on_examine_bind] at h
  split at h
  · next ks hks =>
    cases h
    exact keyed_foldl_setKey (fun k hmem => hasKey_of_keys hks hmem)
      (hs.mono rfl (.refl _) fun model hd => exists_key_of_declaresKey hks hd)
  · cases h

end PrimaryKeyPass

/-! ### Runs -/

namespace Chain

variable {args : FactoryArgs} {c : Context} {s : PassState}

/-- The pass of keys of a run that ends well, with what comes before it and behind it. -/
theorem Completes.cutKeys (h : Completes args c s) :
    ∃ t u, Context.Edits Context.AnyName (ModelPass.Ready Document.DeclaresKey) c t.context
      ∧ PrimaryKeyPass.apply.on t = (.ok (), u)
      ∧ Context.Edits Context.AnyName (ModelPass.Ready ModelPass.NoneSpared) u.context
        s.context := by
  have hsplit : builtin args = (builtin args).take 4
      ++ { pass := .primaryKey } :: (builtin args).drop 5 := rfl
  rw [Completes, hsplit, Action.forEach_append_ok] at h
  obtain ⟨t, ht, h⟩ := h
  rw [Action.forEach_cons_ok, on_apply_free] at h
  obtain ⟨u, hu, h⟩ := h
  have before := (entries_edits (fun _ he _ => builtin_edits (List.mem_of_mem_take he)
    fun _ _ => trivial) _).of_ok ht
  have behind := (entries_edits (fun _ he _ => laterPasses_edits he fun _ _ => trivial) _).of_ok h
  exact ⟨t, u, before, hu, behind⟩

theorem Completes.keyed (hc : c.resources = {}) (h : Completes args c s) :
    s.context.Keyed ModelPass.NoneSpared := by
  obtain ⟨t, u, hbefore, hkeys, hbehind⟩ := h.cutKeys
  have before : t.context.Keyed Document.DeclaresKey :=
    Context.Edits.keyed (fun _ _ _ hd hk => Document.HasField.mono hk hd) hbefore
      (Context.keyed_of_empty hc)
  exact Context.Edits.keyed (fun _ _ _ _ hn => hn) hbehind (PrimaryKeyPass.keyed_apply hkeys before)

/-- **All keys of all tables are of fields**: wherever a fresh run of the passes that every chain
starts with ends well, every table is that of a model, and its keys and those of its indexes are of
fields that some definition of the model has. -/
theorem isKeyed_of_completes (hc : c.resources = {}) (h : Completes args c s) :
    ∀ r ∈ s.context.resources.toList, r.kind = .table →
      ∃ model, r.id = tableId model ∧ r.IsKeyed s.context.schema model := by
  intro r hr hk
  have hsound := h.edits.isSound (Context.isSound_of_empty hc)
  obtain ⟨model, hid, ht⟩ := h.keyed hc r.id r (hsound.all.mem_iff.1 hr) hk
  exact ⟨model, hid, ht.isKeyed⟩

/-- All keys of a table are of fields where its model declares one, and other models an index and a
join. -/
theorem isKeyed_commentTable : taggedPosts.resources = {}
    ∧ Completes {} taggedPosts (lastState {} taggedPosts)
    ∧ ∃ r ∈ (lastState {} taggedPosts).context.resources.toList, r.kind = .table
      ∧ r.get? "hashKey" = some (.str "code")
      ∧ ∃ model, r.id = tableId model
        ∧ r.IsKeyed (lastState {} taggedPosts).context.schema model := by
  obtain ⟨hcompletes, htable⟩ := ends_taggedPosts
  obtain ⟨r, hr, htable⟩ := List.any_eq_true.1 htable
  simp only [Bool.and_eq_true, beq_iff_eq] at htable
  obtain ⟨⟨hkind, -⟩, hkey⟩ := htable
  exact ⟨rfl, hcompletes, r, hr, hkind, hkey, isKeyed_of_completes rfl hcompletes r hr hkind⟩

end Chain

end ApiCompiler
