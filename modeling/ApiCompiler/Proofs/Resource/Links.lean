import ApiCompiler.Proofs.Pass.Builtin
import ApiCompiler.Proofs.Resource.Graph
import ApiCompiler.Proofs.Resource.Ids

/-!
# Resources — what refers to what

* `Resource.Lists`: what the items of a property have.
* `IsLinked`: every reference between resources is to one that is there and of the right kind.
* `Sound`, `Paired`: the invariant behind it, with what an id says of its resource and with the
  datasource that comes with a table.
* `Context.Edits.isSound`: changes of the usual kinds keep the invariant.
* `Chain.isLinked_of_completes`: no reference dangles, whatever names the schema uses.
-/

namespace ApiCompiler

/-! ### Lists -/

namespace Resource

/-- A property which, if it is set, lists items that have a property. -/
def Lists (r : Resource) (key : String) (P : Json → Prop) : Prop :=
  ∀ v, r.get? key = some v → ∃ items, v = .arr items ∧ ∀ item ∈ items, P item

namespace Lists

variable {r r' : Resource} {key : String} {P Q : Json → Prop}

theorem mono (h : r.Lists key P) (hPQ : ∀ item, P item → Q item) : r.Lists key Q := by
  intro v hv
  obtain ⟨items, he, hP⟩ := h v hv
  exact ⟨items, he, fun item hm => hPQ item (hP item hm)⟩

theorem of_get?_eq (h : r.Lists key P) (he : r'.get? key = r.get? key) : r'.Lists key P :=
  fun v hv => h v (he.symm.trans hv)

/-- A further item is put behind those that there are. -/
theorem push (h : r.Lists key P) {value : Json} (hv : P value) :
    (r.push key value).Lists key P := by
  have pushed : ∀ items, (∀ item ∈ items, P item) → ∀ item ∈ items ++ [value], P item := by
    intro items hP item hm
    rcases List.mem_append.1 hm with hm | hm
    · exact hP item hm
    · exact List.mem_singleton.1 hm ▸ hv
  intro v hr
  unfold Resource.push at hr
  split at hr
  · next items hitems =>
    obtain ⟨items', he, hP⟩ := h (.arr items) hitems
    cases he
    rw [get?_set, if_pos rfl] at hr
    cases hr
    exact ⟨_, rfl, pushed items hP⟩
  · rw [get?_set, if_pos rfl] at hr
    cases hr
    exact ⟨_, rfl, pushed [] nofun⟩

end Lists

end Resource

/-! ### The invariant -/

namespace ResourceGraph

/-- A graph in which every reference is to a resource that is there. -/
structure IsLinked (g : ResourceGraph) : Prop where
  /-- A resolver has a datasource. -/
  resolver : ∀ r ∈ g.toList, r.kind = .resolver →
    ∃ d ∈ g.toList, d.kind = .dataSource ∧ r.get? "dataSource" = some (.str d.id)
  /-- A datasource that reads a table has the table. -/
  table : ∀ r ∈ g.toList, r.kind = .dataSource → r.get? "type" = some (.str "AMAZON_DYNAMODB") →
    ∃ t ∈ g.toList, t.kind = .table ∧ r.get? "table" = some (.str t.id)
  /-- The tables that are copied into the search domain are there. -/
  stream : ∀ r ∈ g.toList, r.id = SearchPass.streamingFunction →
    ∀ v, r.get? "sourceTables" = some v →
      ∃ items, v = .arr items ∧ ∀ j ∈ items, ∃ t ∈ g.toList, t.kind = .table ∧ j = .str t.id
  /-- A datasource that searches has the search domain. -/
  domain : ∀ r ∈ g.toList, r.get? "type" = some (.str "AMAZON_OPENSEARCH_SERVICE") →
    ∃ d ∈ g.toList, d.kind = .searchDomain ∧ r.get? "domain" = some (.str d.id)

/-- A value that is the id of a table which is there. -/
def IsTable (g : ResourceGraph) (v : Json) : Prop :=
  ∃ model, v = .str (tableId model) ∧ g.contains (tableId model) = true

/-- A resource that stands under its own id, is of the kind that the id says, and refers only to
what is there. -/
structure Sound (g : ResourceGraph) (id : String) (r : Resource) : Prop where
  id_eq      : r.id = id
  kind       : ∀ k, kindOfId? id = some k → r.kind = k
  dataSource : r.kind = .resolver →
    ∃ model, r.get? "dataSource" = some (.str (datasourceId model))
      ∧ g.contains (datasourceId model) = true
  table      : r.get? "type" = some (.str "AMAZON_DYNAMODB") →
    ∃ v, r.get? "table" = some v ∧ g.IsTable v
  sources    : ∀ v, r.get? "sourceTables" = some v →
    ∃ items, v = .arr items ∧ ∀ j ∈ items, g.IsTable j
  domain     : r.get? "type" = some (.str "AMAZON_OPENSEARCH_SERVICE") →
    r.get? "domain" = some (.str SearchPass.domainId) ∧ g.contains SearchPass.domainId = true

/-- A graph whose resources are sound. -/
def AllSound (g : ResourceGraph) : Prop := ∀ id r, g.get? id = some r → g.Sound id r

/-- A graph in which a table comes with the datasource of its name. -/
def Paired (g : ResourceGraph) : Prop :=
  ∀ model, g.contains (tableId model) = true → g.contains (datasourceId model) = true

variable {g g' : ResourceGraph}

theorem IsTable.mono (h : ∀ id, g.contains id = true → g'.contains id = true) {v : Json}
    (hv : g.IsTable v) : g'.IsTable v := by
  obtain ⟨model, he, hc⟩ := hv
  exact ⟨model, he, h _ hc⟩

theorem Sound.mono {id : String} {r : Resource} (hs : g.Sound id r)
    (h : ∀ id, g.contains id = true → g'.contains id = true) : g'.Sound id r where
  id_eq := hs.id_eq
  kind := hs.kind
  dataSource hr := by
    obtain ⟨model, hd, hc⟩ := hs.dataSource hr
    exact ⟨model, hd, h _ hc⟩
  table ht := by
    obtain ⟨v, hv, hi⟩ := hs.table ht
    exact ⟨v, hv, hi.mono h⟩
  sources := Resource.Lists.mono hs.sources fun _ hv => hv.mono h
  domain hd := ⟨(hs.domain hd).1, h _ (hs.domain hd).2⟩

/-- The properties that refer to other resources, or say that others do. -/
def references : List String := ["dataSource", "type", "table", "sourceTables", "domain"]

/-- Properties that are set later do not matter, unless they refer to something. -/
theorem Sound.decorate {id : String} {r : Resource} (hs : g.Sound id r) {keys : List String}
    {f : Resource → Resource} (hf : Decorates keys f) (hk : ∀ key ∈ references, key ∉ keys) :
    g.Sound id (f r) where
  id_eq := (hf.id r).trans hs.id_eq
  kind k hid := (hf.kind r).trans (hs.kind k hid)
  dataSource hr := by
    rw [hf.get? r _ (hk _ (by decide))]
    exact hs.dataSource ((hf.kind r).symm.trans hr)
  table ht := by
    rw [hf.get? r _ (hk _ (by decide))] at ht ⊢
    exact hs.table ht
  sources := Resource.Lists.of_get?_eq hs.sources (hf.get? r _ (hk _ (by decide)))
  domain hd := by
    rw [hf.get? r _ (hk _ (by decide))] at hd ⊢
    exact hs.domain hd

theorem contains_add_of (r : Resource) {id : String} (h : g.contains id = true) :
    (g.add r).contains id = true :=
  contains_add_iff.2 (.inr h)

theorem contains_add_self (g : ResourceGraph) (r : Resource) :
    (g.add r).contains r.id = true :=
  contains_add_iff.2 (.inl rfl)

/-- A sound resource may be put in place of any other one. -/
theorem AllSound.add (h : g.AllSound) {r : Resource} (hr : (g.add r).Sound r.id r) :
    (g.add r).AllSound := by
  intro id s hs
  rw [get?_add] at hs
  split at hs
  · next he =>
    cases hs
    exact he ▸ hr
  · exact (h id s hs).mono fun _ => contains_add_of r

theorem AllSound.modify (h : g.AllSound) (id : String) {keys : List String}
    {f : Resource → Resource} (hf : Decorates keys f) (hk : ∀ key ∈ references, key ∉ keys) :
    (g.modify id f).AllSound := by
  intro other s hs
  have hmono : ∀ id', g.contains id' = true → (g.modify id f).contains id' = true := fun id' hc =>
    by rwa [contains_modify]
  rw [get?_modify] at hs
  split at hs
  · next he =>
    obtain ⟨r, hr, rfl⟩ := Option.map_eq_some_iff.1 hs
    exact he ▸ ((h id r hr).decorate hf hk).mono hmono
  · exact (h other s hs).mono hmono

/-- Whatever is no table leaves tables with their datasources. -/
theorem Paired.add (h : g.Paired) {r : Resource} (hr : kindOfId? r.id ≠ some .table) :
    (g.add r).Paired := by
  intro model hm
  rcases contains_add_iff.1 hm with hm | hm
  · exact absurd (hm ▸ kindOfId?_tableId model) hr
  · exact contains_add_of r (h model hm)

theorem Paired.modify (h : g.Paired) (id : String) (f : Resource → Resource) :
    (g.modify id f).Paired := by
  intro model hm
  rw [contains_modify] at hm ⊢
  exact h model hm

/-! ### The resources that passes add -/

end ResourceGraph

namespace ModelPass

theorem kind_table (c : Context) (model : String) : (table c model).kind = .table := by
  unfold table
  split <;> rfl

theorem kind_relationalDatasource (c : Context) (model : String) (dbType : DbType)
    (secrets : ConnectionSecrets) :
    (relationalDatasource c model dbType secrets).kind = .dataSource := by
  unfold relationalDatasource
  split <;> rfl

end ModelPass

namespace ResourceGraph

variable {g g' : ResourceGraph}

theorem kind_of_some {id : String} {kind : ResourceKind} (h : kindOfId? id = some kind) :
    ∀ k, kindOfId? id = some k → kind = k :=
  fun _ hk => Option.some.inj (h.symm.trans hk)

theorem kind_of_none {id : String} {kind : ResourceKind} (h : kindOfId? id = none) :
    ∀ k, kindOfId? id = some k → kind = k :=
  fun _ hk => nomatch h.symm.trans hk

/-- A resource that refers to nothing. -/
theorem Sound.plain {r : Resource} (hk : ∀ k, kindOfId? r.id = some k → r.kind = k)
    (hr : r.kind ≠ .resolver)
    (ht : ∀ v, r.get? "type" = some v →
      v ≠ .str "AMAZON_DYNAMODB" ∧ v ≠ .str "AMAZON_OPENSEARCH_SERVICE")
    (hs : r.get? "sourceTables" = none) : g.Sound r.id r where
  id_eq := rfl
  kind := hk
  dataSource h := absurd h hr
  table h := absurd rfl (ht _ h).1
  sources v h := by
    rw [hs] at h
    cases h
  domain h := absurd rfl (ht _ h).2

theorem get?_bare (id : String) (kind : ResourceKind) (stack : Option String) (key : String) :
    (Resource.mk id kind ∅ stack).get? key = none := rfl

theorem kind_set (r : Resource) (key : String) (value : Json) :
    (r.set key value).kind = r.kind := rfl

theorem sound_table (g : ResourceGraph) (c : Context) (model : String) :
    g.Sound (ModelPass.table c model).id (ModelPass.table c model) := by
  refine .plain (kind_of_some ?_) ?_ ?_ ?_
  · rw [ModelPass.id_table, kindOfId?_tableId, ModelPass.kind_table]
  all_goals
    unfold ModelPass.table
    split <;> simp [Resource.get?_set, get?_bare, kind_set]

theorem sound_relationalDatasource (g : ResourceGraph) (c : Context) (model : String)
    (dbType : DbType) (secrets : ConnectionSecrets) :
    g.Sound (ModelPass.relationalDatasource c model dbType secrets).id
      (ModelPass.relationalDatasource c model dbType secrets) := by
  refine .plain (kind_of_some ?_) ?_ ?_ ?_
  · rw [ModelPass.id_relationalDatasource, kindOfId?_datasourceId,
      ModelPass.kind_relationalDatasource]
  all_goals
    unfold ModelPass.relationalDatasource
    split <;> simp [Resource.get?_set, get?_bare, kind_set]

theorem sound_tableDatasource {model : String} (h : g.contains (tableId model) = true) :
    g.Sound (ModelPass.tableDatasource model).id (ModelPass.tableDatasource model) where
  id_eq := rfl
  kind := kind_of_some (kindOfId?_datasourceId model)
  dataSource hr := by cases hr
  table _ := ⟨.str (tableId model), by simp [ModelPass.tableDatasource, Resource.get?_set],
    model, rfl, h⟩
  sources v hv := by simp [ModelPass.tableDatasource, Resource.get?_set, get?_bare] at hv
  domain hd := by simp [ModelPass.tableDatasource, Resource.get?_set] at hd

theorem streaming_decorates (models : List String) :
    Decorates ["sourceTables"] fun r =>
      models.foldl (fun r m => r.push "sourceTables" (.str (tableId m))) r := by
  induction models with
  | nil => exact .refl
  | cons m ms ih => exact ih.comp (.push (by decide) _)

theorem sound_streaming {models : List String}
    (h : ∀ m ∈ models, g.contains (tableId m) = true) :
    g.Sound (SearchPass.streaming models).id (SearchPass.streaming models) := by
  have hf := streaming_decorates models
  have sources : ∀ r : Resource, r.Lists "sourceTables" g.IsTable →
      (models.foldl (fun r m => r.push "sourceTables" (.str (tableId m))) r).Lists "sourceTables"
        g.IsTable := by
    clear hf
    induction models with
    | nil => exact fun r hr => hr
    | cons m ms ih =>
      intro r hr
      exact ih (fun m' hm' => h m' (List.mem_cons_of_mem m hm')) _
        (hr.push ⟨m, rfl, h m List.mem_cons_self⟩)
  have hid : kindOfId? (SearchPass.streaming models).id = none := by
    rw [SearchPass.streaming, hf.id]
    decide
  refine ⟨rfl, kind_of_none hid, fun hr => ?_, fun ht => ?_, sources _ nofun, fun hd => ?_⟩
  · rw [SearchPass.streaming, hf.kind] at hr
    cases hr
  · rw [SearchPass.streaming, hf.get? _ _ (by decide)] at ht
    cases ht
  · rw [SearchPass.streaming, hf.get? _ _ (by decide)] at hd
    cases hd

theorem sound_searchDatasource (h : g.contains SearchPass.domainId = true) :
    g.Sound SearchPass.datasource.id SearchPass.datasource where
  id_eq := rfl
  kind := kind_of_some (kindOfId?_datasourceId "OpenSearch")
  dataSource hr := by cases hr
  table ht := by simp [SearchPass.datasource, Resource.get?_set] at ht
  sources v hv := by simp [SearchPass.datasource, Resource.get?_set, get?_bare] at hv
  domain _ := ⟨by simp [SearchPass.datasource, Resource.get?_set], h⟩

/-- The id of a resource that a pass adds as it is says what the resource is, or nothing; neither is
a table's. -/
theorem kindOfId?_of_supplies {c : Context} {r : Resource} (h : c.Supplies r) :
    (kindOfId? r.id = some r.kind ∨ kindOfId? r.id = none)
      ∧ kindOfId? r.id ≠ some .table ∧ r.kind ≠ .table := by
  have of_some {id : String} (kind : ResourceKind) (hk : kind ≠ .table)
      (hid : kindOfId? id = some kind) : (kindOfId? id = some kind ∨ kindOfId? id = none)
        ∧ kindOfId? id ≠ some .table ∧ kind ≠ .table :=
    ⟨.inl hid, fun h => hk (Option.some.inj (hid.symm.trans h)), hk⟩
  have of_none {id : String} (kind : ResourceKind) (hk : kind ≠ .table)
      (hid : kindOfId? id = none) : (kindOfId? id = some kind ∨ kindOfId? id = none)
        ∧ kindOfId? id ≠ some .table ∧ kind ≠ .table :=
    ⟨.inr hid, fun h => Option.some_ne_none _ (h.symm.trans hid), hk⟩
  cases h with
  | function name arn =>
    refine of_some .dataSource (by decide) (?_ : kindOfId? (FunctionPass.datasource name) = _)
    rw [FunctionPass.datasource_eq]
    exact kindOfId?_datasourceId _
  | endpoint u _ => exact of_some .dataSource (by decide) (kindOfId?_datasourceId _)
  | storage bucket =>
    exact of_none .policy (by decide)
      (by decide : kindOfId? "PredictionsStorageAccess" = none)
  | recognition => exact of_some .dataSource (by decide) (kindOfId?_datasourceId "Predictions")
  | policy h =>
    obtain ⟨f, hf, rfl⟩ := AuthPass.exists_of_policy? h
    rw [hf.id, hf.kind]
    exact of_none .policy (by decide) (by decide)
  | apiKey h =>
    obtain ⟨f, hf, rfl⟩ := AuthPass.exists_of_apiKey? h
    rw [hf.id, hf.kind]
    exact of_none .apiKey (by decide) (by decide)
  | domain encrypted =>
    exact of_some .searchDomain (by decide)
      (by decide : kindOfId? SearchPass.domainId = some .searchDomain)
  | search h => exact of_some .dataSource (by decide) (kindOfId?_datasourceId "OpenSearch")
  | streaming models h =>
    rw [SearchPass.streaming, (streaming_decorates models).id, (streaming_decorates models).kind]
    exact of_none .function (by decide) (by decide)

/-- Whatever a pass adds as it is refers only to what is there. -/
theorem Sound.of_supplies {c : Context} {r : Resource} (h : c.Supplies r)
    (hg : ∀ id, c.resources.contains id = true → g.contains id = true) : g.Sound r.id r := by
  have hk : ∀ k, kindOfId? r.id = some k → r.kind = k := by
    rcases (kindOfId?_of_supplies h).1 with hid | hid
    · exact kind_of_some hid
    · exact kind_of_none hid
  cases h with
  | function name arn =>
    exact .plain hk nofun (by simp [FunctionPass.datasourceOf, Resource.get?_set])
      (by simp [FunctionPass.datasourceOf, Resource.get?_set, get?_bare])
  | endpoint u _ =>
    exact .plain hk nofun (by simp [HttpPass.datasourceOf, Resource.get?_set])
      (by simp [HttpPass.datasourceOf, Resource.get?_set, get?_bare])
  | storage bucket =>
    exact .plain hk nofun
      (by simp [PredictionsPass.storageAccess, Resource.get?_set, get?_bare])
      (by simp [PredictionsPass.storageAccess, Resource.get?_set, get?_bare])
  | recognition =>
    exact .plain hk nofun (by simp [PredictionsPass.datasource, Resource.get?_set])
      (by simp [PredictionsPass.datasource, Resource.get?_set, get?_bare])
  | policy h =>
    obtain ⟨f, hf, rfl⟩ := AuthPass.exists_of_policy? h
    rw [hf.id, hf.kind] at hk
    rw [hf.id]
    exact (Sound.plain hk nofun nofun rfl).decorate hf (by decide)
  | apiKey h =>
    obtain ⟨f, hf, rfl⟩ := AuthPass.exists_of_apiKey? h
    rw [hf.id, hf.kind] at hk
    rw [hf.id]
    exact (Sound.plain hk nofun nofun rfl).decorate hf (by decide)
  | domain encrypted =>
    exact .plain hk nofun (by simp [SearchPass.domain, Resource.get?_set, get?_bare])
      (by simp [SearchPass.domain, Resource.get?_set, get?_bare])
  | search h => exact sound_searchDatasource (hg _ h)
  | streaming models h => exact sound_streaming fun m hm => hg _ (h m hm)

theorem get?_newResolver (c : Context) (typeName fieldName datasource stack : String)
    {key : String} (hk : key ≠ "slots") :
    (c.newResolver typeName fieldName datasource stack).get? key =
      if key = "dataSource" then some (.str datasource)
      else if key = "fieldName" then some (.str fieldName)
      else if key = "typeName" then some (.str typeName)
      else none := by
  unfold Context.newResolver
  split <;> simp [Resource.get?_set, get?_bare, hk]

theorem kind_newResolver (c : Context) (typeName fieldName datasource stack : String) :
    (c.newResolver typeName fieldName datasource stack).kind = .resolver := by
  unfold Context.newResolver
  split <;> rfl

/-- A new resolver has its datasource. -/
theorem sound_newResolver (c : Context) (typeName fieldName stack : String) {model : String}
    (h : g.contains (datasourceId model) = true) :
    g.Sound (resolverId typeName fieldName)
      (c.newResolver typeName fieldName (datasourceId model) stack) := by
  refine ⟨Context.id_newResolver .., fun k hk => ?_, fun _ => ⟨model, ?_, h⟩, fun ht => ?_,
    fun v hv => ?_, fun hd => ?_⟩
  · rw [kind_newResolver]
    exact Option.some.inj ((kindOfId?_resolverId _ _).symm.trans hk)
  · rw [get?_newResolver _ _ _ _ _ (by decide), if_pos rfl]
  · simp [get?_newResolver] at ht
  · simp [get?_newResolver] at hv
  · simp [get?_newResolver] at hd

/-! ### From the invariant to the references -/

/-- In a sound graph a resource stands under its own id. -/
theorem AllSound.ownIds (h : g.AllSound) : g.OwnIds := fun id r hr => (h id r hr).id_eq

theorem AllSound.mem_iff (h : g.AllSound) {r : Resource} :
    r ∈ g.toList ↔ g.get? r.id = some r :=
  h.ownIds.mem_toList_iff

theorem AllSound.mem_ofKind_iff (h : g.AllSound) {r : Resource} {kind : ResourceKind} :
    r ∈ g.ofKind kind ↔ g.get? r.id = some r ∧ r.kind = kind := by
  rw [ofKind, List.mem_filter, h.mem_iff, beq_iff_eq]

/-- What stands under an id that says a kind is of the kind. -/
theorem AllSound.mem_ofKind_of_get? (h : g.AllSound) {id : String} {r : Resource}
    (hr : g.get? id = some r) {kind : ResourceKind} (hk : kindOfId? id = some kind) :
    r ∈ g.ofKind kind ∧ r.id = id := by
  have hs := h id r hr
  exact ⟨h.mem_ofKind_iff.2 ⟨hs.id_eq.symm ▸ hr, hs.kind kind hk⟩, hs.id_eq⟩

theorem AllSound.sound (h : g.AllSound) {r : Resource} (hr : r ∈ g.toList) : g.Sound r.id r :=
  h r.id r (h.mem_iff.1 hr)

/-- An id that is there and says a kind is that of a resource of the kind. -/
theorem AllSound.exists_of_contains (h : g.AllSound) {id : String} {k : ResourceKind}
    (hk : kindOfId? id = some k) (hc : g.contains id = true) :
    ∃ r ∈ g.toList, r.kind = k ∧ r.id = id := by
  obtain ⟨r, hr⟩ := contains_iff_get?.1 hc
  have hs := h id r hr
  exact ⟨r, h.mem_iff.2 (hs.id_eq.symm ▸ hr), hs.kind k hk, hs.id_eq⟩

theorem AllSound.table_of (h : g.AllSound) {v : Json} (hv : g.IsTable v) :
    ∃ t ∈ g.toList, t.kind = .table ∧ v = .str t.id := by
  obtain ⟨model, rfl, hc⟩ := hv
  obtain ⟨t, ht, hk, hid⟩ := h.exists_of_contains (kindOfId?_tableId model) hc
  exact ⟨t, ht, hk, hid ▸ rfl⟩

theorem AllSound.isLinked (h : g.AllSound) : g.IsLinked where
  resolver r hr hk := by
    obtain ⟨model, hd, hc⟩ := (h.sound hr).dataSource hk
    obtain ⟨d, hm, hkind, hid⟩ := h.exists_of_contains (kindOfId?_datasourceId model) hc
    exact ⟨d, hm, hkind, hid ▸ hd⟩
  table r hr _ ht := by
    obtain ⟨v, hv, hi⟩ := (h.sound hr).table ht
    obtain ⟨t, hm, hk, rfl⟩ := h.table_of hi
    exact ⟨t, hm, hk, hv⟩
  stream r hr _ v hv := by
    obtain ⟨items, he, hi⟩ := (h.sound hr).sources v hv
    exact ⟨items, he, fun j hj => h.table_of (hi j hj)⟩
  domain r hr ht := by
    obtain ⟨hd, hc⟩ := (h.sound hr).domain ht
    obtain ⟨d, hm, hk, hid⟩ := h.exists_of_contains (k := .searchDomain) (by decide) hc
    exact ⟨d, hm, hk, hid ▸ hd⟩

end ResourceGraph

/-! ### Changes keep the invariant -/

namespace Context

/-- What holds of the resources of a context whatever changes it went through. -/
structure IsSound (c : Context) : Prop where
  all    : c.resources.AllSound
  paired : c.resources.Paired

variable {known : String → Prop} {ready : Document → String → Prop} {c d : Context}

theorem isSound_of_empty (h : c.resources = {}) : c.IsSound := by
  constructor
  · intro id r hr
    rw [h] at hr
    cases hr
  · intro model hm
    rw [h] at hm
    cases hm

theorem IsSound.contains_of_isModel (h : c.IsSound) {model : String}
    (hm : c.isModel model = true) : c.resources.contains (datasourceId model) = true := by
  rw [isModel, Bool.or_eq_true] at hm
  exact hm.elim (h.paired model) id

theorem IsSound.store (h : c.IsSound) {model : String} (hd : ModelPass.addStore c model = .ok d) :
    d.IsSound := by
  rcases ModelPass.addStore_eq hd with rfl | ⟨dbType, secrets, rfl⟩
  · have htable := ResourceGraph.contains_add_self c.resources (ModelPass.table c model)
    rw [ModelPass.id_table] at htable
    constructor
    · exact (h.all.add (ResourceGraph.sound_table _ c model)).add
        (ResourceGraph.sound_tableDatasource (ResourceGraph.contains_add_of _ htable))
    · intro other hm
      -- the table is added together with its datasource
      simp only [resources_addResource, ResourceGraph.contains_add_iff, ModelPass.id_table,
        ModelPass.id_tableDatasource] at hm ⊢
      rcases hm with hm | hm | hm
      · have := (congrArg kindOfId? hm).symm.trans (kindOfId?_tableId other)
        rw [kindOfId?_datasourceId] at this
        cases this
      · exact .inl (congrArg datasourceId (tableId_inj hm))
      · exact .inr (.inr (h.paired other hm))
  · refine ⟨h.all.add (ResourceGraph.sound_relationalDatasource _ c model dbType secrets),
      h.paired.add ?_⟩
    rw [ModelPass.id_relationalDatasource, kindOfId?_datasourceId]
    decide

/-- **Every change keeps the resources sound.** -/
theorem Edit.isSound (h : Edit known ready c d) (hc : c.IsSound) : d.IsSound := by
  cases h with
  | log | object | field | mark | retype => exact ⟨hc.all, hc.paired⟩
  | store _ h => exact hc.store h
  | supply h =>
    exact ⟨hc.all.add (.of_supplies h fun _ => ResourceGraph.contains_add_of _),
      hc.paired.add (ResourceGraph.kindOfId?_of_supplies h).2.1⟩
  | resolver typeName fieldName stack hn hd =>
    obtain ⟨model, rfl, hm⟩ := hd
    have hid := id_newResolver c typeName fieldName (datasourceId model) stack
    have hds := hc.contains_of_isModel hm
    refine ⟨hc.all.add ?_, hc.paired.add ?_⟩
    · rw [hid]
      exact ResourceGraph.sound_newResolver c _ _ _ (ResourceGraph.contains_add_of _ hds)
    · rw [hid, kindOfId?_resolverId]
      decide
  | decorate id hf => exact ⟨hc.all.modify id hf (by decide), hc.paired.modify id _⟩
  | rename h =>
    exact ⟨hc.all.modify _ (Decorates.rename _) (by decide), hc.paired.modify _ _⟩
  | key h =>
    exact ⟨hc.all.modify _ (Decorates.setKey _ _) (by decide), hc.paired.modify _ _⟩
  | index name hl h =>
    exact ⟨hc.all.modify _ (Decorates.pushIndex hl _) (by decide), hc.paired.modify _ _⟩

theorem Edits.isSound (h : Edits known ready c d) (hc : c.IsSound) : d.IsSound := by
  induction h with
  | refl => exact hc
  | tail _ h ih => exact h.isSound ih

end Context

theorem Chain.Completes.isSound {args : FactoryArgs} {c : Context} {s : PassState}
    (hc : c.resources = {}) (h : Chain.Completes args c s) : s.context.IsSound :=
  h.edits.isSound (Context.isSound_of_empty hc)

/-- **No reference dangles**: wherever a fresh run of the passes that every chain starts with ends
well, every reference of its resources is to one that is there, whatever names the schema uses. -/
theorem Chain.isLinked_of_completes {args : FactoryArgs} {c : Context} {s : PassState}
    (hc : c.resources = {}) (h : Chain.Completes args c s) : s.context.resources.IsLinked :=
  (h.edits.isSound (Context.isSound_of_empty hc)).all.isLinked

/-- No reference dangles where one model is kept, guarded and searched. -/
theorem Chain.isLinked_searchablePost :
    Chain.searchablePost.resources = {}
      ∧ Chain.Completes {} Chain.searchablePost (Chain.lastState {} Chain.searchablePost)
      ∧ (Chain.lastState {} Chain.searchablePost).context.resources.IsLinked :=
  ⟨rfl, Chain.completes_searchablePost,
    Chain.isLinked_of_completes rfl Chain.completes_searchablePost⟩

end ApiCompiler
