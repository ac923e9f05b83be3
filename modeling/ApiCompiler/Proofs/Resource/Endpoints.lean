import ApiCompiler.Proofs.Chain.Order
import ApiCompiler.Proofs.Chain.Spelled
import ApiCompiler.Proofs.Pass.Address
import ApiCompiler.Proofs.Resource.Bindings

/-!
# Resources — endpoints

A field that is bound to an address has a resolver with the path, and a datasource with the origin.
The id of the datasource is made from the letters of the host, and a datasource that has the id is
left as it is; a later pass may put another one in its place.

* `ResourceGraph.endpoint?`, `ResourceGraph.Taken`: a datasource is an endpoint, or another one.
* `Edits.taken`: no change makes an endpoint of another one.
* `HttpPass.endpoint?_of_apply`, `HttpPass.path_of_apply`: the first origin and the last path count.
* `Context.Provides`, `Chain.endpoint?_of_completes`: where another pass provides the datasource, it
  is no endpoint; else it is one, and stays it.
* `Chain.calls_iff_of_completes`: the resolvers that call the address of their field.
-/

namespace ApiCompiler

open PassAction

/-! ### Datasources of endpoints -/

namespace ResourceGraph

/-- The resource of an id is that of an endpoint. -/
def HasEndpoint (g : ResourceGraph) (id : String) : Prop :=
  g.property? id "type" = some (.str "HTTP")

instance (g : ResourceGraph) (id : String) : Decidable (g.HasEndpoint id) :=
  inferInstanceAs (Decidable (_ = _))

/-- Where the endpoint of an id is, if there is one. -/
def endpoint? (g : ResourceGraph) (id : String) : Option Json :=
  if g.HasEndpoint id then g.property? id "endpoint" else none

/-- An id has a resource which is not that of an endpoint. -/
def Taken (g : ResourceGraph) (id : String) : Prop := g.contains id = true ∧ ¬ g.HasEndpoint id

variable {g : ResourceGraph} {id : String} {r : Resource}

theorem endpoint?_of_not (h : ¬ g.HasEndpoint id) : g.endpoint? id = none := if_neg h

theorem endpoint?_eq_some_iff {value : Json} : g.endpoint? id = some value ↔
    g.HasEndpoint id ∧ g.property? id "endpoint" = some value := by
  rw [endpoint?]
  split
  · next h => rw [and_iff_right h]
  · next h => exact iff_of_false (Option.some_ne_none _).symm fun he => h he.1

/-- Where an endpoint is depends on two properties of the resource. -/
theorem endpoint?_congr {g' : ResourceGraph}
    (htype : g'.property? id "type" = g.property? id "type")
    (hendpoint : g'.property? id "endpoint" = g.property? id "endpoint") :
    g'.endpoint? id = g.endpoint? id :=
  if_congr (by rw [HasEndpoint, HasEndpoint, htype]) hendpoint rfl

theorem property?_of_not_contains (h : g.contains id ≠ true) (key : String) :
    g.property? id key = none := by
  have absent : g.get? id = none :=
    Option.eq_none_iff_forall_ne_some.2 fun r hr => h (contains_iff_get?.2 ⟨r, hr⟩)
  rw [property?, absent]
  rfl

/-- A datasource that is there is left as it is, whatever endpoint it is of. -/
theorem endpoint?_ensure (hr : r.get? "type" = some (.str "HTTP"))
    (hg : g.contains id = true → (g.endpoint? id).isSome = true) :
    (g.ensure r).endpoint? id
      = (g.endpoint? id).or (if id = r.id then r.get? "endpoint" else none) := by
  unfold ensure
  by_cases he : id = r.id
  · subst he
    split
    · next hc =>
      obtain ⟨j, hj⟩ := Option.isSome_iff_exists.1 (hg hc)
      rw [hj]
      rfl
    · next hc =>
      have absent : ¬ g.HasEndpoint r.id := by
        rw [HasEndpoint, property?_of_not_contains hc]
        exact (Option.some_ne_none _).symm
      have made : (g.add r).HasEndpoint r.id := by
        rw [HasEndpoint, property?_add, if_pos rfl, hr]
      rw [endpoint?_of_not absent, endpoint?, if_pos made, if_pos rfl, property?_add, if_pos rfl,
        Option.none_or]
  · rw [if_neg he, Option.or_none]
    split
    · rfl
    · exact endpoint?_congr (by rw [property?_add, if_neg he]) (by rw [property?_add, if_neg he])

theorem hasEndpoint_add (hr : r.get? "type" ≠ some (.str "HTTP"))
    (h : (g.add r).HasEndpoint id) : g.HasEndpoint id := by
  rw [HasEndpoint, property?_add] at h
  split at h
  · exact absurd h hr
  · exact h

theorem taken_add_self (hr : r.get? "type" ≠ some (.str "HTTP")) : (g.add r).Taken r.id := by
  refine ⟨contains_add_iff.2 (.inl rfl), fun h => hr ?_⟩
  rwa [HasEndpoint, property?_add, if_pos rfl] at h

theorem Taken.add (h : g.Taken id) (hr : r.get? "type" ≠ some (.str "HTTP")) : (g.add r).Taken id :=
  ⟨contains_add_iff.2 (.inr h.1), fun hh => h.2 (hasEndpoint_add hr hh)⟩

theorem Taken.modify (h : g.Taken id) {keys : List String} {f : Resource → Resource}
    (hf : Decorates keys f) (hk : "type" ∉ keys) (other : String) :
    (g.modify other f).Taken id := by
  refine ⟨by rw [contains_modify, h.1], fun hh => h.2 ?_⟩
  rwa [HasEndpoint, property?_modify hf hk] at hh

end ResourceGraph

namespace ModelPass

theorem type_table (c : Context) (model : String) : (table c model).get? "type" = none := by
  unfold table
  split <;> simp [Resource.get?_set, ResourceGraph.get?_bare]

theorem type_tableDatasource (model : String) :
    (tableDatasource model).get? "type" = some (.str "AMAZON_DYNAMODB") := by
  simp [tableDatasource, Resource.get?_set]

theorem type_relationalDatasource (c : Context) (model : String) (dbType : DbType)
    (secrets : ConnectionSecrets) : (relationalDatasource c model dbType secrets).get? "type"
      = some (.str "RELATIONAL_DATABASE") := by
  unfold relationalDatasource
  split <;> simp [Resource.get?_set]

/-- The store of a model is no endpoint. -/
theorem taken_addStore {c d : Context} {model : String} (h : addStore c model = .ok d) :
    d.resources.Taken (datasourceId model)
      ∧ (∀ id, c.resources.Taken id → d.resources.Taken id)
      ∧ ∀ id, d.resources.HasEndpoint id → c.resources.HasEndpoint id := by
  have htable : (table c model).get? "type" ≠ some (.str "HTTP") := by
    rw [type_table]
    exact (Option.some_ne_none _).symm
  have hdata : (tableDatasource model).get? "type" ≠ some (.str "HTTP") := by
    rw [type_tableDatasource]
    decide
  rcases addStore_eq h with rfl | ⟨dbType, secrets, rfl⟩
  · exact ⟨ResourceGraph.taken_add_self (r := tableDatasource model) hdata,
      fun _ hid => (hid.add htable).add hdata, fun _ hid =>
        ResourceGraph.hasEndpoint_add htable (ResourceGraph.hasEndpoint_add hdata hid)⟩
  · have hrelational : (relationalDatasource c model dbType secrets).get? "type"
        ≠ some (.str "HTTP") := by
      rw [type_relationalDatasource]
      decide
    refine ⟨?_, fun _ hid => hid.add hrelational,
      fun _ => ResourceGraph.hasEndpoint_add hrelational⟩
    rw [← id_relationalDatasource c model dbType secrets]
    exact ResourceGraph.taken_add_self hrelational

end ModelPass

namespace Context

variable {known : String → Prop} {ready : Document → String → Prop} {c d : Context}

/-- What a pass adds as it is is no endpoint, unless it is one whose id has been free. -/
theorem Supplies.type_ne {r : Resource} (h : c.Supplies r) :
    r.get? "type" ≠ some (.str "HTTP") ∨ c.resources.contains r.id = false := by
  have bare : ∀ {keys f}, Decorates keys f → "type" ∉ keys → ∀ id kind,
      (f { id, kind }).get? "type" ≠ some (.str "HTTP") := fun hf hk id kind => by
    rw [hf.get? _ _ hk]
    exact (Option.some_ne_none _).symm
  cases h with
  | endpoint u h => exact .inr h
  | function | storage | recognition | domain | search =>
    exact .inl (by simp [FunctionPass.datasourceOf, PredictionsPass.storageAccess,
      PredictionsPass.datasource, SearchPass.domain, SearchPass.datasource, Resource.get?_set,
      ResourceGraph.get?_bare])
  | policy h =>
    obtain ⟨f, hf, rfl⟩ := AuthPass.exists_of_policy? h
    exact .inl (bare hf (by decide) _ _)
  | apiKey h =>
    obtain ⟨f, hf, rfl⟩ := AuthPass.exists_of_apiKey? h
    exact .inl (bare hf (by decide) _ _)
  | streaming models =>
    left
    rw [SearchPass.streaming, (ResourceGraph.streaming_decorates models).get? _ _ (by decide)]
    exact (Option.some_ne_none _).symm

/-- **No change makes an endpoint of what is there.** -/
theorem Edit.taken (h : Edit known ready c d) {id : String} (hc : c.resources.Taken id) :
    d.resources.Taken id := by
  cases h with
  | log | object | field | mark | retype => exact hc
  | store _ h => exact (ModelPass.taken_addStore h).2.1 id hc
  | @supply r h =>
    rcases h.type_ne with hr | hr
    · exact hc.add hr
    · have hne : id ≠ r.id := by
        rintro rfl
        exact absurd hc.1 (Bool.eq_false_iff.1 hr)
      refine ⟨ResourceGraph.contains_add_iff.2 (.inr hc.1), fun hh => hc.2 ?_⟩
      rwa [resources_addResource, ResourceGraph.HasEndpoint, ResourceGraph.property?_add,
        if_neg hne] at hh
  | resolver =>
    refine hc.add ?_
    rw [get?_newResolver_eq_none _ _ _ _ _ (by decide)]
    exact (Option.some_ne_none _).symm
  | decorate _ hf => exact hc.modify hf (by decide) _
  | rename => exact hc.modify (.rename _) (by decide) _
  | key => exact hc.modify (.setKey _ _) (by decide) _
  | index _ hl => exact hc.modify (.pushIndex hl _) (by decide) _

theorem Edits.taken (h : Edits known ready c d) {id : String} (hc : c.resources.Taken id) :
    d.resources.Taken id := by
  induction h with
  | refl => exact hc
  | tail _ h ih => exact h.taken ih

end Context

/-! ### Passes before and behind that of endpoints -/

namespace Context

/-- A pass other than that of endpoints provides a datasource, of the id that a datasource of the
model of some name has. -/
inductive Provides (c : Context) (model : String) : Prop where
  | model (h : model ∈ c.schema.namesWith "model")
  | function (h : c.Binds "function" model)
  | predictions (h : c.Binds "predictions" model)
  | join (h : c.schema.IsJoin model)
  | search (hm : model = "OpenSearch") (h : c.schema.namesWith "searchable" ≠ [])

end Context

namespace ModelPass

/-- What the pass makes models are the types that ask to be one. -/
theorem isModel_of_apply {c : Context} {t : PassState}
    (h : apply.on { context := c } = (.ok (), t)) (type : String) :
    t.context.isModel type = true ↔ c.isModel type = true ∨ type ∈ c.schema.namesWith "model" := by
  have view := first_of_apply
    (v := fun d : Context => if d.isModel type = true then some () else none)
    (n := fun model => if type = model then some () else none) (fun _ _ _ => rfl)
    (fun model s t hm => by
      obtain ⟨d, e, hd, he, ht, -⟩ := materialize_ok hm
      have operated : t.context.isModel = d.isModel := by
        rw [ht, Context.isModel_log, isModel_addOperations, isModel_addFields he]
      have stored := isModel_addStore hd type
      rw [operated, if_congr stored rfl rfl]
      by_cases he : type = model
      · rw [if_pos (.inl he), if_pos he]
        split <;> rfl
      · rw [if_congr (or_iff_right he) rfl rfl, if_neg he, Option.or_none]) h
  simpa using Bool.eq_iff_iff.1 (congrArg Option.isSome view)

/-- A model that is made makes no endpoint besides its store. -/
theorem hasEndpoint_of_addStore {model : String} {synthesized : Bool} {s t : PassState}
    (h : (materialize model synthesized).on s = (.ok (), t)) :
    ∃ c, addStore s.context model = .ok c
      ∧ ∀ id, t.context.resources.HasEndpoint id → c.resources.HasEndpoint id := by
  obtain ⟨c, d, hc, hd, ht, -⟩ := materialize_ok h
  refine ⟨c, hc, fun id hid => ?_⟩
  rwa [ht, Context.resources_log, ResourceGraph.HasEndpoint,
    same_addOperations (p := fun _ => True) (by decide) d model id trivial,
    resources_addFields hd] at hid

/-- Nor is its store one. -/
theorem taken_of_materialize {model : String} {synthesized : Bool} {s t : PassState}
    (h : (materialize model synthesized).on s = (.ok (), t)) :
    t.context.resources.Taken (datasourceId model) := by
  obtain ⟨c, hc, hendpoint⟩ := hasEndpoint_of_addStore h
  exact ⟨contains_of_materialize h, fun ht => (taken_addStore hc).1.2 (hendpoint _ ht)⟩

theorem hasEndpoint_of_apply {s t : PassState} (h : apply.on s = (.ok (), t)) {id : String}
    (ht : t.context.resources.HasEndpoint id) : s.context.resources.HasEndpoint id := by
  rw [apply, on_context_bind] at h
  obtain ⟨_, u, hu, hlog⟩ := Action.on_bind_eq_ok.1 h
  cases hlog
  refine Action.forEach_invariant (I := fun v : PassState =>
    v.context.resources.HasEndpoint id → s.context.resources.HasEndpoint id)
    (fun model _ v w hw hv he => ?_) hu (fun hs => hs) ht
  rw [materializeDeclared, on_memory_bind] at hw
  split at hw
  · cases hw
    exact hv he
  · obtain ⟨c, hc, hendpoint⟩ := hasEndpoint_of_addStore hw
    exact hv ((taken_addStore hc).2.2 id (hendpoint id he))

end ModelPass

namespace FunctionPass

theorem hasEndpoint_of_apply {functions : Dict FunctionHandle} {s t : PassState}
    (h : (apply functions).on s = (.ok (), t)) {id : String}
    (ht : t.context.resources.HasEndpoint id) : s.context.resources.HasEndpoint id := by
  rw [apply, on_examine_bind] at h
  split at h
  · cases h
    refine List.foldlRecOn (motive := fun d : Context =>
      d.resources.HasEndpoint id → s.context.resources.HasEndpoint id) _ (bind functions)
      (fun hs => hs) (fun d hd b _ he => hd ?_) ht
    obtain ⟨arn, hbind⟩ := resources_bind functions d b
    have push : Decorates ["pipelineFunctions"]
        (·.push "pipelineFunctions" (.str (functionName d b))) := .push List.mem_cons_self _
    rw [hbind, ResourceGraph.HasEndpoint, Context.same_addResolver (p := fun _ => True) push
      (by decide) (by decide) _ _ _ _ id trivial] at he
    refine ResourceGraph.hasEndpoint_add ?_ he
    rw [datasourceOf, Resource.get?_set, Resource.get?_set, if_neg (by decide), if_pos rfl]
    decide
  · cases (Prod.mk.inj h).1

end FunctionPass

/-! ### The pass of endpoints -/

namespace HttpPass

/-- The datasources that bound fields ask for, each with where the endpoint is. -/
def origins (c : Context) : List (String × String) :=
  (bound c).map fun b => (datasource b.url, b.url.origin)

/-- The resolvers that bound fields ask for, each with the path that is called. -/
def paths (c : Context) : List (String × Json) :=
  (bound c).map fun b => (resolverId b.type b.field, .str (String.ofList b.url.path))

/-- The first endpoint of a datasource that is free has it. -/
theorem endpoint?_of_apply {id : String} (hid : kindOfId? id = some .dataSource) {s t : PassState}
    (hs : s.context.resources.contains id ≠ true) (h : apply.on s = (.ok (), t)) :
    t.context.resources.endpoint? id = (Dict.findList? id (origins s.context)).map .str := by
  rw [apply, on_examine_bind] at h
  split at h
  · next bs hbs =>
    cases h
    have fresh : s.context.resources.endpoint? id = none := by
      refine ResourceGraph.endpoint?_of_not ?_
      rw [ResourceGraph.HasEndpoint, ResourceGraph.property?_of_not_contains hs]
      exact (Option.some_ne_none _).symm
    rw [origins, bound_of_bindings hbs, Dict.map_findList?_map]
    refine (foldl_first (v := fun d : Context => d.resources.endpoint? id)
      (I := fun d => d.resources.contains id = true → (d.resources.endpoint? id).isSome = true)
      (fun b _ d hd => ?_) fun hc => absurd hc hs).trans (by rw [fresh, Option.none_or])
    have same : (bind d b).resources.get? id
        = (d.resources.ensure (datasourceOf b.url)).get? id := by
      refine (Context.get?_addResolver _ _ _ _ _ _ id).trans (if_neg (ne_of_kindOfId? hid ?_))
      rw [kindOfId?_resolverId]
      decide
    have view : (bind d b).resources.endpoint? id = (d.resources.endpoint? id).or
        (if id = datasource b.url then some (.str b.url.origin) else none) :=
      (ResourceGraph.endpoint?_congr (ResourceGraph.property?_congr same _)
        (ResourceGraph.property?_congr same _)).trans
        (ResourceGraph.endpoint?_ensure (r := datasourceOf b.url) rfl hd)
    refine ⟨fun hc => ?_, view⟩
    rw [view, Option.isSome_or, Bool.or_eq_true]
    by_cases he : id = datasource b.url
    · exact .inr (by rw [if_pos he]; rfl)
    · rw [ResourceGraph.contains_iff_get?, same, ResourceGraph.get?_ensure,
        if_neg (show id ≠ (datasourceOf b.url).id from he), ← ResourceGraph.contains_iff_get?] at hc
      exact .inl (hd hc)
  · cases (Prod.mk.inj h).1

/-- The last path that a field is bound to is called. -/
theorem path_of_apply {id : String} (hid : kindOfId? id = some .resolver) {s t : PassState}
    (h : apply.on s = (.ok (), t)) :
    t.context.resources.property? id "resourcePath" = (Dict.lastIn? id (paths s.context)).or
      (s.context.resources.property? id "resourcePath") := by
  rw [apply, on_examine_bind] at h
  split at h
  · next bs hbs =>
    cases h
    rw [paths, bound_of_bindings hbs]
    refine foldl_last (I := fun _ => True)
      (v := fun d : Context => d.resources.property? id "resourcePath")
      (fun b _ d _ => ⟨trivial, ?_⟩) trivial
    have hdata : kindOfId? (datasource b.url) ≠ some .resolver := by
      rw [show datasource b.url = datasourceId _ from rfl, kindOfId?_datasourceId]
      decide
    have provided : (d.resources.ensure (datasourceOf b.url)).property? id "resourcePath"
        = d.resources.property? id "resourcePath" := by
      refine ResourceGraph.property?_congr ?_ _
      rw [ResourceGraph.get?_ensure, if_neg
        (show id ≠ (datasourceOf b.url).id from ne_of_kindOfId? hid hdata)]
    rw [bind, Context.property?_addResolver (v := .str (String.ofList b.url.path)) fun r => by
      rw [Resource.get?_set, if_pos rfl], provided]
  · cases (Prod.mk.inj h).1

end HttpPass

/-! ### Passes behind that of endpoints -/

namespace Context

theorem taken_addResolver {c : Context} {id : String} (h : c.resources.Taken id)
    {keys : List String} {f : Resource → Resource} (hf : Decorates keys f) (hk : "type" ∉ keys)
    (typeName fieldName datasource stack : String) :
    (c.addResolver typeName fieldName datasource stack f).resources.Taken id := by
  refine ⟨?_, fun he => h.2 ?_⟩
  · obtain ⟨r, hr⟩ := ResourceGraph.contains_iff_get?.1 h.1
    rw [ResourceGraph.contains_iff_get?, get?_addResolver]
    split
    · exact ⟨_, rfl⟩
    · exact ⟨r, hr⟩
  · rwa [ResourceGraph.HasEndpoint,
      same_addResolver (p := fun _ => True) hf (by decide) hk _ _ _ _ id trivial] at he

end Context

namespace PredictionsPass

theorem taken_of_apply {storage : Option Json} {s t : PassState}
    (h : (apply storage).on s = (.ok (), t)) {model : String}
    (hb : s.context.Binds "predictions" model) :
    t.context.resources.Taken (datasourceId model) := by
  rw [apply, on_examine_bind] at h
  split at h
  · next us hus =>
    obtain ⟨hne, rfl⟩ := (usages_eq_nil_iff hus).1 hb
    rw [if_neg fun he => hne (List.isEmpty_iff.1 he)] at h
    split at h
    · cases (Prod.mk.inj h).1
    · cases h
      exact List.foldlRecOn
        (motive := fun d : Context => d.resources.Taken (datasourceId "Predictions")) us bind
        (ResourceGraph.taken_add_self (r := datasource) (by decide))
        fun d hd u _ => Context.taken_addResolver hd (.set (List.mem_singleton_self "actions") _)
          (by decide) _ _ _ _
  · cases (Prod.mk.inj h).1

theorem property?_of_apply {storage : Option Json} {s t : PassState}
    (h : (apply storage).on s = (.ok (), t)) {model : String}
    (hb : ¬ s.context.Binds "predictions" model) {key : String} (hk : key ∉ resolverProperties)
    (hkey : key ∉ ["actions"]) : t.context.resources.property? (datasourceId model) key
      = s.context.resources.property? (datasourceId model) key := by
  by_cases hm : model = "Predictions"
  · rw [apply, on_examine_bind] at h
    split at h
    · next us hus =>
      have unused : us = [] := not_not.1 fun hne => hb ((usages_eq_nil_iff hus).2 ⟨hne, hm⟩)
      rw [unused] at h
      cases h
      rfl
    · cases (Prod.mk.inj h).1
  · refine (apply_leaves (p := (· = datasourceId model)) storage hk hkey ?_).of_ok h _ rfl
    simp only [List.forall_mem_cons, List.not_mem_nil, false_imp_iff, implies_true, and_true]
    refine ⟨fun he => ?_, fun he => hm (datasourceId_inj he.symm)⟩
    have := (congrArg kindOfId? he).trans (kindOfId?_datasourceId model)
    revert this
    decide

end PredictionsPass

namespace ManyToManyPass

theorem taken_of_apply {s t : PassState} (h : apply.on s = (.ok (), t)) {join : String}
    (hj : s.context.schema.IsJoin join) : t.context.resources.Taken (datasourceId join) := by
  obtain ⟨members, u, v, hv, before, behind, hl⟩ := exists_linkGroup_of_apply h hj
  obtain ⟨a, b, rfl, hlinked⟩ := linkedBy_of_linkGroup hv
  obtain ⟨w, hw, hends⟩ := hlinked.made
  have named : ∀ m ∈ [a, b], Context.AnyName m.type ∧ u.context.schema.LinksToMany m.type m.field :=
    fun m hm => ⟨trivial, hl m hm⟩
  have ends := linkEnds_edits (hj.mono before.grownTo) named hw
  have made : w.context.resources.Taken (datasourceId join) := by
    rw [ModelPass.on_addSynthesized] at hw
    split at hw
    · cases (Prod.mk.inj hw).1
    · exact ModelPass.taken_of_materialize hw
  exact behind.taken ((ends.of_ok hends).taken made)

end ManyToManyPass

namespace SearchPass

theorem taken_of_apply {s t : PassState} (h : apply.on s = (.ok (), t))
    (hs : s.context.schema.namesWith "searchable" ≠ []) :
    t.context.resources.Taken searchDatasource := by
  rw [apply, on_examine_bind] at h
  split at h
  · next ms hms =>
    rw [if_neg fun he => hs ((models_eq hms).symm.trans (List.isEmpty_iff.1 he))] at h
    cases h
    have streams : (streaming ms).get? "type" ≠ some (.str "HTTP") := by
      rw [streaming, (ResourceGraph.streaming_decorates ms).get? _ _ (by decide)]
      exact (Option.some_ne_none _).symm
    have provisioned : (provision s.context ms).resources.Taken searchDatasource :=
      (ResourceGraph.taken_add_self (r := datasource) (by decide)).add streams
    refine List.foldlRecOn (motive := fun d : Context => d.resources.Taken searchDatasource) ms
      attach provisioned fun d hd m _ => ?_
    have viewed : Decorates ["streamViewType"]
        (·.set "streamViewType" (.str "NEW_AND_OLD_IMAGES")) := .set List.mem_cons_self _
    exact Context.taken_addResolver (c := d.modifyResource (tableId m) _)
      (hd.modify viewed (by decide) _) (.set (List.mem_singleton_self "index") _) (by decide)
      _ _ _ _
  · cases (Prod.mk.inj h).1

theorem property?_of_apply {s t : PassState} (h : apply.on s = (.ok (), t)) {model : String}
    (hs : model = "OpenSearch" → s.context.schema.namesWith "searchable" = []) {key : String}
    (hk : key ∉ resolverProperties) (hkey : key ∉ ["streamViewType", "index"]) :
    t.context.resources.property? (datasourceId model) key
      = s.context.resources.property? (datasourceId model) key := by
  by_cases hm : model = "OpenSearch"
  · rw [apply, on_examine_bind] at h
    split at h
    · next ms hms =>
      rw [models_eq hms, hs hm] at h
      cases h
      rfl
    · cases (Prod.mk.inj h).1
  · have other : ∀ {id k}, kindOfId? id = k → k ≠ some .dataSource → id ≠ datasourceId model := by
      rintro id k rfl hk rfl
      exact hk (kindOfId?_datasourceId model)
    refine (apply_leaves (p := (· = datasourceId model)) hk hkey ?_).of_ok h _ rfl
    simp only [List.forall_mem_cons, List.not_mem_nil, false_imp_iff, implies_true, and_true]
    exact ⟨other rfl (by decide), fun he => hm (datasourceId_inj he.symm), other rfl (by decide)⟩

end SearchPass

/-! ### Runs -/

/-- The address that a field is bound to. -/
def FieldDefinition.url? (f : FieldDefinition) : Option String :=
  (f.directive? "http").bind fun d => (d.argument? "url").bind Value.asString?

/-- The resolver of an id calls an address: the endpoint of its datasource is where the address is,
and the rest of the address is the path that it calls. -/
def ResourceGraph.Calls (g : ResourceGraph) (id url : String) : Prop :=
  ∃ r ∈ g.ofKind .resolver, ∃ q ∈ g.ofKind .dataSource, ∃ origin path, r.id = id
    ∧ r.get? "dataSource" = some (.str q.id)
    ∧ q.get? "type" = some (.str "HTTP") ∧ q.get? "endpoint" = some (.str origin)
    ∧ HttpPass.IsOrigin origin url
    ∧ r.get? "resourcePath" = some (.str path) ∧ origin ++ path = HttpPass.fullUrl origin url

namespace ResourceGraph

/-- In a sound graph the datasource of a resolver stands under the id that some model would give
it. -/
theorem AllSound.exists_source? {g : ResourceGraph} (h : g.AllSound) {r q : Resource}
    (hr : r ∈ g.ofKind .resolver) (hq : q ∈ g.ofKind .dataSource)
    (hd : r.get? "dataSource" = some (.str q.id)) : ∃ model,
      g.source? r.id = some (.str (datasourceId model)) ∧ g.get? r.id = some r
        ∧ g.get? (datasourceId model) = some q := by
  obtain ⟨hr, hkind⟩ := h.mem_ofKind_iff.1 hr
  obtain ⟨hq, -⟩ := h.mem_ofKind_iff.1 hq
  obtain ⟨model, hmodel, -⟩ := (h _ _ hr).dataSource hkind
  have hid : q.id = datasourceId model := Json.str.inj (Option.some.inj (hd.symm.trans hmodel))
  rw [hid] at hd hq
  exact ⟨model, source?_eq_some_iff.2 ⟨r, hr, hd⟩, hr, hq⟩

/-- What is bound is a resolver, and the datasource is one. -/
theorem AllSound.mem_of_source? {g : ResourceGraph} (h : g.AllSound) {id model : String}
    (hid : kindOfId? id = some .resolver) (hs : g.source? id = some (.str (datasourceId model)))
    {q : Resource} (hq : g.get? (datasourceId model) = some q) : ∃ r ∈ g.ofKind .resolver,
      g.get? id = some r ∧ r.id = id ∧ q ∈ g.ofKind .dataSource
        ∧ r.get? "dataSource" = some (.str q.id) := by
  obtain ⟨r, hr, hd⟩ := source?_eq_some_iff.1 hs
  obtain ⟨hrmem, hrid⟩ := h.mem_ofKind_of_get? hr hid
  obtain ⟨hqmem, hqid⟩ := h.mem_ofKind_of_get? hq (kindOfId?_datasourceId model)
  exact ⟨r, hrmem, hr, hrid, hqmem, hqid.symm ▸ hd⟩

/-- A resolver calls an address where the views of it and of its datasource say so. -/
theorem AllSound.calls_iff {g : ResourceGraph} (h : g.AllSound) {id url : String}
    (hid : kindOfId? id = some .resolver) : g.Calls id url ↔
      ∃ model origin path, g.source? id = some (.str (datasourceId model))
        ∧ g.endpoint? (datasourceId model) = some (.str origin) ∧ HttpPass.IsOrigin origin url
        ∧ g.property? id "resourcePath" = some (.str path)
        ∧ origin ++ path = HttpPass.fullUrl origin url := by
  constructor
  · rintro ⟨r, hr, q, hq, origin, path, rfl, hd, hhttp, horigin, hat, hpath, hfull⟩
    obtain ⟨model, hsource, hr, hq⟩ := h.exists_source? hr hq hd
    exact ⟨model, origin, path, hsource,
      endpoint?_eq_some_iff.2 ⟨(property?_of_get? hq _).trans hhttp,
        (property?_of_get? hq _).trans horigin⟩, hat,
      (property?_of_get? hr _).trans hpath, hfull⟩
  · rintro ⟨model, origin, path, hsource, hendpoint, hat, hpath, hfull⟩
    obtain ⟨hhttp, horigin⟩ := endpoint?_eq_some_iff.1 hendpoint
    obtain ⟨q, hq, hhttp⟩ := Option.bind_eq_some_iff.1 hhttp
    obtain ⟨r, hrmem, hr, hrid, hqmem, hd⟩ := h.mem_of_source? hid hsource hq
    rw [property?_of_get? hq] at horigin
    rw [property?_of_get? hr] at hpath
    exact ⟨r, hrmem, q, hqmem, origin, path, hrid, hd, hhttp, horigin, hat, hpath, hfull⟩

end ResourceGraph

/-- Nothing that the schema asks for comes between a resolver and an address. -/
structure Context.Opens (c : Context) (id : String) (u : HttpPass.Url) : Prop where
  /-- Of the datasources that the resolver is asked to have, the one of the host comes first. -/
  source : Dict.findList? id c.attachments = some (HttpPass.datasource u)
  /-- No other pass provides a datasource of that id. -/
  free   : ∀ model, datasourceId model = HttpPass.datasource u → ¬ c.Provides model
  /-- Of the hosts that datasources of that id are asked for, this one comes first. -/
  origin : Dict.findList? (HttpPass.datasource u) (HttpPass.origins c) = some u.origin
  /-- Of the paths that the resolver is asked to call, this one comes last. -/
  path   : Dict.lastIn? id (HttpPass.paths c) = some (.str (String.ofList u.path))

namespace HttpPass

/-- Each field with the directive is bound, to the parts of its address. -/
theorem exists_binding {c : Context} {bs : List Binding} (h : bindings c = .ok bs)
    {t : TypeDefinition} {f : FieldDefinition} (hf : (t, f) ∈ c.schema.fieldsWith "http") :
    ∃ url, f.url? = some url ∧ ∃ b ∈ bs, b.type = t.name ∧ b.field = f.name
      ∧ splitUrl url.toList = some b.url := by
  rw [← map_directedFields] at hf
  obtain ⟨⟨t, f, d⟩, hd, he⟩ := List.mem_map.1 hf
  cases he
  obtain ⟨b, hb, hof⟩ := Except.exists_of_mapM h hd
  obtain ⟨htype, hfield, url, hurl, hsplit⟩ := bindingOf_eq_ok hof
  refine ⟨url, ?_, b, hb, htype, hfield, hsplit⟩
  have directed : f.directive? "http" = some d := (mem_directedFields hd).2.2
  change (f.directive? "http").bind _ = some url
  rw [directed]
  exact hurl

/-- Each address that a field is bound to is the split of one. -/
theorem exists_splitUrl {c : Context} {b : Binding} (hb : b ∈ bound c) :
    ∃ url, splitUrl url = some b.url := by
  rw [bound] at hb
  cases h : bindings c with
  | error e =>
    rw [h] at hb
    cases hb
  | ok bs =>
    rw [h] at hb
    obtain ⟨⟨t, f, d⟩, -, hof⟩ := Except.mem_of_mapM h hb
    obtain ⟨-, -, url, -, hsplit⟩ := bindingOf_eq_ok hof
    exact ⟨_, hsplit⟩

/-- An origin that is found under an id of a datasource is one of hosts that have the id. -/
theorem datasource_eq_of_origins {c : Context} {id : String} {url : List Char} {u : Url}
    (hu : splitUrl url = some u) (h : Dict.findList? id (origins c) = some u.origin) :
    id = datasource u := by
  obtain ⟨b, hb, he⟩ := List.mem_map.1 (Dict.mem_of_findList? h)
  obtain ⟨rfl, horigin⟩ := Prod.mk.inj he
  obtain ⟨url', hurl'⟩ := exists_splitUrl hb
  rw [datasource, datasource, host_eq_of_origin_eq hurl' hu horigin]

end HttpPass

namespace Chain

open Context

variable {args : FactoryArgs} {c : Context} {s t u v w : PassState}

namespace Binds

variable (h : Binds args c t u v w)
include h

/-- The types that count as models before fields are bound to endpoints. -/
theorem isModel_iff (hc : c.resources = {}) (type : String) : u.context.isModel type = true ↔
    type ∈ c.schema.namesWith "model" ∨ c.Binds "function" type := by
  have fresh : c.isModel type = false := by
    rw [Context.isModel, hc]
    rfl
  rw [FunctionPass.isModel_of_apply h.function, ModelPass.isModel_of_apply h.model, fresh,
    h.edits_model.binds_iff]
  simp

/-- There are no endpoints by then. -/
theorem not_hasEndpoint (hc : c.resources = {}) (id : String) :
    ¬ u.context.resources.HasEndpoint id := fun hid => by
  have := ModelPass.hasEndpoint_of_apply h.model (FunctionPass.hasEndpoint_of_apply h.function hid)
  rw [hc] at this
  cases this

theorem httpBindings : HttpPass.bound u.context = HttpPass.bound c := by
  rw [HttpPass.bound, HttpPass.bound, h.edits_function.httpBindings]

/-- The first endpoint of a datasource that no pass before provides has it. -/
theorem endpoint? (hc : c.resources = {}) {model : String} (hm : ¬ c.Provides model) :
    v.context.resources.endpoint? (datasourceId model)
      = (Dict.findList? (datasourceId model) (HttpPass.origins c)).map .str := by
  have free : u.context.resources.contains (datasourceId model) ≠ true := fun hcontains =>
    ((h.isModel_iff hc model).1 (Context.isModel_iff.2 (.inr hcontains))).elim
      (fun hn => hm (.model hn)) fun hb => hm (.function hb)
  rw [HttpPass.endpoint?_of_apply (kindOfId?_datasourceId model) free h.http, HttpPass.origins,
    HttpPass.origins, h.httpBindings]

/-- The last path that a field is bound to is the one that its resolver calls. -/
theorem path {id : String} (hid : kindOfId? id = some .resolver) {value : Json}
    (hv : Dict.lastIn? id (HttpPass.paths c) = some value) :
    v.context.resources.property? id "resourcePath" = some value := by
  have same : HttpPass.paths u.context = HttpPass.paths c := by
    rw [HttpPass.paths, HttpPass.paths, h.httpBindings]
  rw [HttpPass.path_of_apply hid h.http, same, hv, Option.some_or]

end Binds

/-- A datasource that another pass provides is no endpoint where a run ends well. -/
theorem taken_of_provides (hc : c.resources = {}) (h : Completes args c s)
    (hb : Binds args c t u v w)
    (hrest : (Action.forEach Entry.apply ((builtin args).drop 4)).on w = (.ok (), s))
    {model : String} (hm : c.Provides model) :
    s.context.resources.Taken (datasourceId model) := by
  have behind : Edits AnyName AnyTime w.context s.context := edits_drop hrest
  have bound : Edits AnyName AnyTime u.context w.context :=
    ((HttpPass.apply_edits _).of_ok hb.http).trans
      ((PredictionsPass.apply_edits _ _).of_ok hb.predictions)
  have sound : u.context.IsSound := hb.edits_function.isSound (isSound_of_empty hc)
  have stored (hmodel : u.context.isModel model = true) :
      s.context.resources.Taken (datasourceId model) :=
    behind.taken (bound.taken ⟨sound.contains_of_isModel hmodel, hb.not_hasEndpoint hc _⟩)
  cases hm with
  | model hn => exact stored ((hb.isModel_iff hc model).2 (.inl hn))
  | function hf => exact stored ((hb.isModel_iff hc model).2 (.inr hf))
  | predictions hp =>
    have hbinds := hb.edits_http.binds_iff.2 hp
    exact behind.taken (PredictionsPass.taken_of_apply hb.predictions hbinds)
  | join hj =>
    obtain ⟨_, _, hjoined, before, after⟩ :=
      h.exists_apply (e := { pass := .manyToMany, role := some .manyToMany })
        (by simp [builtin]) rfl
    exact after.taken (ManyToManyPass.taken_of_apply hjoined (hj.mono before.grownTo))
  | search hname hs =>
    obtain ⟨_, _, hsearched, before, after⟩ :=
      h.exists_apply (e := { pass := .searchable }) (by simp [builtin]) rfl
    rw [← before.namesWith (by decide)] at hs
    subst hname
    exact after.taken (SearchPass.taken_of_apply hsearched hs)

/-- A datasource that no other pass provides stays the endpoint that it is. -/
theorem property?_of_not_provides (hb : Binds args c t u v w)
    (hrest : (Action.forEach Entry.apply ((builtin args).drop 4)).on w = (.ok (), s))
    {model : String} (hm : ¬ c.Provides model) {key : String} (hk : key ∈ ["type", "endpoint"]) :
    s.context.resources.property? (datasourceId model) key
      = v.context.resources.property? (datasourceId model) key := by
  have made : key ∉ resolverProperties :=
    (by decide : ∀ key ∈ ["type", "endpoint"], key ∉ resolverProperties) key hk
  have unchanged : ∀ name ∈ builtinNames.drop 3, key ∉ changed name := fun name hname =>
    (by decide : ∀ name ∈ builtinNames.drop 3, ∀ key ∈ ["type", "endpoint"], key ∉ changed name)
      name hname key hk
  have recognized := PredictionsPass.property?_of_apply hb.predictions
    (fun hp => hm (.predictions (hb.edits_http.binds_iff.1 hp))) made
    (unchanged "predictions" (by decide))
  rw [← recognized]
  refine (Action.forEach_invariant (I := fun x : PassState => Edits AnyName AnyTime c x.context
    ∧ x.context.resources.property? (datasourceId model) key
      = w.context.resources.property? (datasourceId model) key)
    (fun e he x y hy hx => ?_) hrest ⟨hb.edits, rfl⟩).2
  have hmem := List.mem_of_mem_drop he
  have hpass := on_pass_of_apply hy
  have edits : EditsAt AnyName _ e.pass.apply x := builtin_edits hmem fun _ _ => trivial
  refine ⟨hx.1.trans ((edits.of_ok hpass).mono (fun _ => id) fun _ _ _ => trivial), ?_⟩
  rw [← hx.2]
  have kept (hkind : ResourceKind.dataSource ∉ supplied e.pass.name) :
      y.context.resources.property? (datasourceId model) key
        = x.context.resources.property? (datasourceId model) key := by
    have hname : e.pass.name ∈ builtinNames.drop 3 :=
      List.mem_of_mem_drop (i := 1) (name_mem_drop he)
    exact (builtin_leaves hmem made (unchanged _ hname) hkind).of_ok hpass _
      (kindOfId?_datasourceId model)
  simp only [builtin, List.drop_succ_cons, List.drop_zero, List.mem_cons, List.not_mem_nil,
    or_false] at he
  rcases he with rfl | rfl | rfl | rfl | rfl | rfl | rfl | rfl | rfl | rfl
  · exact kept (by decide)
  · exact kept (by decide)
  · exact kept (by decide)
  · exact kept (by decide)
  · have joined : SameProperty (· = datasourceId model) key x (ManyToManyPass.apply.on x).2 := by
      exact ManyToManyPass.apply_leaves made (unchanged "manyToMany" (by decide)) fun join hj =>
        ⟨tableId_ne_datasourceId join model,
          fun he => hm (.join (datasourceId_inj he ▸ hj.of_grownTo hx.1.grownTo))⟩
    rw [show ManyToManyPass.apply.on x = (.ok (), y) from hpass] at joined
    exact joined _ rfl
  · exact kept (by decide)
  · exact kept (by decide)
  · exact kept (by decide : _ ∉ supplied "auth")
  · exact kept (by decide)
  · refine SearchPass.property?_of_apply hpass (fun hname => ?_) made
      (unchanged "searchable" (by decide))
    rw [hx.1.namesWith (by decide)]
    by_contra hs
    exact hm (.search hname hs)

/-- The endpoint of a datasource where a run ends well: none where another pass provides it, else
the first one that a field is bound to. -/
theorem endpoint?_of_completes (hc : c.resources = {}) (h : Completes args c s)
    (model : String) : (c.Provides model → s.context.resources.Taken (datasourceId model))
      ∧ (¬ c.Provides model → s.context.resources.endpoint? (datasourceId model)
        = (Dict.findList? (datasourceId model) (HttpPass.origins c)).map .str) := by
  obtain ⟨t, u, v, w, hb, hrest⟩ := h.cutBound
  refine ⟨taken_of_provides hc h hb hrest, fun hm => ?_⟩
  rw [← hb.endpoint? hc hm]
  exact ResourceGraph.endpoint?_congr (property?_of_not_provides hb hrest hm (by decide))
    (property?_of_not_provides hb hrest hm (by decide))

/-- What the resolver of a bound field has where a run ends well: the datasource that it is first
asked to have, and the path that it is last asked to call. -/
theorem resolver_of_completes (hc : c.resources = {}) (h : Completes args c s)
    {b : HttpPass.Binding} (hbound : b ∈ HttpPass.bound c) : ∃ datasource path,
      Dict.findList? (resolverId b.type b.field) c.attachments = some datasource
      ∧ Dict.lastIn? (resolverId b.type b.field) (HttpPass.paths c) = some path
      ∧ s.context.resources.source? (resolverId b.type b.field) = some (.str datasource)
      ∧ s.context.resources.property? (resolverId b.type b.field) "resourcePath" = some path := by
  obtain ⟨t, u, v, w, hb, hrest⟩ := h.cutBound
  have hid : kindOfId? (resolverId b.type b.field) = some .resolver := kindOfId?_resolverId _ _
  have attached : resolverId b.type b.field ∈ c.attachments.map (·.1) := by
    rw [attachments, List.map_append, List.map_append, HttpPass.attachments, List.map_map]
    exact List.mem_append_left _ (List.mem_append_right _ (List.mem_map.2 ⟨b, hbound, rfl⟩))
  have called : resolverId b.type b.field ∈ (HttpPass.paths c).map (·.1) := by
    rw [HttpPass.paths, List.map_map]
    exact List.mem_map.2 ⟨b, hbound, rfl⟩
  obtain ⟨datasource, hd, hsource⟩ := h.source? hc hid attached
  obtain ⟨path, hp⟩ := Dict.exists_lastIn? called
  refine ⟨datasource, path, hd, hp, hsource, ?_⟩
  have hrest3 : (Action.forEach Entry.apply ((builtin args).drop 3)).on v = (.ok (), s) :=
    Action.forEach_cons_ok.2 ⟨w, hb.predictions, hrest⟩
  have names : ∀ name ∈ builtinNames.drop 3, "resourcePath" ∉ changed name
      ∧ ResourceKind.resolver ∉ supplied name := by decide
  have leaves : Leaves (OfKind .resolver) "resourcePath"
      (Action.forEach Entry.apply ((builtin args).drop 3)) := by
    refine entries_leave fun e he => ?_
    have hname := names _ (name_mem_drop he)
    exact builtin_leaves (List.mem_of_mem_drop he) (by decide) hname.1 hname.2
  rw [leaves.of_ok hrest3 _ hid]
  exact hb.path hid hp

/-- **Which resolvers call their own address**: where a fresh run of the passes that every chain
starts with ends well, the resolver of a field that is bound to an endpoint calls the address of the
field exactly where nothing that the schema asks for comes between the two. -/
theorem calls_iff_of_completes (hc : c.resources = {}) (h : Completes args c s)
    {type : TypeDefinition} {f : FieldDefinition} (hf : (type, f) ∈ c.schema.fieldsWith "http") :
    ∃ url u, f.url? = some url ∧ HttpPass.splitUrl url.toList = some u
      ∧ (s.context.resources.Calls (resolverId type.name f.name) url
        ↔ c.Opens (resolverId type.name f.name) u) := by
  obtain ⟨t, u, v, w, hb, -⟩ := h.cutBound
  obtain ⟨bs, hbs⟩ : ∃ bs, HttpPass.bindings c = .ok bs := by
    have hhttp := hb.http
    rw [HttpPass.apply, on_examine_bind, hb.edits_function.httpBindings] at hhttp
    split at hhttp
    · exact ⟨_, ‹_›⟩
    · cases (Prod.mk.inj hhttp).1
  obtain ⟨url, hurl, b, hbound, htype, hfield, hsplit⟩ := HttpPass.exists_binding hbs hf
  obtain ⟨datasource, path, hdatasource, hpath, hsource, hcalled⟩ :=
    resolver_of_completes hc h (b := b) (HttpPass.bound_of_bindings hbs ▸ hbound)
  rw [htype, hfield] at hdatasource hpath hsource hcalled
  refine ⟨url, b.url, hurl, hsplit, ?_⟩
  rw [(h.isSound hc).all.calls_iff (kindOfId?_resolverId _ _)]
  constructor
  · rintro ⟨model, origin, p, hd, endpoint, hat, hp, hfull⟩
    obtain rfl : datasource = datasourceId model :=
      Json.str.inj (Option.some.inj (hsource.symm.trans hd))
    obtain ⟨taken, first⟩ := endpoint?_of_completes hc h model
    have free : ¬ c.Provides model := fun hm => by
      rw [ResourceGraph.endpoint?_of_not (taken hm).2] at endpoint
      cases endpoint
    have found := first free
    rw [endpoint, eq_comm, Option.map_eq_some_iff] at found
    obtain ⟨_, found, he⟩ := found
    cases he
    -- the datasource is that of the host, since the origin is that of the address
    obtain ⟨u', hu', rfl⟩ := HttpPass.isOrigin_iff.1 hat
    obtain rfl := Option.some.inj (hsplit.symm.trans hu')
    have host := HttpPass.datasource_eq_of_origins hsplit found
    rw [← HttpPass.origin_append_path hsplit] at hfull
    refine ⟨host ▸ hdatasource, fun other ho hm => ?_, host ▸ found, ?_⟩
    · rw [datasourceId_inj (ho.trans host.symm)] at hm
      exact free hm
    · rw [hpath, ← hcalled, hp, (String.append_right_inj _).1 hfull]
  · rintro ⟨hfirst, hfree, horigin, hlast⟩
    obtain rfl := Option.some.inj (hdatasource.symm.trans hfirst)
    obtain rfl := Option.some.inj (hpath.symm.trans hlast)
    have endpoint := (endpoint?_of_completes hc h _).2 (hfree _ rfl)
    rw [show datasourceId _ = HttpPass.datasource b.url from rfl, horigin] at endpoint
    exact ⟨_, _, _, hsource, endpoint, HttpPass.isOrigin_iff.2 ⟨_, hsplit, rfl⟩, hcalled,
      HttpPass.origin_append_path hsplit⟩

/-- A field that is bound to an address. -/
def boundField (name url : String) : FieldDefinition where
  name       := name
  type       := .named "String"
  directives := [⟨"http", [("url", .string url)]⟩]

/-- A type with two fields that are bound to addresses. -/
def boundQuery (first second : String) : TypeDefinition where
  kind   := .object
  name   := "Query"
  fields := [boundField "first" first, boundField "second" second]

/-- A schema with two fields that are bound to paths of one host. -/
def sharedHost : Context where
  schema := ⟨[boundQuery "https://api.test/x" "https://api.test"]⟩

/-- The second of two paths is called. -/
theorem calls_iff_sharedHost : sharedHost.resources = {}
    ∧ Completes {} sharedHost (lastState {} sharedHost)
    ∧ (boundQuery "https://api.test/x" "https://api.test", boundField "second" "https://api.test")
      ∈ sharedHost.schema.fieldsWith "http"
    ∧ ∃ url u, (boundField "second" "https://api.test").url? = some url
      ∧ HttpPass.splitUrl url.toList = some u
      ∧ ((lastState {} sharedHost).context.resources.Calls (resolverId "Query" "second") url
        ↔ sharedHost.Opens (resolverId "Query" "second") u) := by
  have completes := (completes_of_endsWell (p := fun _ => true)
    (by decide +kernel : endsWell {} sharedHost _ = true)).1
  have bound : (boundQuery "https://api.test/x" "https://api.test",
      boundField "second" "https://api.test") ∈ sharedHost.schema.fieldsWith "http" := by
    decide +kernel
  have called := calls_iff_of_completes rfl completes bound
  exact ⟨rfl, completes, bound, called⟩

/-- A schema with two fields that are bound to hosts of the same letters. -/
def spelledHosts : Context where
  schema := ⟨[boundQuery "https://a-b.com/x" "https://ab.com/y"]⟩

/-- The second of two hosts of the same letters is not called, by a field that has no other
directive. -/
theorem not_calls_spelledHosts : spelledHosts.resources = {}
    ∧ Completes {} spelledHosts (lastState {} spelledHosts)
    ∧ ¬ ∀ p ∈ spelledHosts.schema.fieldsWith "http", (∀ d ∈ p.2.directives, d.name = "http") →
      ∃ url, p.2.url? = some url ∧
        (lastState {} spelledHosts).context.resources.Calls (resolverId p.1.name p.2.name) url := by
  have run := completes_of_endsWell (p := fun s => (s.context.resources.ofKind .dataSource).all
    fun q => q.get? "endpoint" = some (.str "https://a-b.com"))
    (by decide +kernel : endsWell {} spelledHosts _ = true)
  refine ⟨rfl, run.1, fun h => ?_⟩
  have bound : (boundQuery "https://a-b.com/x" "https://ab.com/y",
      boundField "second" "https://ab.com/y") ∈ spelledHosts.schema.fieldsWith "http" := by
    decide +kernel
  obtain ⟨url, hurl, r, -, q, hq, origin, path, -, -, -, horigin, hat, -⟩ :=
    h _ bound (by decide +kernel)
  cases hurl
  -- the only endpoint is at the first host
  have first := of_decide_eq_true (List.all_eq_true.1 run.2 q hq)
  obtain rfl : origin = "https://a-b.com" :=
    Json.str.inj (Option.some.inj (horigin.symm.trans first))
  obtain ⟨u, hu, horigin⟩ := HttpPass.isOrigin_iff.1 hat
  have second : (HttpPass.splitUrl "https://ab.com/y".toList).map HttpPass.Url.origin
      = some "https://ab.com" := by decide +kernel
  rw [hu, Option.map_some, horigin] at second
  revert second
  decide

end Chain

end ApiCompiler
