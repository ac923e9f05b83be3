import ApiCompiler.Proofs.Resource.Endpoints
import ApiCompiler.Proofs.Resource.Materialized

/-!
# Resources — functions

A field that is bound to a function has a resolver, and a datasource with the address of the
function. The id of the datasource is made from the name of the function, without its hyphens and
with a large first letter, and the datasource takes the place of what has the id.

* `ResourceGraph.Invokes`: a resolver whose datasource has the address of a function.
* `ModelPass.lacks_of_apply`, `ManyToManyPass.lacks_of_apply`: stores of models have no address.
* `FunctionPass.functionArn_of_apply`: the last function of a datasource counts.
* `FunctionPass.keeps_iff_of_apply`: what the pass keeps is what no bound field asks for.
* `Chain.functionArn_of_completes`: behind the pass, only join models put datasources away.
* `Chain.invokes_iff_of_completes`: the resolvers that invoke the function of their field, and when
  the resources of models are kept.
-/

namespace ApiCompiler

open PassAction

/-! ### Addresses of functions -/

namespace ResourceGraph

/-- The resolver of an id invokes the function at an address, which its datasource has. -/
def Invokes (g : ResourceGraph) (id arn : String) : Prop :=
  ∃ r ∈ g.ofKind .resolver, ∃ q ∈ g.ofKind .dataSource, r.id = id
    ∧ r.get? "dataSource" = some (.str q.id) ∧ q.get? "functionArn" = some (.str arn)

/-- A resolver invokes a function where the views of it and of its datasource say so. -/
theorem AllSound.invokes_iff {g : ResourceGraph} (h : g.AllSound) {id arn : String}
    (hid : kindOfId? id = some .resolver) : g.Invokes id arn ↔
      ∃ model, g.source? id = some (.str (datasourceId model))
        ∧ g.property? (datasourceId model) "functionArn" = some (.str arn) := by
  constructor
  · rintro ⟨r, hr, q, hq, rfl, hd, harn⟩
    obtain ⟨model, hsource, -, hq⟩ := h.exists_source? hr hq hd
    exact ⟨model, hsource, (property?_of_get? hq _).trans harn⟩
  · rintro ⟨model, hsource, harn⟩
    obtain ⟨q, hq, harn⟩ := Option.bind_eq_some_iff.1 harn
    obtain ⟨r, hr, -, hid, hqmem, hd⟩ := h.mem_of_source? hid hsource hq
    exact ⟨r, hr, q, hqmem, hid, hd, harn⟩

/-- What lacks a property goes on to lack it. -/
def Lacks (key : String) (g g' : ResourceGraph) : Prop :=
  ∀ id, g.property? id key = none → g'.property? id key = none

variable {g g' g'' : ResourceGraph} {key : String} {r : Resource}

theorem Lacks.refl (key : String) (g : ResourceGraph) : g.Lacks key g := fun _ h => h

theorem Lacks.trans (h : g.Lacks key g') (h' : g'.Lacks key g'') : g.Lacks key g'' :=
  fun id hid => h' id (h id hid)

theorem Same.lacks (h : g.Same (fun _ => True) key g') : g.Lacks key g' := fun id hid =>
  (h id trivial).trans hid

theorem lacks_add (hr : r.get? key = none) : g.Lacks key (g.add r) := fun id hid => by
  rw [property?_add]
  split
  · exact hr
  · exact hid

/-- A resource that lacks a property and takes no other one's place changes nothing of it. -/
theorem same_ensure_of_lacks (hr : r.get? key = none) (p : String → Prop) :
    g.Same p key (g.ensure r) := fun id _ => by
  unfold ensure
  split
  · rfl
  · next hc =>
    rw [property?_add]
    split
    · next he => rw [he, hr, property?_of_not_contains hc]
    · rfl

end ResourceGraph

/-! ### Stores -/

namespace ModelPass

variable {key : String}

/-- The properties of the stores of models. -/
def storeProperties : List String :=
  ["type", "engine", "secrets", "vpc", "tableName", "hashKey", "billingMode",
    "globalSecondaryIndexes", "conflictDetection", "table"]

theorem lacks_store (hs : key ∉ storeProperties) (c : Context) (model : String) :
    (table c model).get? key = none ∧ (tableDatasource model).get? key = none
      ∧ ∀ dbType secrets, (relationalDatasource c model dbType secrets).get? key = none := by
  simp only [storeProperties, List.mem_cons, List.not_mem_nil, or_false, not_or] at hs
  obtain ⟨htype, hengine, hsecrets, hvpc, hname, hkey, hbilling, hlist, hconflict, htable⟩ := hs
  refine ⟨?_, ?_, fun dbType secrets => ?_⟩
  · unfold table
    split <;> simp [Resource.get?_set, ResourceGraph.get?_bare, *]
  · simp [tableDatasource, Resource.get?_set, ResourceGraph.get?_bare, *]
  · unfold relationalDatasource
    split <;> simp [Resource.get?_set, ResourceGraph.get?_bare, *]

/-- The store of a model has its own properties only. -/
theorem lacks_addStore (hs : key ∉ storeProperties) {c d : Context} {model : String}
    (h : addStore c model = .ok d) : d.resources.property? (datasourceId model) key = none
      ∧ c.resources.Lacks key d.resources := by
  obtain ⟨htable, hdata, hrelational⟩ := lacks_store hs c model
  rcases addStore_eq h with rfl | ⟨dbType, secrets, rfl⟩
  · exact ⟨by rw [Context.resources_addResource, ResourceGraph.property?_add,
      id_tableDatasource, if_pos rfl, hdata],
      (ResourceGraph.lacks_add htable).trans (ResourceGraph.lacks_add hdata)⟩
  · exact ⟨by rw [Context.resources_addResource, ResourceGraph.property?_add,
      id_relationalDatasource, if_pos rfl, hrelational],
      ResourceGraph.lacks_add (hrelational dbType secrets)⟩

theorem lacks_of_materialize (hk : key ∉ resolverProperties) (hs : key ∉ storeProperties)
    {model : String} {synthesized : Bool} {s t : PassState}
    (h : (materialize model synthesized).on s = (.ok (), t)) :
    t.context.resources.property? (datasourceId model) key = none
      ∧ s.context.resources.Lacks key t.context.resources := by
  obtain ⟨c, d, hc, hd, ht, -⟩ := materialize_ok h
  obtain ⟨hown, hlacks⟩ := lacks_addStore hs hc
  have operated : c.resources.Same (fun _ => True) key t.context.resources := by
    rw [ht, Context.resources_log, ← resources_addFields hd]
    exact same_addOperations hk d model
  exact ⟨operated.lacks _ hown, hlacks.trans operated.lacks⟩

/-- The resources that the pass makes have nothing but what stores and resolvers have. -/
theorem lacks_of_apply (hk : key ∉ resolverProperties) (hs : key ∉ storeProperties)
    {s t : PassState} (h : apply.on s = (.ok (), t)) :
    s.context.resources.Lacks key t.context.resources := by
  rw [apply, on_context_bind] at h
  obtain ⟨_, u, hu, hlog⟩ := Action.on_bind_eq_ok.1 h
  cases hlog
  have made : s.context.resources.Lacks key u.context.resources := by
    refine Action.forEach_invariant (I := fun v : PassState =>
      s.context.resources.Lacks key v.context.resources) (fun model _ v w hw hv => ?_) hu
      (.refl _ _)
    rw [materializeDeclared, on_memory_bind] at hw
    split at hw
    · cases hw
      exact hv
    · exact hv.trans (lacks_of_materialize hk hs hw).2
  exact made

end ModelPass

namespace ManyToManyPass

variable {key join : String} {s t : PassState}

theorem lacks_of_linkGroup (hk : key ∉ resolverProperties) (hs : key ∉ ModelPass.storeProperties)
    (hkey : key ∉ "relation" :: indexLists) {members : List Member}
    (h : (linkGroup join members).on s = (.ok (), t)) :
    t.context.resources.property? (datasourceId join) key = none
      ∧ s.context.resources.Lacks key t.context.resources := by
  obtain ⟨a, b, -, hl⟩ := linkedBy_of_linkGroup h
  obtain ⟨u, hu, hends⟩ := hl.made
  have linked : u.context.resources.Same (fun _ => True) key t.context.resources :=
    (linkEnds_leaves hk hkey join a b).of_ok hends
  rw [ModelPass.on_addSynthesized] at hu
  split at hu
  · cases (Prod.mk.inj hu).1
  · obtain ⟨hown, hlacks⟩ := ModelPass.lacks_of_materialize hk hs hu
    exact ⟨linked.lacks _ hown, hlacks.trans linked.lacks⟩

/-- A join model puts its store in the place of what has the id of its datasource. -/
theorem lacks_of_apply (hk : key ∉ resolverProperties) (hs : key ∉ ModelPass.storeProperties)
    (hkey : key ∉ "relation" :: indexLists) (h : apply.on s = (.ok (), t))
    (hj : s.context.schema.IsJoin join) :
    t.context.resources.property? (datasourceId join) key = none := by
  rw [apply, on_examine_bind] at h
  split at h
  · next g hg =>
    obtain ⟨members, hm⟩ := exists_group hg hj
    obtain ⟨xs, ys, hsplit⟩ := List.append_of_mem hm
    rw [hsplit] at h
    obtain ⟨u, -, h⟩ := Action.forEach_append_ok.1 h
    obtain ⟨v, hv, h⟩ := Action.forEach_cons_ok.1 h
    have made := (lacks_of_linkGroup hk hs hkey hv).1
    exact Action.forEach_invariant (I := fun w : PassState =>
      w.context.resources.property? (datasourceId join) key = none)
      (fun p _ w x hx hw => (lacks_of_linkGroup hk hs hkey hx).2 _ hw) h made
  · cases (Prod.mk.inj h).1

end ManyToManyPass

/-! ### The pass of functions -/

namespace FunctionPass

variable {functions : Dict FunctionHandle} {s t : PassState} {id : String}

/-- The datasources that bound fields ask for, each with the address of the function. -/
def addresses (functions : Dict FunctionHandle) (c : Context) : List (String × Json) :=
  (bound c).map fun b => (datasource (functionName c b), .str (address functions c b))

/-- What is bound later has the same names and the same addresses. -/
theorem settings_bind (functions : Dict FunctionHandle) (c : Context) (b : Binding) :
    functionName (bind functions c b) = functionName c
      ∧ address functions (bind functions c b) = address functions c := by
  unfold bind
  dsimp only
  split <;> exact ⟨rfl, rfl⟩

/-- The last function that a datasource is asked for has it. -/
theorem functionArn_of_apply (h : (apply functions).on s = (.ok (), t)) (id : String) :
    t.context.resources.property? id "functionArn"
      = (Dict.lastIn? id (addresses functions s.context)).or
        (s.context.resources.property? id "functionArn") := by
  rw [apply, on_examine_bind] at h
  split at h
  · next bs hbs =>
    cases h
    rw [addresses, bound_of_bindings hbs]
    refine foldl_last (v := fun d : Context => d.resources.property? id "functionArn")
      (I := fun d => functionName d = functionName s.context
        ∧ address functions d = address functions s.context)
      (fun b _ d hd => ?_) ⟨rfl, rfl⟩
    obtain ⟨hname, harn⟩ := settings_bind functions d b
    refine ⟨⟨hname.trans hd.1, harn.trans hd.2⟩, ?_⟩
    have push : Decorates ["pipelineFunctions"]
        (·.push "pipelineFunctions" (.str (functionName d b))) := .push List.mem_cons_self _
    rw [resources_bind_eq, Context.same_addResolver (p := fun _ => True) push (by decide)
      (by decide) _ _ _ _ id trivial, Context.resources_addResource, ResourceGraph.property?_add,
      hd.1, hd.2, datasourceOf, Resource.get?_set, if_pos rfl]
    exact if_congr eq_comm rfl rfl
  · cases (Prod.mk.inj h).1

/-- The resolvers of bound fields list functions. -/
theorem isSome_pipelineFunctions_iff (h : (apply functions).on s = (.ok (), t))
    (hid : kindOfId? id = some .resolver) :
    (t.context.resources.property? id "pipelineFunctions").isSome = true
      ↔ (∃ b ∈ bound s.context, id = resolverId b.type b.field)
        ∨ (s.context.resources.property? id "pipelineFunctions").isSome = true := by
  rw [apply, on_examine_bind] at h
  split at h
  · next bs hbs =>
    cases h
    rw [bound_of_bindings hbs]
    refine foldl_or (v := fun d : Context =>
      (d.resources.property? id "pipelineFunctions").isSome = true) (fun d b => ?_) bs s.context
    have hdata : kindOfId? (datasource (functionName d b)) ≠ some .resolver := by
      rw [datasource_eq, kindOfId?_datasourceId]
      decide
    rw [resources_bind_eq, ResourceGraph.property?, Context.get?_addResolver]
    by_cases he : id = resolverId b.type b.field
    · rw [if_pos he, Option.bind_some, Resource.push]
      split <;> simp [Resource.get?_set, he]
    · rw [if_neg he, Context.resources_addResource, ResourceGraph.get?_add,
        if_neg (show id ≠ (datasourceOf _ _).id from ne_of_kindOfId? hid hdata),
        ← ResourceGraph.property?, or_iff_right he]
  · cases (Prod.mk.inj h).1

/-- The resources that a bound field asks for. -/
def asked (c : Context) (b : Binding) : List String :=
  [resolverId b.type b.field, datasource (functionName c b)]

/-- A resource that no bound field asks for is kept as it is. -/
theorem get?_of_apply (h : (apply functions).on s = (.ok (), t))
    (hid : ∀ b ∈ bound s.context, id ∉ asked s.context b) :
    t.context.resources.get? id = s.context.resources.get? id := by
  rw [apply, on_examine_bind] at h
  split at h
  · next bs hbs =>
    cases h
    rw [bound_of_bindings hbs] at hid
    refine (List.foldlRecOn (motive := fun d : Context => functionName d = functionName s.context
      ∧ d.resources.get? id = s.context.resources.get? id) bs (bind functions) ⟨rfl, rfl⟩
      fun d hd b hb => ?_).2
    have other := hid b hb
    rw [asked, ← hd.1] at other
    simp only [List.mem_cons, List.not_mem_nil, or_false, not_or] at other
    refine ⟨(settings_bind functions d b).1.trans hd.1, ?_⟩
    rw [resources_bind_eq, Context.get?_addResolver, if_neg other.1, Context.resources_addResource,
      ResourceGraph.get?_add, if_neg (show id ≠ (datasourceOf _ _).id from other.2), hd.2]
  · cases (Prod.mk.inj h).1

/-- Where nothing is bound to a function before, the pass keeps all resources as they are exactly
where no bound field asks for one of them. -/
theorem keeps_iff_of_apply (h : (apply functions).on s = (.ok (), t))
    (harn : ∀ id, s.context.resources.property? id "functionArn" = none)
    (hlist : ∀ id, s.context.resources.property? id "pipelineFunctions" = none) :
    (∀ id r, s.context.resources.get? id = some r → t.context.resources.get? id = some r) ↔
      ∀ b ∈ bound s.context, ∀ id ∈ asked s.context b,
        ¬ s.context.resources.contains id = true := by
  constructor
  · intro hkeep b hb id hid hc
    obtain ⟨r, hr⟩ := ResourceGraph.contains_iff_get?.1 hc
    have same : ∀ key, t.context.resources.property? id key
        = s.context.resources.property? id key := fun key =>
      ResourceGraph.property?_congr ((hkeep id r hr).trans hr.symm) key
    simp only [asked, List.mem_cons, List.not_mem_nil, or_false] at hid
    rcases hid with rfl | rfl
    · have listed := (isSome_pipelineFunctions_iff h (kindOfId?_resolverId _ _)).2
        (.inl ⟨b, hb, rfl⟩)
      rw [same, hlist] at listed
      cases listed
    · have has := functionArn_of_apply h (datasource (functionName s.context b))
      rw [same, harn, Option.or_none] at has
      refine Dict.lastIn?_eq_none_iff.1 has.symm ?_
      rw [addresses, List.map_map]
      exact List.mem_map.2 ⟨b, hb, rfl⟩
  · intro hfree id r hr
    refine (get?_of_apply h fun b hb hid => hfree b hb id hid ?_).trans hr
    exact ResourceGraph.contains_iff_get?.2 ⟨r, hr⟩

end FunctionPass

/-! ### Passes behind that of functions -/

namespace HttpPass

/-- An endpoint has no function, and takes no other datasource's place. -/
theorem functionArn_of_apply {s t : PassState} (h : apply.on s = (.ok (), t)) :
    s.context.resources.Same (fun _ => True) "functionArn" t.context.resources := by
  have leaves : Leaves (fun _ => True) "functionArn" apply := leaves_fold fun b c =>
    (ResourceGraph.same_ensure_of_lacks (r := datasourceOf b.url) (by
      simp [datasourceOf, Resource.get?_set, ResourceGraph.get?_bare]) _).trans
      (Context.same_addResolver (c := { c with resources := _ })
        ((Decorates.set (by decide) _).comp (.set (by decide) _) : Decorates
          ["method", "resourcePath"] _) (by decide) (by decide) _ _ _ _)
  exact leaves.of_ok h

end HttpPass

namespace PredictionsPass

theorem lacks_of_apply {storage : Option Json} {s t : PassState}
    (h : (apply storage).on s = (.ok (), t)) :
    s.context.resources.Lacks "functionArn" t.context.resources := by
  rw [apply, on_examine_bind] at h
  split at h
  · split at h
    · cases h
      exact .refl _ _
    · split at h
      · cases (Prod.mk.inj h).1
      · next us _ _ bucket _ =>
        cases h
        have stored : s.context.resources.Lacks "functionArn"
            (s.context.resources.add (storageAccess bucket)) := ResourceGraph.lacks_add
          (by simp [storageAccess, Resource.get?_set, ResourceGraph.get?_bare])
        refine (stored.trans (ResourceGraph.lacks_add (r := datasource)
          (by simp [datasource, Resource.get?_set, ResourceGraph.get?_bare]))).trans
          (ResourceGraph.Same.lacks ?_)
        exact Context.same_foldl (fun u _ d => same_bind (by decide) (by decide) d u)
          ((s.context.addResource (storageAccess bucket)).addResource datasource)
  · cases (Prod.mk.inj h).1

end PredictionsPass

namespace SearchPass

theorem lacks_of_apply {s t : PassState} (h : apply.on s = (.ok (), t)) :
    s.context.resources.Lacks "functionArn" t.context.resources := by
  rw [apply, on_examine_bind] at h
  split at h
  · next ms hms =>
    split at h
    · cases h
      exact .refl _ _
    · cases h
      have domained : s.context.resources.Lacks "functionArn" (s.context.resources.add
          (domain s.context.parameters.enableSearchNodeToNodeEncryption)) := ResourceGraph.lacks_add
        (by simp [domain, Resource.get?_set, ResourceGraph.get?_bare])
      have searched := domained.trans (ResourceGraph.lacks_add (r := datasource)
        (by simp [datasource, Resource.get?_set, ResourceGraph.get?_bare]))
      have streams : (streaming ms).get? "functionArn" = none := by
        rw [streaming, (ResourceGraph.streaming_decorates ms).get? _ _ (by decide)]
        rfl
      exact (searched.trans (ResourceGraph.lacks_add streams)).trans (ResourceGraph.Same.lacks
        (Context.same_foldl (fun m _ d => same_attach (by decide) (by decide) d m)
          (provision s.context ms)))
  · cases (Prod.mk.inj h).1

end SearchPass

/-! ### Runs -/

/-- The function that a directive binds a field to, as it is written. -/
def Directive.function? (d : Directive) : Option String :=
  (d.argument? "name").bind Value.asString?

/-- A resolver ends up with the address of a function: so does the datasource that it is first asked
to have, of the id that a model of some name would give it. -/
structure Context.Assigns (functions : Dict FunctionHandle) (c : Context) (id arn model : String) :
    Prop where
  /-- Of the datasources that the resolver is asked to have, this one comes first. -/
  source : Dict.findList? id c.attachments = some (datasourceId model)
  /-- Of the functions that datasources of its id are asked for, that of the address comes last. -/
  last   : Dict.lastIn? (datasourceId model) (FunctionPass.addresses functions c) = some (.str arn)
  /-- No join model has a datasource of its id. -/
  free   : ¬ c.schema.IsJoin model

/-- No bound field asks for a resource of a model. -/
def Context.FunctionsApart (c : Context) : Prop :=
  ∀ b ∈ FunctionPass.bound c, ∀ id ∈ FunctionPass.asked c b, ∀ m ∈ c.schema.namesWith "model",
    id ∉ ModelPass.resourceIds c m

/-- Neither recognition nor search has a datasource of a function. -/
theorem FunctionPass.model_ne_of_lastIn? {functions : Dict FunctionHandle} {c : Context}
    {model : String} {value : Json}
    (h : Dict.lastIn? (datasourceId model) (addresses functions c) = some value) :
    model ≠ "Predictions" ∧ model ≠ "OpenSearch" := by
  obtain ⟨b, -, he⟩ := List.mem_map.1 (Dict.mem_of_lastIn? h)
  have hid := (Prod.mk.inj he).1
  rw [datasource_eq] at hid
  have last : model.toList.getLast? = some 'a' := by
    rw [← datasourceId_inj hid, String.toList_append, List.getLast?_append]
    rfl
  constructor <;>
  · rintro rfl
    revert last
    decide

namespace Chain

open Context

variable {args : FactoryArgs} {c : Context} {s t u v w : PassState} {model : String}

namespace Binds

variable (h : Binds args c t u v w)
include h

theorem functionBindings : FunctionPass.bound t.context = FunctionPass.bound c := by
  rw [FunctionPass.bound, FunctionPass.bound, h.edits_model.functionBindings]

theorem addresses : FunctionPass.addresses args.functionNameMap t.context
    = FunctionPass.addresses args.functionNameMap c := by
  rw [FunctionPass.addresses, FunctionPass.addresses, h.functionBindings,
    h.edits_model.functionName, h.edits_model.address]

/-- Models have nothing of functions. -/
theorem property?_eq_none (hc : c.resources = {}) {key : String}
    (hk : key ∈ ["functionArn", "pipelineFunctions"]) (id : String) :
    t.context.resources.property? id key = none := by
  have keys : ∀ key ∈ ["functionArn", "pipelineFunctions"],
      key ∉ resolverProperties ∧ key ∉ ModelPass.storeProperties := by decide
  refine ModelPass.lacks_of_apply (keys key hk).1 (keys key hk).2 h.model id ?_
  rw [hc]
  rfl

/-- **The function pass keeps the resources of models** exactly where no bound field asks for one of
them. -/
theorem keeps_iff (hc : c.resources = {}) :
    (∀ id r, t.context.resources.get? id = some r → u.context.resources.get? id = some r)
      ↔ c.FunctionsApart := by
  have fresh : ModelPass.Made { context := c } [] { context := c } := ModelPass.made_nil rfl hc
  have made := (ModelPass.made_of_apply fresh h.model).resources
  have asked : FunctionPass.asked t.context = FunctionPass.asked c := funext fun b => by
    rw [FunctionPass.asked, FunctionPass.asked, h.edits_model.functionName]
  rw [FunctionPass.keeps_iff_of_apply h.function (h.property?_eq_none hc (by decide))
    (h.property?_eq_none hc (by decide)), h.functionBindings, asked, FunctionsApart]
  refine forall₂_congr fun b _ => forall₂_congr fun id _ => ?_
  rw [made id, not_exists]
  exact forall_congr' fun m => not_and

end Binds

/-- The passes behind bound fields, cut at those of join models and of search: no other one changes
the addresses of datasources. -/
theorem exists_searched
    (hrest : (Action.forEach Entry.apply ((builtin args).drop 4)).on w = (.ok (), s)) :
    ∃ j k l, Edits AnyName AnyTime w.context j.context
      ∧ SameProperty (OfKind .dataSource) "functionArn" w j
      ∧ ManyToManyPass.apply.on j = (.ok (), k)
      ∧ SameProperty (OfKind .dataSource) "functionArn" k l
      ∧ SearchPass.apply.on l = (.ok (), s) := by
  have hsplit : (builtin args).drop 4 = ((builtin args).drop 4).take 4
      ++ ({ pass := .manyToMany, role := some .manyToMany } :: (((builtin args).drop 9).take 4
        ++ [{ pass := .searchable }])) := rfl
  rw [hsplit, Action.forEach_append_ok] at hrest
  obtain ⟨j, hj, hrest⟩ := hrest
  rw [Action.forEach_cons_ok, on_apply_free] at hrest
  obtain ⟨k, hk, hrest⟩ := hrest
  rw [Action.forEach_append_ok] at hrest
  obtain ⟨l, hl, hrest⟩ := hrest
  rw [Action.forEach_cons_ok, on_apply_free] at hrest
  obtain ⟨_, hs, hdone⟩ := hrest
  cases hdone
  have names : ∀ name ∈ (builtinNames.drop 4).take 4 ++ (builtinNames.drop 9).take 4,
      "functionArn" ∉ changed name ∧ ResourceKind.dataSource ∉ supplied name := by decide
  have leaves : ∀ es : Chain, (∀ e ∈ es, e ∈ builtin args
      ∧ e.pass.name ∈ (builtinNames.drop 4).take 4 ++ (builtinNames.drop 9).take 4) →
      Leaves (OfKind .dataSource) "functionArn" (Action.forEach Entry.apply es) :=
    fun es hes => entries_leave fun e he => builtin_leaves (hes e he).1 (by decide)
      (names _ (hes e he).2).1 (names _ (hes e he).2).2
  refine ⟨j, k, l, edits_of_forEach (fun e he => (mem_slice he).1) hj, ?_, hk, ?_, hs⟩
  · exact (leaves _ fun e he =>
      ⟨(mem_slice he).1, List.mem_append_left _ (mem_slice he).2⟩).of_ok hj
  · exact (leaves _ fun e he =>
      ⟨(mem_slice he).1, List.mem_append_right _ (mem_slice he).2⟩).of_ok hl

/-- **The address that a datasource has where a run ends well**: none where a join model has the
datasource, else that of the last function that it is asked for. -/
theorem functionArn_of_completes (hc : c.resources = {}) (h : Completes args c s) (model : String) :
    (c.schema.IsJoin model →
        s.context.resources.property? (datasourceId model) "functionArn" = none)
      ∧ (¬ c.schema.IsJoin model →
        s.context.resources.property? (datasourceId model) "functionArn"
          = Dict.lastIn? (datasourceId model)
            (FunctionPass.addresses args.functionNameMap c)) := by
  obtain ⟨t, u, v, w, hb, hrest⟩ := h.cutBound
  obtain ⟨j, k, l, edits, before, hjoined, behind, hsearched⟩ := exists_searched hrest
  have changed : Edits AnyName AnyTime c j.context := hb.edits.trans edits
  have grown := changed.grownTo
  have hid : OfKind .dataSource (datasourceId model) := kindOfId?_datasourceId model
  have searched := SearchPass.lacks_of_apply hsearched (datasourceId model)
  refine ⟨fun hj => searched ((behind _ hid).trans ?_), fun hj => ?_⟩
  · exact ManyToManyPass.lacks_of_apply (by decide) (by decide) (by decide) hjoined (hj.mono grown)
  have bound : u.context.resources.property? (datasourceId model) "functionArn"
      = Dict.lastIn? (datasourceId model) (FunctionPass.addresses args.functionNameMap c) := by
    rw [FunctionPass.functionArn_of_apply hb.function, hb.property?_eq_none hc (by decide),
      Option.or_none, hb.addresses]
  have http := HttpPass.functionArn_of_apply hb.http (datasourceId model) trivial
  have joined : k.context.resources.property? (datasourceId model) "functionArn"
      = j.context.resources.property? (datasourceId model) "functionArn" := by
    have leaves : SameProperty (· = datasourceId model) "functionArn" j
        (ManyToManyPass.apply.on j).2 :=
      ManyToManyPass.apply_leaves (by decide) (by decide) fun join hjoin =>
        ⟨tableId_ne_datasourceId join model,
          fun he => hj (datasourceId_inj he ▸ hjoin.of_grownTo grown)⟩
    rw [hjoined] at leaves
    exact leaves _ rfl
  rw [← bound, ← http]
  have fixed := (behind _ hid).trans (joined.trans (before _ hid))
  cases hlast : Dict.lastIn? (datasourceId model)
      (FunctionPass.addresses args.functionNameMap c) with
  | none =>
    -- passes that put other datasources in its place leave it without an address
    have none := http.trans (bound.trans hlast)
    rw [none, searched (fixed.trans (PredictionsPass.lacks_of_apply hb.predictions _ none))]
  | some value =>
    obtain ⟨hpredictions, hsearch⟩ := FunctionPass.model_ne_of_lastIn? hlast
    have unused : ¬ v.context.Binds "predictions" model := fun hbinds => by
      cases hbinds with
      | predictions _ _ hm => exact hpredictions hm
      | function hp | http hp => exact absurd hp (by decide)
    have recognized : w.context.resources.property? (datasourceId model) "functionArn"
        = v.context.resources.property? (datasourceId model) "functionArn" :=
      PredictionsPass.property?_of_apply hb.predictions unused (by decide) (by decide)
    exact (SearchPass.property?_of_apply hsearched (fun he => absurd he hsearch) (by decide)
      (by decide)).trans (fixed.trans recognized)

/-- The resolver of a bound field has the datasource that it is first asked to have. -/
theorem source?_of_bound (hc : c.resources = {}) (h : Completes args c s)
    {b : FunctionPass.Binding} (hbound : b ∈ FunctionPass.bound c) : ∃ datasource,
      Dict.findList? (resolverId b.type b.field) c.attachments = some datasource
      ∧ s.context.resources.source? (resolverId b.type b.field) = some (.str datasource) := by
  refine h.source? hc (kindOfId?_resolverId _ _) ?_
  rw [attachments, List.append_assoc, List.append_assoc, List.map_append, List.map_append,
    FunctionPass.attachments, List.map_map]
  exact List.mem_append_right _ (List.mem_append_left _ (List.mem_map.2 ⟨b, hbound, rfl⟩))

/-- A resolver invokes a function where nothing comes between the two. -/
theorem invokes_iff_assigns (hc : c.resources = {}) (h : Completes args c s)
    {b : FunctionPass.Binding} (hbound : b ∈ FunctionPass.bound c) (arn : String) :
    s.context.resources.Invokes (resolverId b.type b.field) arn
      ↔ ∃ model, c.Assigns args.functionNameMap (resolverId b.type b.field) arn model := by
  obtain ⟨datasource, hfirst, hsource⟩ := source?_of_bound hc h hbound
  rw [(h.isSound hc).all.invokes_iff (kindOfId?_resolverId _ _)]
  refine exists_congr fun model => ⟨fun ⟨hd, harn⟩ => ?_, fun ⟨hd, hlast, hfree⟩ => ?_⟩
  · obtain ⟨joined, last⟩ := functionArn_of_completes hc h model
    have free : ¬ c.schema.IsJoin model := fun hj => by
      rw [joined hj] at harn
      cases harn
    obtain rfl : datasource = datasourceId model :=
      Json.str.inj (Option.some.inj (hsource.symm.trans hd))
    exact ⟨hfirst, (last free).symm.trans harn, free⟩
  · obtain rfl := Option.some.inj (hfirst.symm.trans hd)
    exact ⟨hsource, ((functionArn_of_completes hc h model).2 hfree).trans hlast⟩

/-- **Which resolvers invoke their own function**: where a fresh run of the passes that every chain
starts with ends well, the resolver of a field that is bound to a function invokes it exactly where
nothing that the schema asks for comes between the two, and the pass of functions keeps the
resources of models as they are exactly where no bound field asks for one of them. -/
theorem invokes_iff_of_completes (hc : c.resources = {}) (h : Completes args c s) :
    (∀ p ∈ c.schema.fieldsWith "function", ∀ d ∈ p.2.directives, d.name = "function" →
      ∃ function arn, d.function? = some function
        ∧ arn = FunctionPass.address args.functionNameMap c ⟨p.1.name, p.2.name, function⟩
        ∧ (s.context.resources.Invokes (resolverId p.1.name p.2.name) arn ↔
          ∃ model, c.Assigns args.functionNameMap (resolverId p.1.name p.2.name) arn model))
    ∧ ∃ t u, ModelPass.apply.on { context := c } = (.ok (), t)
      ∧ (FunctionPass.apply args.functionNameMap).on t = (.ok (), u)
      ∧ ((∀ id r, t.context.resources.get? id = some r → u.context.resources.get? id = some r)
        ↔ c.FunctionsApart) := by
  obtain ⟨t, u, v, w, hb, -⟩ := h.cutBound
  obtain ⟨bs, hbs⟩ : ∃ bs, FunctionPass.bindings c = .ok bs := by
    have hfunction := hb.function
    rw [FunctionPass.apply, on_examine_bind, hb.edits_model.functionBindings] at hfunction
    split at hfunction
    · exact ⟨_, ‹_›⟩
    · cases (Prod.mk.inj hfunction).1
  refine ⟨fun p hp d hd hname => ?_, t, u, hb.model, hb.function, hb.keeps_iff hc⟩
  obtain ⟨ht, hf, -⟩ := Document.mem_fieldsWith.1 hp
  obtain ⟨function, hfunction, hbound⟩ := FunctionPass.exists_binding hbs ht hf hd hname
  rw [← FunctionPass.bound_of_bindings hbs] at hbound
  exact ⟨function, _, hfunction, rfl, invokes_iff_assigns hc h hbound _⟩

/-- A field that is bound to a function. -/
def callingField (name function : String) : FieldDefinition where
  name       := name
  type       := .named "String"
  directives := [⟨"function", [("name", .string function)]⟩]

/-- Queries that are bound to functions. -/
def callingQuery (first second : String) : TypeDefinition where
  kind   := .object
  name   := "Query"
  fields := [callingField "first" first, callingField "second" second]

/-- A schema with posts, and with queries that are bound to functions. -/
def calling (first second : String) : Context where
  schema := ⟨[{
    kind := .object, name := "Post", directives := [⟨"model", []⟩],
    fields := [{ name := "title", type := .named "String" }] }, callingQuery first second]⟩

/-- A function whose name tells the environment is invoked, and posts are kept. -/
theorem invokes_calling : (calling "echo-$\x7benv\x7d" "sum").resources = {}
    ∧ Completes {} (calling "echo-$\x7benv\x7d" "sum")
      (lastState {} (calling "echo-$\x7benv\x7d" "sum"))
    ∧ (lastState {} (calling "echo-$\x7benv\x7d" "sum")).context.resources.Invokes
      (resolverId "Query" "first")
      "arn:aws:lambda:$\x7bAWS::Region\x7d:$\x7bAWS::AccountId\x7d:function:echo-NONE"
    ∧ ∃ t u, ModelPass.apply.on { context := calling "echo-$\x7benv\x7d" "sum" } = (.ok (), t)
      ∧ (FunctionPass.apply ∅).on t = (.ok (), u)
      ∧ ∀ id r, t.context.resources.get? id = some r → u.context.resources.get? id = some r := by
  have completes := (completes_of_endsWell (p := fun _ => true)
    (by decide +kernel : endsWell {} (calling "echo-$\x7benv\x7d" "sum") _ = true)).1
  obtain ⟨invoked, t, u, ht, hu, kept⟩ := invokes_iff_of_completes rfl completes
  obtain ⟨function, arn, hfunction, harn, own⟩ := invoked
    (callingQuery "echo-$\x7benv\x7d" "sum", callingField "first" "echo-$\x7benv\x7d")
    (by decide +kernel) _ List.mem_cons_self rfl
  cases hfunction
  obtain rfl : arn
      = "arn:aws:lambda:$\x7bAWS::Region\x7d:$\x7bAWS::AccountId\x7d:function:echo-NONE" :=
    harn.trans (by decide +kernel)
  refine ⟨rfl, completes, own.2 ⟨"EchoNONELambda", by decide +kernel, by decide +kernel, ?_⟩,
    t, u, ht, hu, kept.2 ?_⟩
  · have unrelated : ∀ t ∈ (calling "echo-$\x7benv\x7d" "sum").schema.definitions,
        ∀ f ∈ t.fields, findDirective? "manyToMany" f.directives = none := by decide
    rintro ⟨_, t, ht, -, f, hf, m, _, hm, -⟩
    exact absurd ((unrelated t ht f hf).symm.trans hm) (Option.some_ne_none m).symm
  · unfold FunctionsApart
    decide +kernel

/-- Of two functions whose names differ by hyphens, the first is not invoked, by a field that has no
other directive. -/
theorem not_invokes_calling : (calling "do-it" "doit").resources = {}
    ∧ Completes {} (calling "do-it" "doit") (lastState {} (calling "do-it" "doit"))
    ∧ ¬ ∀ p ∈ (calling "do-it" "doit").schema.fieldsWith "function", ∀ d, p.2.directives = [d] →
      ∃ function, d.function? = some function
        ∧ (lastState {} (calling "do-it" "doit")).context.resources.Invokes
          (resolverId p.1.name p.2.name)
          (FunctionPass.address ∅ (calling "do-it" "doit") ⟨p.1.name, p.2.name, function⟩) := by
  have run := completes_of_endsWell (p := fun s => (s.context.resources.ofKind .dataSource).all
    fun q => q.get? "functionArn" ≠ some (.str (FunctionPass.address ∅ (calling "do-it" "doit")
      ⟨"Query", "first", "do-it"⟩)))
    (by decide +kernel : endsWell {} (calling "do-it" "doit") _ = true)
  refine ⟨rfl, run.1, fun h => ?_⟩
  obtain ⟨function, hfunction, -, -, q, hq, -, -, harn⟩ := h
    (callingQuery "do-it" "doit", callingField "first" "do-it") (by decide +kernel) _ rfl
  cases hfunction
  exact of_decide_eq_true (List.all_eq_true.1 run.2 q hq) harn

end Chain

end ApiCompiler
