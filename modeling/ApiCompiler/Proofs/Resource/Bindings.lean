import ApiCompiler.Proofs.Chain.Models
import ApiCompiler.Proofs.Pass.Properties

/-!
# Resources — what resolvers are bound to

A resolver is bound to a datasource when it is made, and a later pass that asks for a resolver of
the same field leaves it as it is. So the first one that asks for it counts.

* `ResourceGraph.source?`: the datasource of a resolver.
* `Edits.source?`: no change binds a resolver anew.
* `attachments`, one for each of the passes of models and of bound fields: the resolvers it asks
  for, each with the datasource.
* `Chain.Completes.source?`: behind these passes, a resolver is bound as the first of them asks.
-/

namespace ApiCompiler

open PassAction

/-! ### Changes one after the other -/

section Folds

variable {σ α β : Type} {f : σ → α → σ} {as : List α}

/-- Where each change keeps what was there and else puts something of its own, the first change that
puts something counts. -/
theorem foldl_first {I : σ → Prop} {v : σ → Option β} {n : α → Option β}
    (hf : ∀ a ∈ as, ∀ s, I s → I (f s a) ∧ v (f s a) = (v s).or (n a)) {s : σ}
    (hs : I s) : v (as.foldl f s) = (v s).or (as.findSome? n) := by
  induction as generalizing s with
  | nil => exact Option.or_none.symm
  | cons a as ih =>
    obtain ⟨hI, hview⟩ := hf a List.mem_cons_self s hs
    rw [List.foldl_cons, ih (fun b hb => hf b (List.mem_cons_of_mem a hb)) hI, hview,
      Option.or_assoc, List.findSome?_cons]
    cases n a <;> rfl

/-- Where each change puts something of its own under a key, the last one under a key counts. -/
theorem foldl_last {I : σ → Prop} {k : String} {v : σ → Option β} {p : α → String × β}
    (hf : ∀ a ∈ as, ∀ s, I s → I (f s a) ∧ v (f s a) = if (p a).1 = k then some (p a).2 else v s)
    {s : σ} (hs : I s) : v (as.foldl f s) = (Dict.lastIn? k (as.map p)).or (v s) := by
  induction as generalizing s with
  | nil => rfl
  | cons a as ih =>
    obtain ⟨hI, hview⟩ := hf a List.mem_cons_self s hs
    have hcons : (a :: as).map p = [p a] ++ as.map p := rfl
    rw [List.foldl_cons, ih (fun b hb => hf b (List.mem_cons_of_mem a hb)) hI, hview, hcons,
      Dict.lastIn?_append, Dict.lastIn?_singleton, Option.or_assoc]
    split <;> rfl

/-- Where each change makes something so, all of them make so what one of them does. -/
theorem foldl_or {v : σ → Prop} {n : α → Prop} (hf : ∀ s a, v (f s a) ↔ n a ∨ v s) (as : List α)
    (s : σ) : v (as.foldl f s) ↔ (∃ a ∈ as, n a) ∨ v s := by
  induction as generalizing s with
  | nil => simp
  | cons a as ih =>
    rw [List.foldl_cons, ih, hf, List.exists_mem_cons_iff, ← or_assoc, or_comm (b := n a)]

/-- Where each step puts some pairs, the last one under a key counts. -/
theorem forEach_last {k : String} {v : σ → Option β} {p : α → List (String × β)}
    {f : α → Action σ Unit}
    (hf : ∀ a ∈ as, ∀ s t, (f a).on s = (.ok (), t) → v t = (Dict.lastIn? k (p a)).or (v s))
    {s t : σ} (h : (Action.forEach f as).on s = (.ok (), t)) :
    v t = (Dict.lastIn? k (as.flatMap p)).or (v s) := by
  induction as generalizing s with
  | nil =>
    cases h
    rfl
  | cons a as ih =>
    obtain ⟨u, hu, h⟩ := Action.forEach_cons_ok.1 h
    rw [ih (fun b hb => hf b (List.mem_cons_of_mem a hb)) h, hf a List.mem_cons_self s u hu,
      List.flatMap_cons, Dict.lastIn?_append, Option.or_assoc]

end Folds

/-! ### Resolvers -/

namespace ResourceGraph

/-- The datasource of the resource of an id, if there is one; `null` where it has none. -/
def source? (g : ResourceGraph) (id : String) : Option Json :=
  (g.get? id).map fun r => (r.get? "dataSource").getD .null

variable {g : ResourceGraph} {id : String}

/-- A resolver that is bound is there, with its datasource. -/
theorem source?_eq_some_iff {datasource : String} : g.source? id = some (.str datasource) ↔
    ∃ r, g.get? id = some r ∧ r.get? "dataSource" = some (.str datasource) := by
  rw [source?, Option.map_eq_some_iff]
  refine exists_congr fun r => and_congr_right fun _ => ?_
  cases r.get? "dataSource" <;> simp

theorem contains_of_source? {v : Json} (h : g.source? id = some v) : g.contains id = true := by
  obtain ⟨r, hr, -⟩ := Option.map_eq_some_iff.1 h
  exact contains_iff_get?.2 ⟨r, hr⟩

theorem source?_add_of_ne {r : Resource} (h : id ≠ r.id) : (g.add r).source? id = g.source? id := by
  rw [source?, source?, get?_add, if_neg h]

theorem source?_ensure_of_ne {r : Resource} (h : id ≠ r.id) :
    (g.ensure r).source? id = g.source? id := by
  rw [source?, source?, get?_ensure, if_neg h]

theorem source?_modify {keys : List String} {f : Resource → Resource} (hf : Decorates keys f)
    (hk : "dataSource" ∉ keys) (id other : String) :
    (g.modify id f).source? other = g.source? other := by
  rw [source?, source?, get?_modify]
  split
  · next he =>
    rw [he, Option.map_map]
    exact congrArg (Option.map · _) (funext fun r => congrArg (·.getD .null) (hf.get? r _ hk))
  · rfl

end ResourceGraph

/-- An id of another kind is another one. -/
theorem ne_of_kindOfId? {id other : String} {kind : ResourceKind}
    (h : kindOfId? id = some kind) (ho : kindOfId? other ≠ some kind) : id ≠ other := by
  rintro rfl
  exact ho h

namespace Context

/-- A resolver is bound when it is made, and keeps what it is bound to. -/
theorem source?_addResolver {keys : List String} {f : Resource → Resource} (hf : Decorates keys f)
    (hk : "dataSource" ∉ keys) (c : Context) (typeName fieldName datasource stack id : String) :
    (c.addResolver typeName fieldName datasource stack f).resources.source? id
      = (c.resources.source? id).or
        (if id = resolverId typeName fieldName then some (.str datasource) else none) := by
  rw [ResourceGraph.source?, ResourceGraph.source?, get?_addResolver]
  split
  · rw [Option.map_some, hf.get? _ _ hk]
    cases c.resources.get? id with
    | none =>
      rw [Option.getD_none, ResourceGraph.get?_newResolver c _ _ _ _ (by decide), if_pos rfl]
      rfl
    | some r => rfl
  · exact Option.or_none.symm

variable {known : String → Prop} {ready : Document → String → Prop} {c d : Context}

/-- **No change binds a resolver anew.** -/
theorem Edit.source? (h : Edit known ready c d) {id : String}
    (hid : kindOfId? id = some .resolver) {v : Json} (hv : c.resources.source? id = some v) :
    d.resources.source? id = some v := by
  have decorated : ∀ {keys f}, Decorates keys f → "dataSource" ∉ keys → ∀ other,
      (c.resources.modify other f).source? id = some v := fun hf hk other =>
    (ResourceGraph.source?_modify hf hk other id).trans hv
  have other : ∀ {r : Resource}, kindOfId? r.id ≠ some .resolver → ∀ {g : ResourceGraph},
      g.source? id = some v → (g.add r).source? id = some v := fun hr _ hg =>
    (ResourceGraph.source?_add_of_ne (ne_of_kindOfId? hid hr)).trans hg
  cases h with
  | log | object | field | mark | retype => exact hv
  | @store model _ _ h =>
    have hdata : kindOfId? (datasourceId model) ≠ some .resolver := by
      rw [kindOfId?_datasourceId]
      decide
    rcases ModelPass.addStore_eq h with rfl | ⟨dbType, secrets, rfl⟩
    · refine other (r := ModelPass.tableDatasource model) hdata (other ?_ hv)
      rw [ModelPass.id_table, kindOfId?_tableId]
      decide
    · exact other (by rwa [ModelPass.id_relationalDatasource]) hv
  | supply h =>
    refine other (fun hr => h.kind_ne_resolver ?_) hv
    rcases (ResourceGraph.kindOfId?_of_supplies h).1 with hk | hk
    · exact Option.some.inj (hk.symm.trans hr)
    · exact absurd (hk.symm.trans hr) (Option.some_ne_none _).symm
  | resolver typeName fieldName stack hn =>
    refine (ResourceGraph.source?_add_of_ne ?_).trans hv
    rw [id_newResolver]
    rintro rfl
    exact absurd (ResourceGraph.contains_of_source? hv) (Bool.eq_false_iff.1 hn)
  | decorate _ hf => exact decorated hf (by decide) _
  | rename => exact decorated (.rename _) (by decide) _
  | key => exact decorated (.setKey _ _) (by decide) _
  | index _ hl => exact decorated (.pushIndex hl _) (by decide) _

theorem Edits.source? (h : Edits known ready c d) {id : String}
    (hid : kindOfId? id = some .resolver) {v : Json} (hv : c.resources.source? id = some v) :
    d.resources.source? id = some v := by
  induction h with
  | refl => exact hv
  | tail _ h ih => exact h.source? hid ih

end Context

/-! ### Models -/

namespace ModelPass

/-- Of what models give first come, first served, the first model that gives something counts. -/
theorem first_of_apply {β : Type} {v : Context → Option β} {n : String → Option β}
    (hlog : ∀ (c : Context) level message, v (c.log level message) = v c)
    (hmade : ∀ model s t, (materialize model false).on s = (.ok (), t) →
      v t.context = (v s.context).or (n model))
    {c : Context} {t : PassState} (h : apply.on { context := c } = (.ok (), t)) :
    v t.context = (v c).or ((c.schema.namesWith "model").findSome? n) := by
  rw [apply, on_context_bind] at h
  obtain ⟨_, u, hu, h⟩ := Action.on_bind_eq_ok.1 h
  cases h
  refine (hlog _ _ _).trans (Action.forEach_first (v := fun s : PassState => v s.context)
    (I := fun s => ∀ model, s.memory.models.contains model = true →
      (n model).isSome = true → (v s.context).isSome = true)
    (fun model _ s t ht hs => ?_) hu fun _ hm => absurd hm Bool.false_ne_true)
  rw [materializeDeclared, on_memory_bind] at ht
  split at ht
  · next hm =>
    -- a model that is made already has given all that it gives
    cases ht
    refine ⟨hs, ?_⟩
    cases hn : n model with
    | none => exact Option.or_none.symm
    | some b =>
      obtain ⟨a, ha⟩ := Option.isSome_iff_exists.1 (hs model hm (by rw [hn]; rfl))
      rw [ha]
      rfl
  · have hview := hmade model s t ht
    obtain ⟨_, _, _, _, _, hm⟩ := materialize_ok ht
    refine ⟨fun other ho hn => ?_, hview⟩
    rw [hview, Option.isSome_or, Bool.or_eq_true]
    rw [hm, Dict.contains_insert, Bool.or_eq_true, decide_eq_true_eq] at ho
    rcases ho with rfl | ho
    · exact .inr hn
    · exact .inl (hs other ho hn)

/-- The operations on a model, each with the type that it is a field of. -/
def operations (model : String) : List (String × FieldDefinition) :=
  (queryFields model).map (fun f => ("Query", f))
    ++ (mutationFields model).map fun f => ("Mutation", f)

/-- The resolvers that a model asks for, each with the datasource. -/
def attachments (model : String) : List (String × String) :=
  (operations model).map fun p => (resolverId p.1 p.2.name, datasourceId model)

theorem addOperations_eq (c : Context) (model : String) :
    addOperations c model
      = (operations model).foldl (fun c p => addOperation p.1 model c p.2) c := by
  rw [operations, List.foldl_append, List.foldl_map, List.foldl_map]
  rfl

theorem source?_addOperations (c : Context) (model id : String) :
    (addOperations c model).resources.source? id
      = (c.resources.source? id).or ((Dict.findList? id (attachments model)).map .str) := by
  have operation : ∀ (d : Context) (p : String × FieldDefinition),
      (addOperation p.1 model d p.2).resources.source? id = (d.resources.source? id).or
        (if id = resolverId p.1 p.2.name then some (.str (datasourceId model)) else none) :=
    fun d p => Context.source?_addResolver .refl List.not_mem_nil d _ _ _ _ id
  rw [addOperations_eq, attachments, Dict.map_findList?_map]
  exact foldl_first (I := fun _ => True) (v := fun d : Context => d.resources.source? id)
    (fun p _ d _ => ⟨trivial, operation d p⟩) trivial

theorem source?_of_materialize {id : String} (hid : kindOfId? id = some .resolver) {model : String}
    {synthesized : Bool} {s t : PassState}
    (h : (materialize model synthesized).on s = (.ok (), t)) :
    t.context.resources.source? id = (s.context.resources.source? id).or
      ((Dict.findList? id (attachments model)).map .str) := by
  obtain ⟨c, d, hc, hd, ht, -⟩ := materialize_ok h
  have htable : kindOfId? (tableId model) ≠ some .resolver := by
    rw [kindOfId?_tableId]
    decide
  have hdata : kindOfId? (datasourceId model) ≠ some .resolver := by
    rw [kindOfId?_datasourceId]
    decide
  have stored : c.resources.source? id = s.context.resources.source? id := by
    rcases addStore_eq hc with rfl | ⟨dbType, secrets, rfl⟩
    · exact (ResourceGraph.source?_add_of_ne (r := tableDatasource model)
        (ne_of_kindOfId? hid hdata)).trans (ResourceGraph.source?_add_of_ne
          (by rw [id_table]; exact ne_of_kindOfId? hid htable))
    · exact ResourceGraph.source?_add_of_ne
        (by rw [id_relationalDatasource]; exact ne_of_kindOfId? hid hdata)
  rw [ht, Context.resources_log, source?_addOperations, resources_addFields hd, stored]

theorem source?_of_apply {id : String} (hid : kindOfId? id = some .resolver) {c : Context}
    {t : PassState} (h : apply.on { context := c } = (.ok (), t)) :
    t.context.resources.source? id = (c.resources.source? id).or ((Dict.findList? id
      ((c.schema.namesWith "model").flatMap attachments)).map .str) := by
  rw [first_of_apply (v := fun d : Context => d.resources.source? id) (fun _ _ _ => rfl)
    (fun _ _ _ => source?_of_materialize hid) h, Dict.findList?_flatMap, List.map_findSome?]
  rfl

end ModelPass

/-! ### Bound fields -/

namespace FunctionPass

/-- The fields that are bound to functions, where none is refused. -/
def bound (c : Context) : List Binding := (bindings c).toOption.getD []

/-- The resolvers that bound fields ask for, each with the datasource. -/
def attachments (c : Context) : List (String × String) :=
  (bound c).map fun b => (resolverId b.type b.field, datasource (functionName c b))

theorem bound_of_bindings {c : Context} {bs : List Binding} (h : bindings c = .ok bs) :
    bound c = bs := by
  rw [bound, h]
  rfl

theorem functionName_bind (functions : Dict FunctionHandle) (c : Context) (b : Binding) :
    functionName (bind functions c b) = functionName c := by
  unfold bind
  dsimp only
  split <;> rfl

theorem source?_bind {id : String} (hid : kindOfId? id = some .resolver)
    (functions : Dict FunctionHandle) (c : Context) (b : Binding) :
    (bind functions c b).resources.source? id = (c.resources.source? id).or
      (if id = resolverId b.type b.field then some (.str (datasource (functionName c b)))
        else none) := by
  have hdata : kindOfId? (datasource (functionName c b)) ≠ some .resolver := by
    rw [datasource_eq, kindOfId?_datasourceId]
    decide
  have push : Decorates ["pipelineFunctions"]
      (·.push "pipelineFunctions" (.str (functionName c b))) := .push List.mem_cons_self _
  obtain ⟨arn, hbind⟩ := resources_bind functions c b
  rw [hbind, Context.source?_addResolver push (by decide), Context.resources_addResource,
    ResourceGraph.source?_add_of_ne (r := datasourceOf _ arn) (ne_of_kindOfId? hid hdata)]

theorem source?_of_apply {id : String} (hid : kindOfId? id = some .resolver)
    {functions : Dict FunctionHandle} {s t : PassState}
    (h : (apply functions).on s = (.ok (), t)) :
    t.context.resources.source? id = (s.context.resources.source? id).or
      ((Dict.findList? id (attachments s.context)).map .str) := by
  rw [apply, on_examine_bind] at h
  split at h
  · next bs hbs =>
    cases h
    rw [attachments, bound_of_bindings hbs, Dict.map_findList?_map]
    refine (foldl_first (I := fun d : Context => functionName d = functionName s.context)
      (v := fun d : Context => d.resources.source? id)
      (fun b _ d hd => ⟨(functionName_bind functions d b).trans hd, ?_⟩) rfl)
    rw [source?_bind hid, hd]
  · cases (Prod.mk.inj h).1

end FunctionPass

namespace HttpPass

/-- The fields that are bound to endpoints, where none is refused. -/
def bound (c : Context) : List Binding := (bindings c).toOption.getD []

/-- The resolvers that bound fields ask for, each with the datasource. -/
def attachments (c : Context) : List (String × String) :=
  (bound c).map fun b => (resolverId b.type b.field, datasource b.url)

theorem bound_of_bindings {c : Context} {bs : List Binding} (h : bindings c = .ok bs) :
    bound c = bs := by
  rw [bound, h]
  rfl

theorem source?_bind {id : String} (hid : kindOfId? id = some .resolver) (c : Context)
    (b : Binding) : (bind c b).resources.source? id = (c.resources.source? id).or
      (if id = resolverId b.type b.field then some (.str (datasource b.url)) else none) := by
  have hdata : kindOfId? (datasource b.url) ≠ some .resolver := by
    rw [show datasource b.url = datasourceId _ from rfl, kindOfId?_datasourceId]
    decide
  have set : Decorates ["method", "resourcePath"] fun r =>
      (r.set "method" (.str b.method)).set "resourcePath" (.str (String.ofList b.url.path)) :=
    (Decorates.set (by decide) _).comp (.set (by decide) _)
  rw [bind, Context.source?_addResolver set (by decide)]
  exact congrArg (Option.or · _) (ResourceGraph.source?_ensure_of_ne (r := datasourceOf b.url)
    (ne_of_kindOfId? hid hdata))

theorem source?_of_apply {id : String} (hid : kindOfId? id = some .resolver) {s t : PassState}
    (h : apply.on s = (.ok (), t)) :
    t.context.resources.source? id = (s.context.resources.source? id).or
      ((Dict.findList? id (attachments s.context)).map .str) := by
  rw [apply, on_examine_bind] at h
  split at h
  · next bs hbs =>
    cases h
    rw [attachments, bound_of_bindings hbs, Dict.map_findList?_map]
    refine (foldl_first (I := fun _ => True) (v := fun d : Context => d.resources.source? id)
      (fun b _ d _ => ⟨trivial, source?_bind hid d b⟩) trivial)
  · cases (Prod.mk.inj h).1

end HttpPass

namespace PredictionsPass

/-- The queries that the service answers, where none is refused. -/
def used (c : Context) : List (String × List String) := (usages c).toOption.getD []

/-- The resolvers that these queries ask for, each with the datasource. -/
def attachments (c : Context) : List (String × String) :=
  (used c).map fun u => (resolverId "Query" u.1, "PredictionsDataSource")

theorem used_of_usages {c : Context} {us : List (String × List String)} (h : usages c = .ok us) :
    used c = us := by
  rw [used, h]
  rfl

theorem source?_of_apply {id : String} (hid : kindOfId? id = some .resolver)
    {storage : Option Json} {s t : PassState} (h : (apply storage).on s = (.ok (), t)) :
    t.context.resources.source? id = (s.context.resources.source? id).or
      ((Dict.findList? id (attachments s.context)).map .str) := by
  rw [apply, on_examine_bind] at h
  split at h
  · next us hus =>
    rw [attachments, used_of_usages hus, Dict.map_findList?_map]
    split at h
    · next hempty =>
      cases List.isEmpty_iff.1 hempty
      cases h
      exact Option.or_none.symm
    · split at h
      · cases (Prod.mk.inj h).1
      · next bucket _ =>
        cases h
        have haccess : id ≠ "PredictionsStorageAccess" := ne_of_kindOfId? hid (by decide)
        have hdata : id ≠ "PredictionsDataSource" := ne_of_kindOfId? hid (by decide)
        have provided : ((s.context.addResource (storageAccess bucket)).addResource
            datasource).resources.source? id = s.context.resources.source? id :=
          (ResourceGraph.source?_add_of_ne (r := datasource) hdata).trans
            (ResourceGraph.source?_add_of_ne (r := storageAccess bucket) haccess)
        rw [← provided]
        refine (foldl_first (I := fun _ => True)
          (v := fun d : Context => d.resources.source? id)
          (fun u _ d _ => ⟨trivial, ?_⟩) trivial)
        have set : Decorates ["actions"] (·.set "actions" (.ofStrings u.2)) :=
          .set List.mem_cons_self _
        rw [bind, Context.source?_addResolver set (by decide)]
  · cases (Prod.mk.inj h).1

end PredictionsPass

/-! ### Runs -/

namespace Context

variable {known : String → Prop} {ready : Document → String → Prop} {c d : Context}

/-- Fields stay bound as they are, whatever is changed. -/
theorem Edits.functionBindings (h : Edits known ready c d) :
    FunctionPass.bindings d = FunctionPass.bindings c := by
  refine Except.mapM_congr (List.rel_flatMap (h.settles.fieldsWith "function") ?_)
  rintro ⟨t, f⟩ ⟨t', f'⟩ ⟨hname, hf⟩
  dsimp only at hname hf ⊢
  rw [hf.directives, List.forall₂_map_left_iff, List.forall₂_map_right_iff, List.forall₂_same]
  intro dir _
  simp only [location, hname, hf.name]

theorem Edits.address (h : Edits known ready c d) (functions : Dict FunctionHandle) :
    FunctionPass.address functions d = FunctionPass.address functions c := by
  funext b
  simp only [FunctionPass.address, FunctionPass.functionArn, h.functionName, h.synth]

theorem Edits.httpBindings (h : Edits known ready c d) :
    HttpPass.bindings d = HttpPass.bindings c := by
  refine Except.mapM_congr (List.rel_filterMap ?_ (h.settles.fieldsWith "http"))
  rintro ⟨t, f⟩ ⟨t', f'⟩ ⟨hname, hf⟩
  dsimp only at hname hf ⊢
  rw [FieldDefinition.directive?, FieldDefinition.directive?, hf.directives]
  cases findDirective? "http" f.directives with
  | none => exact .none
  | some dir =>
    refine .some ?_
    simp only [HttpPass.bindingOf, location, hname, hf.name]

theorem Edits.usages (h : Edits known ready c d) :
    PredictionsPass.usages d = PredictionsPass.usages c := by
  refine Except.mapM_congr ((h.settles.fieldsWith "predictions").imp ?_)
  rintro ⟨t, f⟩ ⟨t', f'⟩ ⟨hname, hf⟩
  dsimp only at hname hf ⊢
  rw [PredictionsPass.usageOf, PredictionsPass.usageOf, FieldDefinition.directive?,
    FieldDefinition.directive?, hf.directives, location, location, hname, hf.name]

/-- The resolvers that the passes of models and of bound fields ask for, each with the datasource,
in the order of the passes. -/
def attachments (c : Context) : List (String × String) :=
  (c.schema.namesWith "model").flatMap ModelPass.attachments ++ FunctionPass.attachments c
    ++ HttpPass.attachments c ++ PredictionsPass.attachments c

end Context

namespace Chain

open Context

variable {args : FactoryArgs} {c : Context} {s t u v w : PassState}

/-- The passes of models and of bound fields, with which a run starts. -/
structure Binds (args : FactoryArgs) (c : Context) (t u v w : PassState) : Prop where
  model       : ModelPass.apply.on { context := c } = (.ok (), t)
  function    : (FunctionPass.apply args.functionNameMap).on t = (.ok (), u)
  http        : HttpPass.apply.on u = (.ok (), v)
  predictions : (PredictionsPass.apply args.storageConfig).on v = (.ok (), w)

/-- A run that ends well starts with these passes. -/
theorem Completes.cutBound (h : Completes args c s) : ∃ t u v w, Binds args c t u v w
    ∧ (Action.forEach Entry.apply ((builtin args).drop 4)).on w = (.ok (), s) := by
  have hsplit : builtin args = { pass := .model, role := some .model }
      :: { pass := .function args.functionNameMap } :: { pass := .http }
      :: { pass := .predictions args.storageConfig } :: (builtin args).drop 4 := rfl
  rw [Completes, hsplit, Action.forEach_cons_ok, on_apply_free] at h
  obtain ⟨t, ht, h⟩ := h
  rw [Action.forEach_cons_ok, on_apply_free] at h
  obtain ⟨u, hu, h⟩ := h
  rw [Action.forEach_cons_ok, on_apply_free] at h
  obtain ⟨v, hv, h⟩ := h
  rw [Action.forEach_cons_ok, on_apply_free] at h
  obtain ⟨w, hw, h⟩ := h
  exact ⟨t, u, v, w, ⟨ht, hu, hv, hw⟩, h⟩

namespace Binds

variable (h : Binds args c t u v w)
include h

theorem edits_model : Edits AnyName AnyTime c t.context :=
  ((ModelPass.apply_edits _).of_ok h.model).mono (fun _ => id) fun _ _ _ => trivial

theorem edits_function : Edits AnyName AnyTime c u.context :=
  h.edits_model.trans ((FunctionPass.apply_edits _ _).of_ok h.function)

theorem edits_http : Edits AnyName AnyTime c v.context :=
  h.edits_function.trans ((HttpPass.apply_edits _).of_ok h.http)

theorem edits : Edits AnyName AnyTime c w.context :=
  h.edits_http.trans ((PredictionsPass.apply_edits _ _).of_ok h.predictions)

/-- **A resolver is bound as the first pass asks** that asks for it. -/
theorem source? (hc : c.resources = {}) {id : String} (hid : kindOfId? id = some .resolver) :
    w.context.resources.source? id = (Dict.findList? id c.attachments).map .str := by
  have function : FunctionPass.attachments t.context = FunctionPass.attachments c := by
    rw [FunctionPass.attachments, FunctionPass.attachments, FunctionPass.bound,
      FunctionPass.bound, h.edits_model.functionBindings, h.edits_model.functionName]
  have http : HttpPass.attachments u.context = HttpPass.attachments c := by
    rw [HttpPass.attachments, HttpPass.attachments, HttpPass.bound, HttpPass.bound,
      h.edits_function.httpBindings]
  have predictions : PredictionsPass.attachments v.context = PredictionsPass.attachments c := by
    rw [PredictionsPass.attachments, PredictionsPass.attachments, PredictionsPass.used,
      PredictionsPass.used, h.edits_http.usages]
  have fresh : c.resources.source? id = none := by
    rw [hc]
    rfl
  rw [PredictionsPass.source?_of_apply hid h.predictions, HttpPass.source?_of_apply hid h.http,
    FunctionPass.source?_of_apply hid h.function, ModelPass.source?_of_apply hid h.model, fresh,
    Option.none_or, function, http, predictions, attachments, Dict.findList?_append,
    Dict.findList?_append, Dict.findList?_append, Option.map_or, Option.map_or, Option.map_or]

end Binds

/-- Whatever passes do, it is a change that binds no resolver anew. -/
theorem edits_of_forEach {es : Chain} (hes : ∀ e ∈ es, e ∈ builtin args)
    (h : (Action.forEach Entry.apply es).on w = (.ok (), s)) :
    Edits AnyName AnyTime w.context s.context :=
  ((entries_edits (fun e he _ => builtin_edits (hes e he) fun _ _ => trivial) _).of_ok h).mono
    (fun _ => id) fun _ _ _ => trivial

theorem edits_drop {k : Nat} (h : (Action.forEach Entry.apply ((builtin args).drop k)).on w
    = (.ok (), s)) : Edits AnyName AnyTime w.context s.context :=
  edits_of_forEach (fun _ => List.mem_of_mem_drop) h

/-- Where a run ends well, a resolver that these passes ask for has the datasource that it is first
asked to have. -/
theorem Completes.source? (hc : c.resources = {}) (h : Completes args c s) {id : String}
    (hid : kindOfId? id = some .resolver) (ha : id ∈ c.attachments.map (·.1)) : ∃ datasource,
      Dict.findList? id c.attachments = some datasource
        ∧ s.context.resources.source? id = some (.str datasource) := by
  obtain ⟨t, u, v, w, hb, hrest⟩ := h.cutBound
  obtain ⟨datasource, hd⟩ := Dict.exists_findList? ha
  refine ⟨datasource, hd, (edits_drop hrest).source? hid ?_⟩
  rw [hb.source? hc hid, hd]
  rfl

end Chain

end ApiCompiler
