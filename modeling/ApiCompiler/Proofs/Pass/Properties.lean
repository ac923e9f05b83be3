import ApiCompiler.Proofs.Pass.Footprint
import ApiCompiler.Proofs.Resource.Resolvers

/-!
# Passes — properties that passes leave alone

Of the resources that there are, each pass changes some properties of some of them.

* `ResourceGraph.property?`: a property of the resource of an id.
* `ResourceGraph.Same`: a property of the resources of some ids is the same in two graphs.
* `Leaves`: a step leaves a property alone, whatever it ends with.
* `apply_leaves`, one for each pass.
* `Chain.builtin_leaves`: what the passes that every chain starts with leave alone.
-/

namespace ApiCompiler

open PassAction

namespace ResourceGraph

/-- A property of the resource of an id, if there is one. -/
def property? (g : ResourceGraph) (id key : String) : Option Json :=
  (g.get? id).bind (·.get? key)

/-- A property of the resources of some ids is the same in two graphs. -/
def Same (p : String → Prop) (key : String) (g g' : ResourceGraph) : Prop :=
  ∀ id, p id → g'.property? id key = g.property? id key

variable {p : String → Prop} {key : String} {g g' g'' : ResourceGraph}

theorem property?_of_get? {id : String} {r : Resource} (h : g.get? id = some r) (key : String) :
    g.property? id key = r.get? key := by
  rw [property?, h, Option.bind_some]

theorem property?_congr {id : String} (h : g'.get? id = g.get? id) (key : String) :
    g'.property? id key = g.property? id key := by
  rw [property?, property?, h]

theorem Same.refl (p : String → Prop) (key : String) (g : ResourceGraph) : g.Same p key g :=
  fun _ _ => rfl

theorem Same.trans (h : g.Same p key g') (h' : g'.Same p key g'') : g.Same p key g'' :=
  fun id hid => (h' id hid).trans (h id hid)

theorem property?_add (g : ResourceGraph) (r : Resource) (id key : String) :
    (g.add r).property? id key = if id = r.id then r.get? key else g.property? id key := by
  rw [property?, get?_add]
  split <;> rfl

theorem same_add {r : Resource} (hr : ¬ p r.id) : g.Same p key (g.add r) := fun id hid => by
  rw [property?_add, if_neg]
  rintro rfl
  exact hr hid

theorem same_ensure {r : Resource} (hr : ¬ p r.id) : g.Same p key (g.ensure r) := by
  unfold ensure
  split
  · exact .refl p key g
  · exact same_add hr

theorem property?_modify {keys : List String} {f : Resource → Resource} (hf : Decorates keys f)
    (hk : key ∉ keys) (id other : String) :
    (g.modify id f).property? other key = g.property? other key := by
  rw [property?, property?, get?_modify]
  split
  · next he =>
    rw [he]
    cases g.get? id with
    | none => rfl
    | some r => exact hf.get? r key hk
  · rfl

theorem same_modify {keys : List String} {f : Resource → Resource} (hf : Decorates keys f)
    (hk : key ∉ keys) (id : String) : g.Same p key (g.modify id f) :=
  fun other _ => property?_modify hf hk id other

end ResourceGraph

namespace Context

variable {p : String → Prop} {key : String}

/-- A resolver that is made has its own properties only. -/
theorem get?_newResolver_eq_none (c : Context) (typeName fieldName datasource stack : String)
    (hk : key ∉ resolverProperties) :
    (c.newResolver typeName fieldName datasource stack).get? key = none := by
  simp only [resolverProperties, List.mem_cons, List.not_mem_nil, or_false, not_or] at hk
  rw [ResourceGraph.get?_newResolver c _ _ _ _ hk.2.2.2, if_neg hk.2.2.1, if_neg hk.2.1,
    if_neg hk.1]

/-- A resolver for a field leaves properties alone that it is not given. -/
theorem same_addResolver {c : Context} {keys : List String} {f : Resource → Resource}
    (hf : Decorates keys f) (hk : key ∉ resolverProperties) (hkeys : key ∉ keys)
    (typeName fieldName datasource stack : String) :
    c.resources.Same p key (c.addResolver typeName fieldName datasource stack f).resources := by
  intro id _
  rw [ResourceGraph.property?, ResourceGraph.property?, get?_addResolver]
  split
  · cases c.resources.get? id with
    | none => exact (hf.get? _ key hkeys).trans (c.get?_newResolver_eq_none _ _ _ _ hk)
    | some r => exact hf.get? r key hkeys
  · rfl

/-- A resolver for a field gets the properties that it is given, also where it is there. -/
theorem property?_addResolver {f : Resource → Resource} {v : Json}
    (hf : ∀ r, (f r).get? key = some v) (c : Context)
    (typeName fieldName datasource stack id : String) :
    (c.addResolver typeName fieldName datasource stack f).resources.property? id key
      = if resolverId typeName fieldName = id then some v else c.resources.property? id key := by
  rw [ResourceGraph.property?, ResourceGraph.property?, get?_addResolver]
  by_cases he : resolverId typeName fieldName = id
  · rw [if_pos he, if_pos he.symm]
    exact hf _
  · rw [if_neg he, if_neg (Ne.symm he)]

theorem same_foldl {α : Type} {f : Context → α → Context} {as : List α}
    (h : ∀ a ∈ as, ∀ c : Context, c.resources.Same p key (f c a).resources) (c : Context) :
    c.resources.Same p key (as.foldl f c).resources :=
  List.foldlRecOn (motive := fun d : Context => c.resources.Same p key d.resources) as f
    (.refl p key _) fun d hd a ha => hd.trans (h a ha d)

end Context

/-! ### Steps -/

namespace PassAction

variable {α : Type} {p : String → Prop} {key : String}

/-- A property of the resources of some ids is the same in two states. -/
def SameProperty (p : String → Prop) (key : String) (s t : PassState) : Prop :=
  s.context.resources.Same p key t.context.resources

instance : IsPreorder PassState (SameProperty p key) where
  refl s := .refl p key s.context.resources
  trans _ _ _ := .trans

/-- A step leaves a property of the resources of some ids alone, whatever it ends with. -/
abbrev Leaves (p : String → Prop) (key : String) (x : PassAction α) : Prop :=
  Follows (SameProperty p key) x

theorem leaves_onContext {f : Context → Context}
    (h : ∀ c : Context, c.resources.Same p key (f c).resources) : Leaves p key (onContext f) :=
  fun s => h s.context

theorem leaves_onMemory (f : Memory → Memory) : Leaves p key (onMemory f) :=
  fun s => .refl p key s.context.resources

theorem leaves_log (level : LogLevel) (message : String) :
    Leaves p key (PassAction.log level message) :=
  fun s => .refl p key s.context.resources

/-- A list of changes that the context is examined for. -/
theorem leaves_fold {change : Context → α → Context} {find : Context → Except Fault (List α)}
    (h : ∀ a (c : Context), c.resources.Same p key (change c a).resources) :
    Leaves p key (do
      let as ← examine find
      onContext fun c => as.foldl change c) :=
  follows_bind (follows_examine _) fun _ =>
    leaves_onContext (Context.same_foldl fun a _ => h a)

end PassAction

variable {p : String → Prop} {key : String}

/-! ### Models -/

namespace ModelPass

theorem same_addStore {c d : Context} {model : String} (ht : ¬ p (tableId model))
    (hd : ¬ p (datasourceId model)) (h : addStore c model = .ok d) :
    c.resources.Same p key d.resources := by
  rcases addStore_eq h with rfl | ⟨dbType, secrets, rfl⟩
  · have tabled : c.resources.Same p key (c.resources.add (table c model)) :=
      ResourceGraph.same_add (by rwa [id_table])
    exact tabled.trans (ResourceGraph.same_add (r := tableDatasource model) hd)
  · exact ResourceGraph.same_add (by rwa [id_relationalDatasource])

theorem resources_addFields {c d : Context} {model : String} (h : addFields c model = .ok d) :
    d.resources = c.resources := by
  obtain ⟨t, ht, -⟩ := addFields_eq_ok h
  rw [addFields_of_getType? ht] at h
  cases h
  rfl

theorem same_addOperations (hk : key ∉ resolverProperties) (c : Context) (model : String) :
    c.resources.Same p key (addOperations c model).resources := by
  have unchanged : Decorates [] fun r => r := .refl
  have operation : ∀ root f (d : Context),
      d.resources.Same p key (addOperation root model d f).resources := fun root f d =>
    Context.same_addResolver unchanged hk List.not_mem_nil root f.name _ _
  exact (Context.same_foldl (fun f _ => operation "Query" f) c).trans
    (Context.same_foldl (fun f _ => operation "Mutation" f) _)

theorem materialize_leaves (hk : key ∉ resolverProperties) {model : String}
    (ht : ¬ p (tableId model)) (hd : ¬ p (datasourceId model)) (synthesized : Bool) :
    Leaves p key (materialize model synthesized) := by
  intro s
  rw [on_materialize]
  split
  · exact refl_of _ s
  · next c hc =>
    have stored : s.context.resources.Same p key c.resources := same_addStore ht hd hc
    split
    · exact stored
    · next d hf =>
      have fielded : c.resources.Same p key d.resources := by
        rw [resources_addFields hf]
        exact .refl p key _
      change s.context.resources.Same p key ((addOperations d model).log _ _).resources
      rw [Context.resources_log]
      exact stored.trans (fielded.trans (same_addOperations hk d model))

theorem apply_leaves (hk : key ∉ resolverProperties)
    (hp : ∀ model, ¬ p (tableId model) ∧ ¬ p (datasourceId model)) : Leaves p key apply := by
  refine follows_bind follows_context fun c =>
    follows_bind (follows_forEach fun m _ => follows_bind follows_memory fun _ => ?_) fun _ =>
      leaves_log _ _
  split
  · exact follows_pure ()
  · exact materialize_leaves hk (hp m).1 (hp m).2 false

end ModelPass

/-! ### Bound fields -/

namespace FunctionPass

/-- The address of the function that a binding comes down to. -/
def address (functions : Dict FunctionHandle) (c : Context) (b : Binding) : String :=
  functionArn functions c (functionName c b)

/-- A field that is bound gets a datasource with the address of the function, and a resolver that
calls it. -/
theorem resources_bind_eq (functions : Dict FunctionHandle) (c : Context) (b : Binding) :
    (bind functions c b).resources
      = ((c.addResource (datasourceOf (functionName c b) (address functions c b))).addResolver
          b.type b.field (datasource (functionName c b)) stack
            (·.push "pipelineFunctions" (.str (functionName c b)))).resources := by
  unfold bind
  dsimp only
  split <;> rfl

theorem resources_bind (functions : Dict FunctionHandle) (c : Context) (b : Binding) :
    ∃ arn, (bind functions c b).resources
      = ((c.addResource (datasourceOf (functionName c b) arn)).addResolver b.type b.field
          (datasource (functionName c b)) stack
            (·.push "pipelineFunctions" (.str (functionName c b)))).resources :=
  ⟨_, resources_bind_eq functions c b⟩

theorem apply_leaves (functions : Dict FunctionHandle) (hk : key ∉ resolverProperties)
    (hkey : key ∉ ["pipelineFunctions"]) (hp : ∀ function, ¬ p (datasource function)) :
    Leaves p key (apply functions) := by
  refine leaves_fold fun b c => ?_
  obtain ⟨arn, hbind⟩ := resources_bind functions c b
  have provided : c.resources.Same p key
      (c.addResource (datasourceOf (functionName c b) arn)).resources :=
    ResourceGraph.same_add (r := datasourceOf (functionName c b) arn) (hp (functionName c b))
  rw [hbind]
  exact provided.trans (Context.same_addResolver (.push List.mem_cons_self _) hk hkey _ _ _ _)

end FunctionPass

namespace HttpPass

theorem apply_leaves (hk : key ∉ resolverProperties) (hkey : key ∉ ["method", "resourcePath"])
    (hp : ∀ u, ¬ p (datasource u)) : Leaves p key apply :=
  leaves_fold fun b c =>
    have ensured : c.resources.Same p key (c.resources.ensure (datasourceOf b.url)) :=
      ResourceGraph.same_ensure (r := datasourceOf b.url) (hp b.url)
    ensured.trans (Context.same_addResolver (c := { c with resources := _ })
      ((Decorates.set (by decide) _).comp (.set (by decide) _)) hk hkey _ _ _ _)

end HttpPass

namespace PredictionsPass

theorem same_bind (hk : key ∉ resolverProperties) (hkey : key ∉ ["actions"]) (c : Context)
    (usage : String × List String) : c.resources.Same p key (bind c usage).resources :=
  Context.same_addResolver (.set List.mem_cons_self _) hk hkey _ _ _ _

theorem apply_leaves (storage : Option Json) (hk : key ∉ resolverProperties)
    (hkey : key ∉ ["actions"]) (hp : ∀ id ∈ ["PredictionsStorageAccess", "PredictionsDataSource"],
      ¬ p id) : Leaves p key (apply storage) := by
  refine follows_bind (follows_examine _) fun us => ?_
  split
  · exact follows_pure ()
  · split
    · exact follows_throw _
    · next bucket _ =>
      refine leaves_onContext fun c => ?_
      have stored : c.resources.Same p key (c.resources.add (storageAccess bucket)) :=
        ResourceGraph.same_add (hp _ List.mem_cons_self)
      have provided := stored.trans (ResourceGraph.same_add (r := datasource)
        (hp _ (List.mem_cons_of_mem _ List.mem_cons_self)))
      exact provided.trans (Context.same_foldl (fun u _ d => same_bind hk hkey d u)
        ((c.addResource (storageAccess bucket)).addResource datasource))

end PredictionsPass

/-! ### Keys -/

namespace PrimaryKeyPass

theorem apply_leaves (hkey : key ∉ ["hashKey", "sortKeys"]) : Leaves p key apply := by
  refine leaves_fold fun k c => ?_
  unfold setKey
  dsimp only
  split
  · exact ResourceGraph.same_modify (.setKey _ _) hkey _
  · exact .refl p key _

end PrimaryKeyPass

namespace IndexPass

/-- An index is listed by the table. -/
theorem same_modify_push {keys : List String} (hlists : ∀ list ∈ indexLists, list ∈ keys)
    (hkey : key ∉ keys) (c : Context) (r : IndexRecord) :
    c.resources.Same p key (c.resources.modify (tableId r.model)
      (·.push (listedUnder c) (entry r.name r.partitionKey r.sortKeys))) :=
  ResourceGraph.same_modify (.push (hlists _ (listedUnder_mem c)) _) hkey _

theorem same_attach (hk : key ∉ resolverProperties) (hkey : key ∉ "index" :: indexLists)
    (c : Context) (r : IndexRecord) : c.resources.Same p key (attach c r).resources := by
  have pushed := same_modify_push (p := p) (fun _ hl => List.mem_cons_of_mem _ hl) hkey c r
  rw [attach, addQuery]
  split
  · exact pushed
  · exact pushed.trans (Context.same_addResolver (c := c.modifyResource (tableId r.model) _)
      (.set List.mem_cons_self _) hk hkey _ _ _ _)

theorem addIndex_leaves {r : IndexRecord}
    (h : ∀ c : Context, c.resources.Same p key (attach c r).resources) :
    Leaves p key (addIndex r) :=
  follows_bind follows_context fun _ => follows_guard (follows_bind follows_memory fun _ =>
    follows_guard (follows_bind (leaves_onContext h) fun _ =>
      follows_bind (leaves_log _ _) fun _ => leaves_onMemory _))

theorem apply_leaves (hk : key ∉ resolverProperties) (hkey : key ∉ "index" :: indexLists) :
    Leaves p key apply :=
  follows_bind (follows_examine _) fun _ => follows_forEach fun r _ =>
    addIndex_leaves fun c => same_attach hk hkey c r

end IndexPass

/-! ### Relations -/

theorem same_addLinkResolver {properties : List (String × Json)} {keys : List String}
    (hkeys : ∀ q ∈ properties, q.1 ∈ keys) (hk : key ∉ resolverProperties) (hkey : key ∉ keys)
    (c : Context) (l : Link) :
    c.resources.Same p key (addLinkResolver c l properties).resources :=
  Context.same_addResolver (.foldl_set hkeys) hk hkey _ _ _ _

namespace HasManyPass

theorem apply_leaves (hk : key ∉ resolverProperties)
    (hkey : key ∉ ["globalSecondaryIndexes", "relation", "index"]) : Leaves p key apply := by
  refine follows_bind (follows_examine _) fun ls => follows_forEach fun l _ =>
    follows_guard (leaves_onContext fun c => ?_)
  have pushed : c.resources.Same p key (c.resources.modify (tableId l.target)
      (·.push "globalSecondaryIndexes" (.obj [("indexName", .str (indexName l)),
        ("partitionKey", .str l.foreignKey), ("sortKeys", .arr [])]))) :=
    ResourceGraph.same_modify (.push List.mem_cons_self _) hkey _
  exact pushed.trans (same_addLinkResolver (by simp) hk hkey
    (retypeField ((ensureForeignKey c l.target l.foreignKey).modifyResource (tableId l.target) _)
      l.source l.field _) l)

end HasManyPass

namespace HasOnePass

theorem apply_leaves (hk : key ∉ resolverProperties) (hkey : key ∉ ["relation", "foreignKey"]) :
    Leaves p key apply := by
  refine follows_bind (follows_examine _) fun ls =>
    follows_bind (follows_forEach fun l _ => follows_guard (follows_bind
      (leaves_onContext fun c =>
        same_addLinkResolver (by simp) hk hkey (ensureForeignKey c _ _) l)
      fun _ => leaves_onMemory _)) fun _ => follows_bind follows_memory fun m => ?_
  split
  · exact follows_throw _
  · exact follows_pure ()

end HasOnePass

namespace BelongsToPass

theorem apply_leaves (hk : key ∉ resolverProperties) (hkey : key ∉ ["relation", "foreignKey"]) :
    Leaves p key apply :=
  follows_bind (follows_examine _) fun _ => follows_forEach fun l _ =>
    follows_guard (follows_bind follows_context fun _ => follows_guard
      (leaves_onContext fun c => same_addLinkResolver (by simp) hk hkey (ensureForeignKey c _ _) l))

end BelongsToPass

namespace ManyToManyPass

/-- What is made behind a join model. -/
theorem linkEnds_leaves (hk : key ∉ resolverProperties) (hkey : key ∉ "relation" :: indexLists)
    (join : String) (a b : Member) : Leaves p key (linkEnds join a b) := by
  have indexed : ∀ m, Leaves p key (indexEnd join m) := fun m =>
    follows_bind (follows_writing _) fun _ =>
      IndexPass.addIndex_leaves fun c =>
        -- such an index has no query
        IndexPass.same_modify_push (fun _ hl => List.mem_cons_of_mem _ hl) hkey c (joinIndex join m)
  refine follows_bind (follows_forEach fun m _ => indexed m) fun _ =>
    follows_bind (follows_writing _) fun _ => follows_bind (leaves_onMemory _) fun _ =>
      follows_bind (follows_writing _) fun _ => follows_bind (leaves_onMemory _) fun _ =>
        follows_bind (leaves_onContext (Context.same_foldl fun m _ c => ?_)) fun _ =>
          leaves_log _ _
  exact Context.same_addResolver (c := retypeField c m.type m.field _)
    (.set List.mem_cons_self _) hk hkey _ _ _ _

theorem linkGroup_leaves (hk : key ∉ resolverProperties) (hkey : key ∉ "relation" :: indexLists)
    {join : String} (ht : ¬ p (tableId join)) (hd : ¬ p (datasourceId join))
    (members : List Member) : Leaves p key (linkGroup join members) := by
  have required : ∀ m, Leaves p key (requireModel m) := fun m =>
    follows_bind (follows_reading _) fun _ => follows_bind follows_memory fun _ => by
      split
      · exact follows_pure ()
      · exact follows_throw _
  refine follows_bind (follows_ofExcept _) fun (a, b) => follows_bind (required a) fun _ =>
    follows_bind (required b) fun _ => ?_
  rw [buildJoin_eq]
  refine follows_bind (follows_writing _) fun _ => follows_bind (fun s => ?_) fun _ =>
    linkEnds_leaves hk hkey join a b
  rw [ModelPass.on_addSynthesized]
  split
  · exact refl_of _ s
  · exact ModelPass.materialize_leaves hk ht hd true
      { s with context := ModelPass.declare join (joinFields a b) s.context }

/-- The pass leaves alone what is no store of a join model. -/
theorem apply_leaves (hk : key ∉ resolverProperties) (hkey : key ∉ "relation" :: indexLists)
    {s : PassState} (hp : ∀ join, s.context.schema.IsJoin join →
      ¬ p (tableId join) ∧ ¬ p (datasourceId join)) : SameProperty p key s (apply.on s).2 := by
  rw [apply, on_examine_bind]
  split
  · next g hg =>
    refine follows_forEach (R := SameProperty p key) (fun q hq => ?_) s
    have hstore := hp q.1 (of_groups hg (Dict.mem_toList_iff.1 hq)).1
    exact linkGroup_leaves hk hkey hstore.1 hstore.2 q.2
  · exact refl_of _ s

end ManyToManyPass

/-! ### Values, rules and tables elsewhere -/

namespace DefaultPass

theorem apply_leaves (hk : key ∉ resolverProperties) (hkey : key ∉ ["defaults"]) :
    Leaves p key apply :=
  leaves_fold fun d _ => Context.same_addResolver
    (setDefault_decorates List.mem_cons_self d.field d.value) hk hkey _ _ _ _

end DefaultPass

namespace AuthPass

theorem same_addOptional {c : Context} {r : Option Resource} (h : ∀ r', r = some r' → ¬ p r'.id) :
    c.resources.Same p key (addOptional c r).resources := by
  cases r with
  | none => exact .refl p key _
  | some r => exact ResourceGraph.same_add (h r rfl)

theorem apply_leaves (args : FactoryArgs) (hkey : key ∉ ["authRules"])
    (hp : ¬ p adminPolicy ∧ ¬ p defaultApiKey) : Leaves p key (apply args) := by
  have collected : Leaves p key collectRules :=
    follows_bind follows_context fun c => follows_forEach fun t _ =>
      follows_bind (follows_examine _) fun _ => leaves_onMemory _
  have settled : ∀ model, Leaves p key (settleModel model) := by
    refine fun model => follows_bind follows_memory fun _ => ?_
    split
    · exact follows_pure ()
    · refine follows_bind follows_context fun _ => ?_
      split
      · exact leaves_onMemory _
      · exact leaves_log _ _
  have attached : ∀ m model (c : Context),
      c.resources.Same p key (attachRules m c model).resources := fun m model c =>
    Context.same_foldl
      (fun id _ d => ResourceGraph.same_modify (.set List.mem_cons_self _) hkey id) c
  have added : ∀ c : Context, c.resources.Same p key
      (addOptional (addOptional c (policy? args)) (apiKey? c)).resources := by
    refine fun c => (same_addOptional fun r hr => ?_).trans (same_addOptional fun r hr => ?_)
    · obtain ⟨f, hf, rfl⟩ := exists_of_policy? hr
      rw [hf.id]
      exact hp.1
    · obtain ⟨f, hf, rfl⟩ := exists_of_apiKey? hr
      rw [hf.id]
      exact hp.2
  exact follows_bind collected fun _ => follows_bind (leaves_onMemory _) fun _ =>
    follows_bind follows_context fun _ =>
      follows_bind (follows_forEach fun m _ => settled m) fun _ =>
        follows_bind follows_memory fun m => follows_bind (follows_examine _) fun _ =>
          follows_bind (leaves_onContext (Context.same_foldl fun model _ => attached m model))
            fun _ => follows_bind (leaves_onContext added) fun _ => leaves_log _ _

end AuthPass

namespace MapsToPass

theorem apply_leaves (hkey : key ∉ tableNaming) : Leaves p key apply :=
  leaves_fold fun m c =>
    have renamed : c.resources.Same p key (c.resources.modify (tableId m.model) fun r =>
        (r.set "tableName" (.str m.table)).setName m.table) :=
      ResourceGraph.same_modify (.rename _) hkey _
    have named : Decorates tableNaming (·.setName m.table) := .set (by decide) _
    renamed.trans (ResourceGraph.same_modify named hkey _)

end MapsToPass

namespace SearchPass

theorem same_provision (hp : ∀ id ∈ [domainId, searchDatasource, streamingFunction], ¬ p id)
    (c : Context) (ms : List String) : c.resources.Same p key (provision c ms).resources := by
  obtain ⟨hdomain, hdatasource, hfunction⟩ : ¬ p domainId ∧ ¬ p searchDatasource
      ∧ ¬ p streamingFunction := by simpa using hp
  have domained : c.resources.Same p key (c.resources.add
      (domain c.parameters.enableSearchNodeToNodeEncryption)) := ResourceGraph.same_add hdomain
  have searched := domained.trans (ResourceGraph.same_add (r := datasource) hdatasource)
  refine searched.trans (ResourceGraph.same_add ?_)
  rw [streaming, (ResourceGraph.streaming_decorates ms).id]
  exact hfunction

theorem same_attach (hk : key ∉ resolverProperties) (hkey : key ∉ ["streamViewType", "index"])
    (c : Context) (model : String) : c.resources.Same p key (attach c model).resources := by
  have sets : ∀ k ∈ ["streamViewType", "index"], ∀ v, Decorates ["streamViewType", "index"]
      (·.set k v) := fun _ hm v => .set hm v
  have viewed : c.resources.Same p key (c.resources.modify (tableId model)
      (·.set "streamViewType" (.str "NEW_AND_OLD_IMAGES"))) :=
    ResourceGraph.same_modify (sets _ (by decide) _) hkey _
  exact viewed.trans (Context.same_addResolver (c := c.modifyResource (tableId model) _)
    (sets _ (by decide) _) hk hkey _ _ _ _)

theorem apply_leaves (hk : key ∉ resolverProperties) (hkey : key ∉ ["streamViewType", "index"])
    (hp : ∀ id ∈ [domainId, searchDatasource, streamingFunction], ¬ p id) :
    Leaves p key apply := by
  refine follows_bind (follows_examine _) fun ms => ?_
  split
  · exact follows_pure ()
  · exact leaves_onContext fun c => (same_provision hp c ms).trans
      (Context.same_foldl (fun m _ d => same_attach hk hkey d m) (provision c ms))

end SearchPass

/-! ### Chains -/

namespace Chain

/-- The properties that a pass of some name changes, of those that every chain starts with, besides
those that a resolver is made with. -/
def changed (name : String) : List String :=
  match name with
  | "function"    => ["pipelineFunctions"]
  | "http"        => ["method", "resourcePath"]
  | "predictions" => ["actions"]
  | "primaryKey"  => ["hashKey", "sortKeys"]
  | "index"       => "index" :: indexLists
  | "hasMany"     => ["globalSecondaryIndexes", "relation", "index"]
  | "hasOne"      => ["relation", "foreignKey"]
  | "manyToMany"  => "relation" :: indexLists
  | "belongsTo"   => ["relation", "foreignKey"]
  | "default"     => ["defaults"]
  | "auth"        => ["authRules"]
  | "mapsTo"      => tableNaming
  | "searchable"  => ["streamViewType", "index"]
  | _             => []

/-- The kinds of the resources that it adds, besides resolvers, policies, keys and functions. -/
def supplied (name : String) : List ResourceKind :=
  match name with
  | "model"       => [.table, .dataSource]
  | "function"    => [.dataSource]
  | "http"        => [.dataSource]
  | "predictions" => [.dataSource]
  | "manyToMany"  => [.table, .dataSource]
  | "searchable"  => [.dataSource, .searchDomain]
  | _             => []

/-- The ids that stand for a kind. -/
def OfKind (kind : ResourceKind) (id : String) : Prop := kindOfId? id = some kind

/-- **The passes of every chain leave the properties alone** that they do not change. -/
theorem builtin_leaves {args : FactoryArgs} {e : Entry} {kind : ResourceKind}
    (he : e ∈ builtin args) (hk : key ∉ resolverProperties) (hkey : key ∉ changed e.pass.name)
    (hkind : kind ∉ supplied e.pass.name) : Leaves (OfKind kind) key e.pass.apply := by
  have other : ∀ {id k}, kindOfId? id = some k → kind ≠ k → ¬ OfKind kind id :=
    fun hid hne hkind => hne (Option.some.inj (hkind.symm.trans hid))
  have none : ∀ {id}, kindOfId? id = none → ¬ OfKind kind id :=
    fun hid hkind => Option.some_ne_none _ (hkind.symm.trans hid)
  have stores : kind ∉ [ResourceKind.table, .dataSource] → ∀ model,
      ¬ OfKind kind (tableId model) ∧ ¬ OfKind kind (datasourceId model) := fun hn model => by
    simp only [List.mem_cons, List.not_mem_nil, or_false, not_or] at hn
    exact ⟨other (kindOfId?_tableId model) hn.1, other (kindOfId?_datasourceId model) hn.2⟩
  simp only [builtin, List.mem_cons, List.not_mem_nil, or_false] at he
  rcases he with rfl | rfl | rfl | rfl | rfl | rfl | rfl | rfl | rfl | rfl | rfl | rfl | rfl | rfl
  · exact ModelPass.apply_leaves hk (stores hkind)
  · refine FunctionPass.apply_leaves _ hk hkey fun f => ?_
    rw [FunctionPass.datasource_eq]
    exact other (kindOfId?_datasourceId _) (List.ne_of_not_mem_cons hkind)
  · exact HttpPass.apply_leaves hk hkey fun u =>
      other (kindOfId?_datasourceId _) (List.ne_of_not_mem_cons hkind)
  · refine PredictionsPass.apply_leaves _ hk hkey ?_
    simp only [List.forall_mem_cons, List.not_mem_nil, false_imp_iff, implies_true, and_true]
    exact ⟨none (by decide), other (kindOfId?_datasourceId "Predictions")
      (List.ne_of_not_mem_cons hkind)⟩
  · exact PrimaryKeyPass.apply_leaves hkey
  · exact IndexPass.apply_leaves hk hkey
  · exact HasManyPass.apply_leaves hk hkey
  · exact HasOnePass.apply_leaves hk hkey
  · exact fun s => ManyToManyPass.apply_leaves hk hkey fun join _ => stores hkind join
  · exact BelongsToPass.apply_leaves hk hkey
  · exact DefaultPass.apply_leaves hk hkey
  · exact AuthPass.apply_leaves args hkey ⟨none (by decide), none (by decide)⟩
  · exact MapsToPass.apply_leaves hkey
  · refine SearchPass.apply_leaves hk hkey ?_
    simp only [List.forall_mem_cons, List.not_mem_nil, false_imp_iff, implies_true, and_true]
    exact ⟨other (by decide) (List.ne_of_not_mem_cons (List.not_mem_of_not_mem_cons hkind)),
      other (kindOfId?_datasourceId "OpenSearch") (List.ne_of_not_mem_cons hkind),
      none (by decide)⟩

/-- What each of some passes leaves alone, they leave alone one after the other. -/
theorem entries_leave {es : Chain} (h : ∀ e ∈ es, Leaves p key e.pass.apply) :
    Leaves p key (Action.forEach Entry.apply es) :=
  follows_forEach fun e he => follows_bind (follows_ofExcept _) fun _ => h e he

end Chain

end ApiCompiler
