import ApiCompiler.Chain
import ApiCompiler.Proofs.Pass.Relation
import ApiCompiler.Proofs.Resource.Ids

/-!
# Passes — what passes leave alone

Of what the passes of a run share, each touches a few parts only.

* `Part.Same`: a part is the same in two states.
* `Spares`: a step leaves a part alone, whatever it ends with. So does what is made of such steps.
* `apply_spares`, one for each pass.
* `Chain.builtin_spares`: what the passes that every chain starts with leave alone.
-/

namespace ApiCompiler

open PassAction

/-- A part of what the passes of a run share. -/
inductive Part where
  /-- The types that have a table or a datasource of their own. -/
  | stores
  | models
  | indexes
  | relations
  | rules
  | joins
deriving DecidableEq

/-- A part is the same in two states. -/
def Part.Same : Part → PassState → PassState → Prop
  | stores, s, t    => t.context.isModel = s.context.isModel
  | models, s, t    => t.memory.models = s.memory.models
  | indexes, s, t   => t.memory.indexes = s.memory.indexes
  | relations, s, t => t.memory.relations = s.memory.relations
  | rules, s, t     => t.memory.rules = s.memory.rules
  | joins, s, t     => t.memory.joinModels = s.memory.joinModels

namespace Part.Same

variable {part : Part} {s t u : PassState}

theorem refl (part : Part) (s : PassState) : part.Same s s := by cases part <;> rfl

theorem trans (h : part.Same s t) (h' : part.Same t u) : part.Same s u := by
  cases part <;> exact Eq.trans h' h

/-- Where nothing changes but the context, and no type gets or loses a store, every part is the
same. -/
theorem ofContext {c : Context} (h : c.isModel = s.context.isModel) :
    part.Same s { s with context := c } := by
  cases part
  case stores => exact h
  all_goals rfl

end Part.Same

/-! ### Stores -/

namespace Context

variable {c : Context} {r : Resource}

theorem isModel_iff {type : String} : c.isModel type = true ↔
    c.resources.contains (tableId type) = true
      ∨ c.resources.contains (datasourceId type) = true := by
  rw [isModel, Bool.or_eq_true]

/-- A resource makes a type look like a model where its id is one of a store of the type. -/
theorem isModel_addResource {type : String} : (c.addResource r).isModel type = true ↔
    (tableId type = r.id ∨ datasourceId type = r.id) ∨ c.isModel type = true := by
  rw [isModel_iff, isModel_iff, resources_addResource, ResourceGraph.contains_add_iff,
    ResourceGraph.contains_add_iff, or_or_or_comm]

/-- A datasource makes only the type of its id look like a model. -/
theorem isModel_addResource_datasource {type model : String} (hr : r.id = datasourceId model) :
    (c.addResource r).isModel type = true ↔ type = model ∨ c.isModel type = true := by
  have htable : tableId type ≠ datasourceId model := fun he => by
    have := (kindOfId?_tableId type).symm.trans (he ▸ kindOfId?_datasourceId model)
    cases this
  rw [isModel_addResource, hr, or_iff_right htable]
  exact or_congr_left ⟨datasourceId_inj, congrArg datasourceId⟩

/-- What is no store makes no type look like a model. -/
theorem isModel_addResource_of_kind (ht : kindOfId? r.id ≠ some .table)
    (hd : kindOfId? r.id ≠ some .dataSource) : (c.addResource r).isModel = c.isModel := by
  funext type
  rw [Bool.eq_iff_iff, isModel_addResource, or_iff_right]
  rintro (h | h)
  · exact ht (h ▸ kindOfId?_tableId type)
  · exact hd (h ▸ kindOfId?_datasourceId type)

theorem isModel_log (c : Context) (level : LogLevel) (message : String) :
    (c.log level message).isModel = c.isModel := rfl

theorem isModel_modifyResource (c : Context) (id : String) (f : Resource → Resource) :
    (c.modifyResource id f).isModel = c.isModel := by
  funext type
  rw [isModel, isModel, resources_modifyResource, ResourceGraph.contains_modify,
    ResourceGraph.contains_modify]

theorem isModel_addResolver (c : Context) (typeName fieldName datasource stack : String)
    (f : Resource → Resource) :
    (c.addResolver typeName fieldName datasource stack f).isModel = c.isModel := by
  have hid := id_newResolver c typeName fieldName datasource stack
  have made : (c.addResource (c.newResolver typeName fieldName datasource stack)).isModel
      = c.isModel := by
    apply isModel_addResource_of_kind <;> rw [hid, kindOfId?_resolverId] <;> decide
  refine (isModel_modifyResource { c with resources := c.resources.ensure _ } _ f).trans ?_
  unfold ResourceGraph.ensure
  split
  · rfl
  · exact made

theorem isModel_foldl {α : Type} {f : Context → α → Context}
    (h : ∀ c a, (f c a).isModel = c.isModel) (as : List α) (c : Context) :
    (as.foldl f c).isModel = c.isModel := by
  induction as generalizing c with
  | nil => rfl
  | cons a as ih => exact (ih (f c a)).trans (h c a)

end Context

/-! ### Steps -/

namespace PassAction

variable {α β : Type} {part : Part}

/-- A step leaves a part alone, whatever it ends with. -/
def Spares (part : Part) (x : PassAction α) : Prop := ∀ s, part.Same s (x.on s).2

instance : IsPreorder PassState part.Same where
  refl := .refl part
  trans _ _ _ := .trans

theorem Spares.of_ok {x : PassAction α} {s t : PassState} {a : α} (hx : Spares part x)
    (h : x.on s = (.ok a, t)) : part.Same s t :=
  Follows.of_ok hx h

theorem spares_pure (a : α) : Spares part (pure a) := follows_pure a

theorem spares_throw (e : Fault) : Spares part (throw e : PassAction α) := follows_throw e

theorem spares_context : Spares part context := follows_context

theorem spares_memory : Spares part memory := follows_memory

theorem spares_ofExcept (r : Except Fault α) : Spares part (Action.ofExcept r) :=
  follows_ofExcept r

theorem spares_examine (f : Context → Except Fault α) : Spares part (examine f) :=
  follows_examine f

theorem spares_reading (role : Role) : Spares part (reading role) := follows_reading role

theorem spares_writing (role : Role) : Spares part (writing role) := follows_writing role

theorem spares_bind {x : PassAction α} {f : α → PassAction β} (hx : Spares part x)
    (hf : ∀ a, Spares part (f a)) : Spares part (x >>= f) :=
  follows_bind hx hf

theorem spares_forEach {f : α → PassAction Unit} (hf : ∀ a, Spares part (f a)) (as : List α) :
    Spares part (Action.forEach f as) :=
  follows_forEach fun a _ => hf a

theorem spares_onContext {f : Context → Context} (h : ∀ c, (f c).isModel = c.isModel) :
    Spares part (onContext f) :=
  fun s => .ofContext (h s.context)

theorem spares_onMemory {f : Memory → Memory}
    (h : ∀ s : PassState, part.Same s { s with memory := f s.memory }) :
    Spares part (onMemory f) :=
  h

theorem spares_log (level : LogLevel) (message : String) :
    Spares part (PassAction.log level message) :=
  spares_onContext fun _ => rfl

theorem spares_guard {p : Prop} [Decidable p] {e : Fault} {f : Unit → PassAction β}
    (h : Spares part (f ())) : Spares part (if p then throw e >>= f else f ()) :=
  follows_guard h

end PassAction

variable {part : Part}

/-! ### Fields and keys -/

namespace FunctionPass

theorem apply_spares (functions : Dict FunctionHandle) (h : part ≠ .stores) :
    Spares part (apply functions) := by
  refine spares_bind (spares_examine _) fun bs s => ?_
  cases part
  case stores => exact absurd rfl h
  all_goals rfl

end FunctionPass

namespace HttpPass

theorem apply_spares (h : part ≠ .stores) : Spares part apply := by
  refine spares_bind (spares_examine _) fun bs s => ?_
  cases part
  case stores => exact absurd rfl h
  all_goals rfl

end HttpPass

namespace PredictionsPass

theorem apply_spares (storage : Option Json) (h : part ≠ .stores) :
    Spares part (apply storage) := by
  refine spares_bind (spares_examine _) fun us => ?_
  split
  · exact spares_pure ()
  · split
    · exact spares_throw _
    · intro s
      cases part
      case stores => exact absurd rfl h
      all_goals rfl

end PredictionsPass

namespace PrimaryKeyPass

theorem isModel_setKey (c : Context) (k : Key) : (setKey c k).isModel = c.isModel := by
  rw [setKey]
  split
  · exact c.isModel_modifyResource _ _
  · rfl

theorem apply_spares : Spares part apply :=
  spares_bind (spares_examine _) fun ks =>
    spares_onContext (Context.isModel_foldl isModel_setKey ks)

end PrimaryKeyPass

namespace IndexPass

theorem isModel_attach (c : Context) (r : IndexRecord) : (attach c r).isModel = c.isModel := by
  rw [attach, addQuery]
  split
  · exact c.isModel_modifyResource _ _
  · exact (Context.isModel_addResolver _ _ _ _ _ _).trans (c.isModel_modifyResource _ _)

theorem addIndex_spares (r : IndexRecord) (h : part ≠ .indexes) : Spares part (addIndex r) := by
  refine spares_bind spares_context fun c => spares_guard (spares_bind spares_memory fun m =>
    spares_guard (spares_bind (spares_onContext fun c => isModel_attach c r) fun _ =>
      spares_bind (spares_log _ _) fun _ => spares_onMemory fun s => ?_))
  cases part
  case indexes => exact absurd rfl h
  all_goals rfl

theorem apply_spares (h : part ≠ .indexes) : Spares part apply :=
  spares_bind (spares_examine _) (spares_forEach fun r => addIndex_spares r h)

end IndexPass

/-! ### Relations -/

theorem isModel_addLinkResolver (c : Context) (l : Link) (properties : List (String × Json)) :
    (addLinkResolver c l properties).isModel = c.isModel :=
  c.isModel_addResolver _ _ _ _ _

namespace HasManyPass

theorem isModel_attach (c : Context) (l : Link) : (attach c l).isModel = c.isModel :=
  (isModel_addLinkResolver _ l _).trans
    (Context.isModel_modifyResource (ensureForeignKey c l.target l.foreignKey) _ _)

theorem apply_spares : Spares part apply :=
  spares_bind (spares_examine _) (spares_forEach fun l =>
    spares_guard (spares_onContext fun c => isModel_attach c l))

end HasManyPass

namespace HasOnePass

theorem link_spares (l : Link) (h : part ≠ .relations) : Spares part (link l) := by
  refine spares_guard (spares_bind
    (spares_onContext fun c => isModel_addLinkResolver _ l _) fun _ => spares_onMemory fun s => ?_)
  cases part
  case relations => exact absurd rfl h
  all_goals rfl

theorem apply_spares (h : part ≠ .relations) : Spares part apply := by
  refine spares_bind (spares_examine _) fun ls =>
    spares_bind (spares_forEach (fun l => link_spares l h) ls) fun _ =>
      spares_bind spares_memory fun m => ?_
  split
  · exact spares_throw _
  · exact spares_pure ()

end HasOnePass

namespace BelongsToPass

theorem apply_spares : Spares part apply :=
  spares_bind (spares_examine _) (spares_forEach fun l =>
    spares_guard (spares_bind spares_context fun _ =>
      spares_guard (spares_onContext fun _ => isModel_addLinkResolver _ l _)))

end BelongsToPass

namespace ManyToManyPass

theorem isModel_attach (join : String) (c : Context) (m : Member) :
    (attach join c m).isModel = c.isModel :=
  Context.isModel_addResolver (retypeField c m.type m.field _) _ _ _ _ _

theorem requireModel_spares (m : Member) : Spares part (requireModel m) := by
  refine spares_bind (spares_reading _) fun _ => spares_bind spares_memory fun _ => ?_
  split
  · exact spares_pure ()
  · exact spares_throw _

theorem indexEnd_spares (join : String) (m : Member) (h : part ≠ .indexes) :
    Spares part (indexEnd join m) :=
  spares_bind (spares_writing _) fun _ => IndexPass.addIndex_spares _ h

/-- What is made behind a join model touches no store and no model. -/
theorem linkEnds_spares (join : String) (a b : Member)
    (h : part ∉ [Part.indexes, .relations, .joins]) : Spares part (linkEnds join a b) := by
  have hindexes : part ≠ .indexes := List.ne_of_not_mem_cons h
  refine spares_bind (spares_forEach (fun m => indexEnd_spares join m hindexes) _) fun _ =>
    spares_bind (spares_writing _) fun _ => spares_bind (spares_onMemory fun s => ?_) fun _ =>
      spares_bind (spares_writing _) fun _ => spares_bind (spares_onMemory fun s => ?_) fun _ =>
        spares_bind (spares_onContext (Context.isModel_foldl (isModel_attach join) _)) fun _ =>
          spares_log _ _
  · cases part
    case relations => exact absurd (by decide) h
    all_goals rfl
  · cases part
    case joins => exact absurd (by decide) h
    all_goals rfl

end ManyToManyPass

/-! ### Models -/

namespace ModelPass

theorem materialize_spares (model : String) (synthesized : Bool)
    (h : part ∉ [Part.stores, .models]) : Spares part (materialize model synthesized) := by
  intro s
  rw [on_materialize]
  split
  · exact .refl part s
  · split <;>
    · cases part
      case stores | models => exact absurd (by decide) h
      all_goals rfl

theorem addSynthesized_spares (model : String) (fields : List FieldDefinition)
    (h : part ∉ [Part.stores, .models]) : Spares part (addSynthesized model fields) := by
  intro s
  rw [on_addSynthesized]
  split
  · exact .refl part s
  · have declared : part.Same s { s with context := declare model fields s.context } :=
      .ofContext rfl
    exact declared.trans (materialize_spares model true h _)

theorem apply_spares (h : part ∉ [Part.stores, .models]) : Spares part apply := by
  refine spares_bind spares_context fun c =>
    spares_bind (spares_forEach (fun m => spares_bind spares_memory fun _ => ?_) _) fun _ =>
      spares_log _ _
  split
  · exact spares_pure ()
  · exact materialize_spares m false h

end ModelPass

theorem ManyToManyPass.apply_spares (h : part = .rules) : Spares part apply := by
  subst h
  refine spares_bind (spares_examine _) fun g => spares_forEach (fun p =>
    spares_bind (spares_ofExcept _) fun (a, b) =>
      spares_bind (requireModel_spares a) fun _ => spares_bind (requireModel_spares b) fun _ => ?_)
    g.toList
  rw [buildJoin_eq]
  exact spares_bind (spares_writing _) fun _ =>
    spares_bind (ModelPass.addSynthesized_spares _ _ (by decide)) fun _ =>
      linkEnds_spares p.1 a b (by decide)

/-! ### Values, rules and tables elsewhere -/

namespace DefaultPass

theorem isModel_attach (c : Context) (d : Default) : (attach c d).isModel = c.isModel :=
  c.isModel_addResolver _ _ _ _ _

theorem apply_spares : Spares part apply :=
  spares_bind (spares_examine _) fun ds =>
    spares_onContext (Context.isModel_foldl isModel_attach ds)

end DefaultPass

namespace AuthPass

theorem isModel_addOptional {c : Context} {r : Option Resource}
    (h : ∀ r', r = some r' → kindOfId? r'.id = none) : (addOptional c r).isModel = c.isModel := by
  cases r with
  | none => rfl
  | some r =>
    have hid := h r rfl
    exact Context.isModel_addResource_of_kind (by rw [hid]; nofun) (by rw [hid]; nofun)

theorem kindOfId?_policy {args : FactoryArgs} {r : Resource} (h : policy? args = some r) :
    kindOfId? r.id = none := by
  obtain ⟨f, hf, rfl⟩ := exists_of_policy? h
  rw [hf.id]
  decide

theorem kindOfId?_apiKey {c : Context} {r : Resource} (h : apiKey? c = some r) :
    kindOfId? r.id = none := by
  obtain ⟨f, hf, rfl⟩ := exists_of_apiKey? h
  rw [hf.id]
  decide

theorem onRules_spares {f : Memory → Memory} (hf : ∀ m, { f m with rules := m.rules } = m)
    (h : part ≠ .rules) : Spares part (onMemory f) := by
  refine spares_onMemory fun s => ?_
  have hm := hf s.memory
  cases part
  case rules => exact absurd rfl h
  case stores => rfl
  case models => exact (congrArg Memory.models hm :)
  case indexes => exact (congrArg Memory.indexes hm :)
  case relations => exact (congrArg Memory.relations hm :)
  case joins => exact (congrArg Memory.joinModels hm :)

theorem inheritRules_rules (m : Memory) : { inheritRules m with rules := m.rules } = m :=
  List.foldlRecOn (motive := fun n : Memory => { n with rules := m.rules } = m) _ _ rfl
    fun _ h _ _ => h

theorem collectFrom_spares (t : TypeDefinition) (h : part ≠ .rules) :
    Spares part (collectFrom t) :=
  spares_bind (spares_examine _) fun _ => onRules_spares (fun _ => rfl) h

theorem settleModel_spares (model : String) (h : part ≠ .rules) :
    Spares part (settleModel model) := by
  refine spares_bind spares_memory fun _ => ?_
  split
  · exact spares_pure ()
  · refine spares_bind spares_context fun _ => ?_
    split
    · exact onRules_spares (fun _ => rfl) h
    · exact spares_log _ _

theorem isModel_attachRules (m : Memory) (c : Context) (model : String) :
    (attachRules m c model).isModel = c.isModel :=
  Context.isModel_foldl (fun c _ => c.isModel_modifyResource _ _) _ c

theorem apply_spares (args : FactoryArgs) (h : part ≠ .rules) : Spares part (apply args) := by
  have collected : Spares part collectRules :=
    spares_bind spares_context fun c => spares_forEach (fun t => collectFrom_spares t h) _
  have added : ∀ c : Context, (addOptional (addOptional c (policy? args)) (apiKey? c)).isModel
      = c.isModel := fun c =>
    (isModel_addOptional fun _ => kindOfId?_apiKey).trans
      (isModel_addOptional fun _ => kindOfId?_policy)
  exact spares_bind collected fun _ => spares_bind (onRules_spares inheritRules_rules h) fun _ =>
    spares_bind spares_context fun _ =>
      spares_bind (spares_forEach (fun m => settleModel_spares m h) _) fun _ =>
        spares_bind spares_memory fun m => spares_bind (spares_examine _) fun _ =>
          spares_bind (spares_onContext (Context.isModel_foldl (isModel_attachRules m) _)) fun _ =>
            spares_bind (spares_onContext added) fun _ => spares_log _ _

end AuthPass

namespace MapsToPass

theorem isModel_rename (c : Context) (m : Mapping) : (rename c m).isModel = c.isModel :=
  (Context.isModel_modifyResource _ _ _).trans (c.isModel_modifyResource _ _)

theorem apply_spares : Spares part apply :=
  spares_bind (spares_examine _) fun ms =>
    spares_onContext (Context.isModel_foldl isModel_rename ms)

end MapsToPass

namespace SearchPass

theorem apply_spares (h : part ≠ .stores) : Spares part apply := by
  refine spares_bind (spares_examine _) fun ms => ?_
  split
  · exact spares_pure ()
  · intro s
    cases part
    case stores => exact absurd rfl h
    all_goals rfl

end SearchPass

/-! ### Chains -/

namespace Chain

/-- The parts that a pass of some name touches, of those that every chain starts with. -/
def touched (name : String) : List Part :=
  match name with
  | "model"      => [.stores, .models]
  | "function"   => [.stores]
  | "http"       => [.stores]
  | "predictions" => [.stores]
  | "index"      => [.indexes]
  | "hasOne"     => [.relations]
  | "manyToMany" => [.stores, .models, .indexes, .relations, .joins]
  | "auth"       => [.rules]
  | "searchable" => [.stores]
  | _            => []

/-- **The passes of every chain leave alone** what they do not touch. -/
theorem builtin_spares {args : FactoryArgs} {e : Entry} (he : e ∈ builtin args)
    (h : part ∉ touched e.pass.name) : Spares part e.pass.apply := by
  simp only [builtin, List.mem_cons, List.not_mem_nil, or_false] at he
  rcases he with rfl | rfl | rfl | rfl | rfl | rfl | rfl | rfl | rfl | rfl | rfl | rfl | rfl | rfl
  · exact ModelPass.apply_spares h
  · exact FunctionPass.apply_spares _ (List.ne_of_not_mem_cons h)
  · exact HttpPass.apply_spares (List.ne_of_not_mem_cons h)
  · exact PredictionsPass.apply_spares _ (List.ne_of_not_mem_cons h)
  · exact PrimaryKeyPass.apply_spares
  · exact IndexPass.apply_spares (List.ne_of_not_mem_cons h)
  · exact HasManyPass.apply_spares
  · exact HasOnePass.apply_spares (List.ne_of_not_mem_cons h)
  · exact ManyToManyPass.apply_spares (by cases part <;> first | rfl | exact absurd (by decide) h)
  · exact BelongsToPass.apply_spares
  · exact DefaultPass.apply_spares
  · exact AuthPass.apply_spares args (List.ne_of_not_mem_cons h)
  · exact MapsToPass.apply_spares
  · exact SearchPass.apply_spares (List.ne_of_not_mem_cons h)

end Chain

end ApiCompiler
