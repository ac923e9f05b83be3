import ApiCompiler.Proofs.Access.Attached

/-!
# Access — what searches leave of the rules

* `MapsToPass.guards_apply`: a model that is renamed keeps its rules.
* `SearchPass.Extends`: the resolvers behind the pass of `@searchable` are those before it and new
  ones, which have no rules.
-/

namespace ApiCompiler

open PassAction

/-! ### Renamed models -/

namespace MapsToPass

theorem guards_rename {c : Context} {model : String} {rules : List AuthRule}
    (h : c.resources.Guards model rules) (m : Mapping) :
    (rename c m).resources.Guards model rules := by
  have hname : Decorates tableNaming (·.setName m.table) := .set (by decide) _
  exact (h.modify (Decorates.rename _) (by decide) (by decide) _).modify hname (by decide)
    (by decide) _

theorem schema_foldl_rename (ms : List Mapping) (c : Context) :
    (ms.foldl rename c).schema = c.schema :=
  List.foldlRecOn (motive := fun d : Context => d.schema = c.schema) ms _ rfl fun _ hd _ _ => hd

theorem guards_apply {s t : PassState} (h : apply.on s = (.ok (), t)) :
    t.context.schema = s.context.schema ∧ t.memory = s.memory
      ∧ ∀ model rules, s.context.resources.Guards model rules →
        t.context.resources.Guards model rules := by
  rw [apply, on_examine_bind] at h
  split at h
  · next ms _ =>
    rw [on_onContext] at h
    rw [← (Prod.mk.inj h).2]
    refine ⟨schema_foldl_rename ms _, rfl, fun model rules hg => ?_⟩
    exact List.foldlRecOn (motive := fun d : Context => d.resources.Guards model rules) ms rename hg
      fun _ hd m _ => guards_rename hd m
  · cases (Prod.mk.inj h).1

end MapsToPass

/-! ### Names of definitions -/

/-- A change of the first definition that has a property matters neither to a choice of
definitions nor to what is read off them, where it keeps both. -/
theorem map_filter_modifyFirst {α β : Type} {p q : α → Bool} {f : α → α} {g : α → β}
    (hq : ∀ a, q (f a) = q a) (hg : ∀ a, g (f a) = g a) (items : List α) :
    ((modifyFirst p f items).filter q).map g = (items.filter q).map g := by
  induction items with
  | nil => rfl
  | cons a items ih =>
    rw [modifyFirst]
    split
    · rw [List.filter_cons, List.filter_cons, hq]
      split
      · rw [List.map_cons, List.map_cons, hg]
      · rfl
    · rw [List.filter_cons, List.filter_cons]
      split
      · rw [List.map_cons, List.map_cons, ih]
      · exact ih

namespace Document

theorem namesWith_ensureObject (d : Document) (name directive : String) :
    (d.ensureObject name).namesWith directive = d.namesWith directive := by
  rw [ensureObject]
  split
  · rfl
  · rw [namesWith, typesWith, List.filter_append, List.map_append]
    exact List.append_nil _

theorem namesWith_ensureObjectField (d : Document) (type : String) (field : FieldDefinition)
    (directive : String) :
    (d.ensureObjectField type field).namesWith directive = d.namesWith directive := by
  rw [← d.namesWith_ensureObject type directive]
  refine map_filter_modifyFirst (fun t => ?_) (fun t => ?_) _
  · rw [TypeDefinition.ensureField]
    split <;> rfl
  · rw [TypeDefinition.ensureField]
    split <;> rfl

end Document

/-! ### Searches -/

namespace SearchPass

theorem models_eq {c : Context} {ms : List String} (h : models c = .ok ms) :
    ms = c.schema.namesWith "searchable" := by
  refine Except.eq_map_of_mapM (fun t m hm => ?_) h
  rw [modelOf] at hm
  split at hm
  · cases hm
    rfl
  · cases hm

/-- The id of the query that searches a model. -/
def queryId (model : String) : String := resolverId "Query" (queryName model)

/-- The resolvers of `g'` are those of `g`, apart from properties that do not matter to access, or
new ones that search a model of a list and have no rules. -/
structure Extends (g : ResourceGraph) (models : List String) (g' : ResourceGraph) : Prop where
  contains : ∀ id, g.contains id = true → g'.contains id = true
  resolver : ∀ id r, g'.get? id = some r → r.kind = .resolver →
    (∃ q, g.get? id = some q ∧ q.kind = .resolver ∧ q.get? "dataSource" = r.get? "dataSource"
        ∧ q.get? "authRules" = r.get? "authRules")
      ∨ (g.contains id = false ∧ (∃ m ∈ models, id = queryId m)
        ∧ r.get? "dataSource" = some (.str searchDatasource) ∧ r.get? "authRules" = none)

namespace Extends

variable {g g' : ResourceGraph} {models : List String}

theorem refl : Extends g models g where
  contains _ h := h
  resolver _ r hr hk := .inl ⟨r, hr, hk, rfl, rfl⟩

theorem modify (h : Extends g models g') {keys : List String} {f : Resource → Resource}
    (hf : Decorates keys f) (hdata : "dataSource" ∉ keys) (hauth : "authRules" ∉ keys)
    (id : String) : Extends g models (g'.modify id f) where
  contains other hc := by
    rw [ResourceGraph.contains_modify]
    exact h.contains other hc
  resolver other r hr hk := by
    rw [ResourceGraph.get?_modify] at hr
    split at hr
    · next he =>
      obtain ⟨q, hq, rfl⟩ := Option.map_eq_some_iff.1 hr
      rw [hf.kind] at hk
      rw [hf.get? q _ hdata, hf.get? q _ hauth, he]
      exact h.resolver id q hq hk
    · exact h.resolver other r hr hk

theorem add (h : Extends g models g') {r : Resource} (hr : r.kind ≠ .resolver) :
    Extends g models (g'.add r) where
  contains other hc := ResourceGraph.contains_add_of r (h.contains other hc)
  resolver other q hq hk := by
    rw [ResourceGraph.get?_add] at hq
    split at hq
    · cases hq
      exact absurd hk hr
    · exact h.resolver other q hq hk

theorem addResolver {c : Context} (h : Extends g models c.resources) {m : String}
    (hm : m ∈ models) {keys : List String} {f : Resource → Resource} (hf : Decorates keys f)
    (hdata : "dataSource" ∉ keys) (hauth : "authRules" ∉ keys) :
    Extends g models
      (c.addResolver "Query" (queryName m) searchDatasource stack f).resources where
  contains id hc := by
    obtain ⟨r, hr⟩ := ResourceGraph.contains_iff_get?.1 (h.contains id hc)
    rw [ResourceGraph.contains_iff_get?, Context.get?_addResolver]
    split
    · exact ⟨_, rfl⟩
    · exact ⟨r, hr⟩
  resolver id r hr hk := by
    rw [Context.get?_addResolver] at hr
    split at hr
    · next he =>
      cases hr
      rw [hf.get? _ _ hdata, hf.get? _ _ hauth]
      rw [hf.kind] at hk
      cases hq : c.resources.get? id with
      | none =>
        -- the query is new, so it was not there before either
        have hg : g.contains id = false := by
          cases hg : g.contains id with
          | false => rfl
          | true =>
            obtain ⟨q, hq'⟩ := ResourceGraph.contains_iff_get?.1 (h.contains id hg)
            rw [hq] at hq'
            cases hq'
        refine .inr ⟨hg, ⟨m, hm, he⟩, ?_, ?_⟩
        · simp [ResourceGraph.get?_newResolver]
        · simp [ResourceGraph.get?_newResolver]
      | some q =>
        rw [hq] at hk
        exact h.resolver id q hq hk
    · exact h.resolver id r hr hk

theorem attach {c : Context} (h : Extends g models c.resources) {m : String} (hm : m ∈ models) :
    Extends g models (attach c m).resources := by
  have hstreamed : Decorates ["streamViewType"]
      (·.set "streamViewType" (.str "NEW_AND_OLD_IMAGES")) := .set (by decide) _
  have hindexed : Decorates ["index"] (·.set "index" (.str (Text.lowercase m))) :=
    .set (by decide) _
  have hmodified := h.modify hstreamed (by decide) (by decide) (tableId m)
  exact addResolver (c := c.modifyResource (tableId m) _) hmodified hm hindexed (by decide)
    (by decide)

theorem provision (c : Context) (models ms : List String) :
    Extends c.resources models (provision c ms).resources := by
  have hstreaming : (streaming ms).kind ≠ .resolver := by
    rw [streaming, (ResourceGraph.streaming_decorates ms).kind]
    intro hk
    cases hk
  have hdomain : ∀ b, (domain b).kind ≠ .resolver := by
    intro b hk
    cases hk
  have hdatasource : datasource.kind ≠ .resolver := by
    intro hk
    cases hk
  exact ((refl.add (hdomain _)).add hdatasource).add hstreaming

end Extends

theorem resources_attach (c : Context) (m : String) : (attach c m).resources =
    ((c.modifyResource (tableId m)
      (·.set "streamViewType" (.str "NEW_AND_OLD_IMAGES"))).addResolver "Query" (queryName m)
        searchDatasource stack (·.set "index" (.str (Text.lowercase m)))).resources := rfl

theorem contains_attach (c : Context) (m : String) :
    (attach c m).resources.contains (queryId m) = true := by
  rw [resources_attach, ResourceGraph.contains_iff_get?, Context.get?_addResolver, queryId,
    if_pos rfl]
  exact ⟨_, rfl⟩

/-- Every model that can be searched gets its query. -/
theorem contains_foldl_attach {ms : List String} {m : String} (hm : m ∈ ms) (c : Context) :
    (ms.foldl attach c).resources.contains (queryId m) = true := by
  induction ms generalizing c with
  | nil => cases hm
  | cons a ms ih =>
    rcases List.mem_cons.1 hm with rfl | hm
    · exact List.foldlRecOn
        (motive := fun d : Context => d.resources.contains (queryId m) = true) ms attach
        (contains_attach c m) fun d hd b _ =>
          (Extends.refl.attach (List.mem_singleton_self b)).contains _ hd
    · exact ih hm (attach c a)

theorem namesWith_foldl_attach (ms : List String) (c : Context) (directive : String) :
    (ms.foldl attach c).schema.namesWith directive = c.schema.namesWith directive :=
  List.foldlRecOn
    (motive := fun d : Context => d.schema.namesWith directive = c.schema.namesWith directive)
    ms attach rfl fun _ hd _ _ => (Document.namesWith_ensureObjectField _ _ _ _).trans hd

/-- The search pass keeps what is there, adds the queries that are missing, and remembers
nothing. -/
theorem extends_apply {s t : PassState} (h : apply.on s = (.ok (), t)) :
    t.memory = s.memory
      ∧ (∀ directive, t.context.schema.namesWith directive = s.context.schema.namesWith directive)
      ∧ Extends s.context.resources (s.context.schema.namesWith "searchable") t.context.resources
      ∧ ∀ m ∈ s.context.schema.namesWith "searchable",
        t.context.resources.contains (queryId m) = true := by
  rw [apply, on_examine_bind] at h
  split at h
  · next ms hms =>
    rw [← models_eq hms]
    split at h
    · next hempty =>
      cases List.isEmpty_iff.1 hempty
      rw [Action.on_pure] at h
      rw [← (Prod.mk.inj h).2]
      exact ⟨rfl, fun _ => rfl, .refl, nofun⟩
    · rw [on_onContext] at h
      rw [← (Prod.mk.inj h).2]
      refine ⟨rfl, namesWith_foldl_attach ms _, ?_, fun m hm => ?_⟩
      · exact List.foldlRecOn
          (motive := fun c : Context => Extends s.context.resources ms c.resources) ms attach
          (.provision _ _ _) fun c hc m hm => hc.attach hm
      · exact contains_foldl_attach hm _
  · cases (Prod.mk.inj h).1

end SearchPass

end ApiCompiler
