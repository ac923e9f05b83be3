import ApiCompiler.Proofs.Resource.Links

/-!
# Access — where rules are attached

* `Guards`: every resolver of a model's datasource has rules.
* `get?_attachRules`: the rules of a model go to its resolvers, and nothing else is touched.
* `exists_of_apply`: the stages of a pass that ends well, one after the other.
* `guards_apply`: after the pass of `@auth`, the resolvers of every model have its rules.
-/

namespace ApiCompiler

/-- The names of the object definitions that carry a directive. -/
def Document.namesWith (d : Document) (directive : String) : List String :=
  (d.typesWith directive).map (·.name)

namespace ResourceGraph

/-- Every resolver of the datasource of a model has the rules. -/
def Guards (g : ResourceGraph) (model : String) (rules : List AuthRule) : Prop :=
  ∀ id r, g.get? id = some r → r.kind = .resolver →
    r.get? "dataSource" = some (.str (model ++ "DataSource")) →
      r.get? "authRules" = some (encodeRules rules)

variable {g : ResourceGraph}

theorem AllSound.mem_ids_iff (h : g.AllSound) (p : Resource → Bool) {id : String} :
    id ∈ (g.toList.filter p).map (·.id) ↔ ∃ r, g.get? id = some r ∧ p r = true := by
  simp only [List.mem_map, List.mem_filter]
  constructor
  · rintro ⟨r, ⟨hr, hp⟩, rfl⟩
    exact ⟨r, h.mem_iff.1 hr, hp⟩
  · rintro ⟨r, hr, hp⟩
    have hid := (h id r hr).id_eq
    exact ⟨r, ⟨h.mem_iff.2 (hid.symm ▸ hr), hp⟩, hid⟩

theorem get?_foldl_modify (f : Resource → Resource) {ids : List String} (hn : ids.Nodup)
    (g : ResourceGraph) (id : String) : (ids.foldl (fun g id => g.modify id f) g).get? id =
      if id ∈ ids then (g.get? id).map f else g.get? id := by
  induction ids generalizing g with
  | nil => rfl
  | cons a ids ih =>
    obtain ⟨ha, hn⟩ := List.nodup_cons.1 hn
    rw [List.foldl_cons, ih hn, get?_modify]
    by_cases h : id = a
    · subst h
      simp [ha]
    · simp [h]

/-- What is applied to the resources that have a property is applied to each of them once. -/
theorem AllSound.get?_foldl_filter (h : g.AllSound) (p : Resource → Bool)
    (f : Resource → Resource) (id : String) :
    (((g.toList.filter p).map (·.id)).foldl (fun g id => g.modify id f) g).get? id =
      (g.get? id).map fun r => if p r then f r else r := by
  have hn : ((g.toList.filter p).map (·.id)).Nodup :=
    h.ownIds.nodup_ids.sublist (List.filter_sublist.map _)
  rw [get?_foldl_modify f hn]
  cases hr : g.get? id with
  | none => simp
  | some r =>
    have hm : id ∈ (g.toList.filter p).map (·.id) ↔ ∃ r, g.get? id = some r ∧ p r = true :=
      h.mem_ids_iff p
    rw [hr] at hm
    by_cases hp : p r = true
    · simp [hm.2 ⟨r, rfl, hp⟩, hp]
    · have : id ∉ (g.toList.filter p).map (·.id) := by
        intro hid
        obtain ⟨_, ⟨⟩, hp'⟩ := hm.1 hid
        exact hp hp'
      simp [this, hp]

/-- Properties other than the rules and the datasource do not matter. -/
theorem Guards.modify {model : String} {rules : List AuthRule} (h : g.Guards model rules)
    {keys : List String} {f : Resource → Resource} (hf : Decorates keys f)
    (hdata : "dataSource" ∉ keys) (hauth : "authRules" ∉ keys) (id : String) :
    (g.modify id f).Guards model rules := by
  intro other r hr hk hbound
  rw [get?_modify] at hr
  split at hr
  · obtain ⟨q, hq, rfl⟩ := Option.map_eq_some_iff.1 hr
    rw [hf.kind] at hk
    rw [hf.get? q _ hdata] at hbound
    rw [hf.get? q _ hauth]
    exact h id q hq hk hbound
  · exact h other r hr hk hbound

theorem Guards.add {model : String} {rules : List AuthRule} (h : g.Guards model rules)
    {r : Resource} (hk : r.kind ≠ .resolver) : (g.add r).Guards model rules := by
  intro id q hq hresolver hbound
  rw [get?_add] at hq
  split at hq
  · cases hq
    exact absurd hresolver hk
  · exact h id q hq hresolver hbound

end ResourceGraph

namespace AuthPass

open PassAction

theorem resources_foldl_modify (f : Resource → Resource) (ids : List String) (c : Context) :
    (ids.foldl (fun c id => c.modifyResource id f) c).resources
      = ids.foldl (fun g id => g.modify id f) c.resources :=
  (List.foldl_hom Context.resources fun _ _ => rfl).symm

/-- The rules of a model go to its resolvers, and nothing else is touched. -/
theorem get?_attachRules {c : Context} (h : c.resources.AllSound) (m : Memory) (model id : String) :
    (attachRules m c model).resources.get? id = (c.resources.get? id).map fun r =>
      if isResolverOf model r then r.set "authRules" (encodeRules (m.rulesFor model)) else r := by
  rw [attachRules, resources_foldl_modify]
  exact h.get?_foldl_filter (isResolverOf model) _ id

theorem isResolverOf_iff {model : String} {r : Resource} :
    isResolverOf model r = true ↔
      r.kind = .resolver ∧ r.get? "dataSource" = some (.str (model ++ "DataSource")) := by
  rw [isResolverOf, Bool.and_eq_true, beq_iff_eq, beq_iff_eq, datasourceId]

theorem isResolverOf_set_authRules (model : String) (r : Resource) (v : Json) :
    isResolverOf model (r.set "authRules" v) = isResolverOf model r := by
  rw [isResolverOf, isResolverOf, ResourceGraph.kind_set, Resource.get?_set, if_neg (by decide)]

/-- A resolver belongs to one model. -/
theorem eq_of_isResolverOf {a b : String} {r : Resource} (ha : isResolverOf a r = true)
    (hb : isResolverOf b r = true) : a = b := by
  rw [isResolverOf_iff] at ha hb
  exact datasourceId_inj (Json.str.inj (Option.some.inj (ha.2.symm.trans hb.2)))

theorem guards_attachRules {c : Context} (h : c.resources.AllSound) (m : Memory)
    {model other : String}
    (ho : other = model ∨ c.resources.Guards other (m.rulesFor other)) :
    (attachRules m c model).resources.Guards other (m.rulesFor other) := by
  intro id r hr hk hbound
  have hm := isResolverOf_iff.2 ⟨hk, hbound⟩
  rw [get?_attachRules h] at hr
  obtain ⟨q, hq, rfl⟩ := Option.map_eq_some_iff.1 hr
  by_cases hp : isResolverOf model q = true
  · rw [if_pos hp] at hm ⊢
    rw [isResolverOf_set_authRules] at hm
    rw [eq_of_isResolverOf hm hp, Resource.get?_set, if_pos rfl]
  · rw [if_neg hp] at hm ⊢
    rcases ho with rfl | hguards
    · exact absurd hm hp
    · rw [if_neg hp] at hk hbound
      exact hguards id q hq hk hbound

theorem guards_foldl_attachRules {c : Context} (h : c.IsSound) (m : Memory)
    {models : List String} {model : String}
    (hm : model ∈ models ∨ c.resources.Guards model (m.rulesFor model)) :
    (models.foldl (attachRules m) c).resources.Guards model (m.rulesFor model) := by
  induction models generalizing c with
  | nil => exact hm.resolve_left nofun
  | cons a models ih =>
    have attached : Context.Edits Context.AnyName Context.AnyTime c (attachRules m c a) :=
      attachRules_edits m c a
    refine ih (attached.isSound h) ?_
    rcases hm with hm | hg
    · rcases List.mem_cons.1 hm with rfl | hm
      · exact .inr (guards_attachRules h.all m (.inl rfl))
      · exact .inl hm
    · exact .inr (guards_attachRules h.all m (.inr hg))

theorem kind_policy? {args : FactoryArgs} {r : Resource} (h : policy? args = some r) :
    r.kind ≠ .resolver := by
  obtain ⟨f, hf, rfl⟩ := exists_of_policy? h
  rw [hf.kind]
  decide

theorem kind_apiKey? {c : Context} {r : Resource} (h : apiKey? c = some r) :
    r.kind ≠ .resolver := by
  obtain ⟨f, hf, rfl⟩ := exists_of_apiKey? h
  rw [hf.kind]
  decide

theorem guards_addOptional {c : Context} {model : String} {rules : List AuthRule}
    (h : c.resources.Guards model rules) {r : Option Resource}
    (hr : ∀ q, r = some q → q.kind ≠ .resolver) :
    (addOptional c r).resources.Guards model rules := by
  cases r with
  | none => exact h
  | some q => exact h.add (hr q rfl)

/-- Attached rules touch nothing but resources. -/
theorem foldl_attachRules_eq (m : Memory) (models : List String) (c : Context) :
    ∃ resources, models.foldl (attachRules m) c = { c with resources } :=
  Context.foldl_eq_with (fun c _ => Context.foldl_eq_with (fun _ _ => ⟨_, rfl⟩) _ c) models c

theorem addOptional_eq (c : Context) (r : Option Resource) :
    ∃ resources, addOptional c r = { c with resources } := by
  cases r <;> exact ⟨_, rfl⟩

/-! ### The stages of the pass -/

/-- The context of a pass that ends well, with the rules that are known by then. -/
def attachAll (args : FactoryArgs) (m : Memory) (models : List String) (c : Context) : Context :=
  let c := models.foldl (attachRules m) c
  (addOptional (addOptional c (policy? args)) (apiKey? c)).log .info (countRules m)

theorem attachAll_eq (args : FactoryArgs) (m : Memory) (models : List String) (c : Context) :
    ∃ resources, attachAll args m models c
      = { c with resources, logs := c.logs ++ [⟨.info, countRules m⟩] } := by
  obtain ⟨_, hrules⟩ := foldl_attachRules_eq m models c
  obtain ⟨_, hpolicy⟩ := addOptional_eq (models.foldl (attachRules m) c) (policy? args)
  obtain ⟨_, hkey⟩ := addOptional_eq
    (addOptional (models.foldl (attachRules m) c) (policy? args))
    (apiKey? (models.foldl (attachRules m) c))
  refine ⟨(attachAll args m models c).resources, ?_⟩
  rw [attachAll, hkey, hpolicy, hrules]
  rfl

theorem guards_attachAll {args : FactoryArgs} {c : Context} (h : c.IsSound) (m : Memory)
    {models : List String} {model : String} (hm : model ∈ models) :
    (attachAll args m models c).resources.Guards model (m.rulesFor model) :=
  guards_addOptional (guards_addOptional (guards_foldl_attachRules h m (.inl hm))
    fun _ => kind_policy?) fun _ => kind_apiKey?

/-- What leaves the schema and the resources as they are. -/
def Keeps (s t : PassState) : Prop :=
  t.context.schema = s.context.schema ∧ t.context.resources = s.context.resources

theorem Keeps.trans {s t u : PassState} (h : Keeps s t) (h' : Keeps t u) : Keeps s u :=
  ⟨h'.1.trans h.1, h'.2.trans h.2⟩

theorem forEach_keeps {α : Type} {f : α → PassAction Unit}
    (hf : ∀ a s, Keeps s ((f a).on s).2) (as : List α) (s : PassState) :
    Keeps s ((Action.forEach f as).on s).2 :=
  Action.forEach_rel (R := Keeps) (P := fun _ _ => True) (fun _ => ⟨rfl, rfl⟩) Keeps.trans
    (fun _ _ _ _ _ => trivial) (fun a _ s _ => hf a s) fun _ _ => trivial

theorem collectFrom_keeps (t : TypeDefinition) (s : PassState) :
    Keeps s ((collectFrom t).on s).2 := by
  rw [collectFrom, on_examine_bind]
  split <;> exact ⟨rfl, rfl⟩

theorem collectRules_keeps (s : PassState) : Keeps s (collectRules.on s).2 := by
  rw [collectRules, on_context_bind]
  exact forEach_keeps collectFrom_keeps _ s

theorem settleModel_keeps (model : String) (s : PassState) :
    Keeps s ((settleModel model).on s).2 := by
  rw [settleModel, on_memory_bind]
  split
  · exact ⟨rfl, rfl⟩
  · rw [on_context_bind]
    split <;> exact ⟨rfl, rfl⟩

/-- The stages of a pass that ends well, one after the other. -/
theorem exists_of_apply {args : FactoryArgs} {s t : PassState}
    (h : (apply args).on s = (.ok (), t)) :
    ∃ u v, collectRules.on s = (.ok (), u)
      ∧ (Action.forEach settleModel (u.context.schema.namesWith "model")).on
          { u with memory := inheritRules u.memory } = (.ok (), v)
      ∧ checkRules v.context.authConfig v.memory = .ok ()
      ∧ t = { v with
          context := attachAll args v.memory (u.context.schema.namesWith "model") v.context } := by
  unfold apply at h
  obtain ⟨_, u, hu, h⟩ := Action.on_bind_eq_ok.1 h
  rw [on_onMemory_bind, on_context_bind] at h
  obtain ⟨_, v, hv, h⟩ := Action.on_bind_eq_ok.1 h
  rw [on_memory_bind, on_examine_bind] at h
  split at h
  · next hcheck =>
    rw [on_onContext_bind, on_onContext_bind, on_log] at h
    exact ⟨u, v, hu, hv, hcheck, (Prod.mk.inj h).2.symm⟩
  · cases (Prod.mk.inj h).1

/-- **After the pass of `@auth` the resolvers of every model have its rules.** -/
theorem guards_apply {args : FactoryArgs} {s t : PassState} (hs : s.context.IsSound)
    (h : (apply args).on s = (.ok (), t)) :
    t.context.schema = s.context.schema
      ∧ ∀ model ∈ s.context.schema.namesWith "model",
        t.context.resources.Guards model (t.memory.rulesFor model) := by
  obtain ⟨u, v, hu, hv, -, rfl⟩ := exists_of_apply h
  have hcollect := collectRules_keeps s
  rw [hu] at hcollect
  have hsettle := forEach_keeps settleModel_keeps (u.context.schema.namesWith "model")
    { u with memory := inheritRules u.memory }
  rw [hv] at hsettle
  obtain ⟨hschema, hresources⟩ : Keeps s v := hcollect.trans hsettle
  have hv : v.context.IsSound := ⟨hresources ▸ hs.all, hresources ▸ hs.paired⟩
  refine ⟨?_, fun model hm => guards_attachAll hv v.memory (hcollect.1 ▸ hm)⟩
  obtain ⟨_, hattached⟩ := attachAll_eq args v.memory (u.context.schema.namesWith "model") v.context
  exact (congrArg Context.schema hattached).trans hschema

end AuthPass

end ApiCompiler
