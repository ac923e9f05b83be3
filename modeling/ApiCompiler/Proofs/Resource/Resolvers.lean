import ApiCompiler.Proofs.Chain.Closure
import ApiCompiler.Proofs.Resource.Links

/-!
# Resources — resolvers

A resolver is made for a field, with the slots that the field has. Later changes set other
properties of it, and no later resolver of the field takes its place.

* `Resource.Resolves`: what the resolver of a field is.
* `Context.Edits.resolved`: every resolver is that of a field which passes may attach one to.
* `Chain.isAttached_of_completes`: every resolver is that of a field which the schema has.
-/

namespace ApiCompiler

/-- The resolver of a field of a type: it stands under the id of the field, names the field and a
datasource, and has the slots that there are for the field. -/
structure Resource.Resolves (slots : Dict (List Slot)) (type field : String) (r : Resource) :
    Prop where
  id         : r.id = resolverId type field
  typeName   : r.get? "typeName" = some (.str type)
  fieldName  : r.get? "fieldName" = some (.str field)
  dataSource : ∃ datasource, r.get? "dataSource" = some (.str datasource)
  slots      : r.get? "slots"
    = (slots.find? (type ++ "." ++ field)).map fun ss => .ofStrings (ss.map (·.slotName))

/-- The properties that a resolver is made with. -/
def resolverProperties : List String := ["typeName", "fieldName", "dataSource", "slots"]

/-- Other properties do not matter. -/
theorem Resource.Resolves.decorate {slots : Dict (List Slot)} {type field : String} {r : Resource}
    (h : r.Resolves slots type field) {keys : List String} {f : Resource → Resource}
    (hf : Decorates keys f) (hk : ∀ key ∈ resolverProperties, key ∉ keys) :
    (f r).Resolves slots type field where
  id := (hf.id r).trans h.id
  typeName := (hf.get? r _ (hk _ (by decide))).trans h.typeName
  fieldName := (hf.get? r _ (hk _ (by decide))).trans h.fieldName
  dataSource := by
    rw [hf.get? r _ (hk _ (by decide))]
    exact h.dataSource
  slots := (hf.get? r _ (hk _ (by decide))).trans h.slots

namespace Context

theorem resolves_newResolver (c : Context) (type field datasource stack : String) :
    (c.newResolver type field datasource stack).Resolves c.slots type field where
  id := c.id_newResolver ..
  typeName := ResourceGraph.get?_newResolver c _ _ _ _ (by decide)
  fieldName := ResourceGraph.get?_newResolver c _ _ _ _ (by decide)
  dataSource := ⟨datasource, ResourceGraph.get?_newResolver c _ _ _ _ (by decide)⟩
  slots := by
    have names : c.slotNames? type field
        = (c.slots.find? (type ++ "." ++ field)).map (·.map (·.slotName)) := rfl
    rw [newResolver, names]
    cases c.slots.find? (type ++ "." ++ field) with
    | none => simp [Resource.get?_set, ResourceGraph.get?_bare]
    | some ss => simp [Resource.get?_set]

end Context

/-! ### Changes -/

namespace Context

variable {known : String → Prop} {ready : Document → String → Prop} {c d : Context}

/-- What a pass adds as it is is no resolver. -/
theorem Supplies.kind_ne_resolver {r : Resource} (h : c.Supplies r) : r.kind ≠ .resolver := by
  cases h with
  | function | endpoint | storage | recognition | domain | search => intro hk; cases hk
  | policy h => exact AuthPass.kind_policy? h
  | apiKey h => exact AuthPass.kind_apiKey? h
  | streaming models =>
    rw [SearchPass.streaming, (ResourceGraph.streaming_decorates models).kind]
    intro hk
    cases hk

/-- A resource is the resolver of a field which passes may attach one to. -/
def ResolvesField (c : Context) (_ : String) (r : Resource) : Prop :=
  ∃ type field, c.Attaches type field ∧ r.Resolves c.slots type field

theorem ResolvesField.decorate {id : String} {r : Resource} (h : c.ResolvesField id r)
    {keys : List String} {f : Resource → Resource} (hf : Decorates keys f)
    (hk : ∀ key ∈ resolverProperties, key ∉ keys) : c.ResolvesField id (f r) := by
  obtain ⟨type, field, ha, hr⟩ := h
  exact ⟨type, field, ha, hr.decorate hf hk⟩

/-- Every resolver is that of a field which passes may attach one to. -/
def Resolved (c : Context) : Prop := c.resources.AllOf .resolver c.ResolvesField

theorem resolved_of_empty (h : c.resources = {}) : c.Resolved := by
  rw [Resolved, h]
  exact .empty

/-- **Every change keeps resolvers those of their fields.** -/
theorem Edit.resolved (h : Edit known ready c d) (hc : c.Resolved) : d.Resolved := by
  have attached : ∀ type field, c.Attaches type field → d.Attaches type field :=
    fun _ _ ha => ha.mono (.of h)
  have kept : c.resources.AllOf .resolver d.ResolvesField :=
    hc.mono fun _ _ ⟨_, _, ha, hr⟩ => ⟨_, _, attached _ _ ha, h.slots ▸ hr⟩
  have decorated : ∀ {id keys f}, Decorates keys f → (∀ key ∈ resolverProperties, key ∉ keys) →
      (c.resources.modify id f).AllOf .resolver d.ResolvesField := fun hf hk =>
    kept.modify _ hf.kind fun _ hr => hr.decorate hf hk
  cases h with
  | log | object | field | mark | retype => exact kept
  | @store model _ _ h =>
    rcases ModelPass.addStore_eq h with rfl | ⟨dbType, secrets, rfl⟩
    · have tabled := kept.add (r := ModelPass.table c model) fun hk => by
        rw [ModelPass.kind_table] at hk
        cases hk
      exact tabled.add nofun
    · refine kept.add fun hk => ?_
      rw [ModelPass.kind_relationalDatasource] at hk
      cases hk
  | supply h => exact kept.add fun hk => absurd hk h.kind_ne_resolver
  | resolver type field stack _ _ ha =>
    exact kept.add fun _ =>
      ⟨type, field, attached _ _ ha, c.resolves_newResolver type field _ stack⟩
  | decorate id hf => exact decorated hf (by decide)
  | rename => exact decorated (.rename _) (by decide)
  | key => exact decorated (.setKey _ _) (by decide)
  | index _ hl => exact decorated (.pushIndex hl _) (by decide)

theorem Edits.resolved (h : Edits known ready c d) (hc : c.Resolved) : d.Resolved := by
  induction h with
  | refl => exact hc
  | tail _ h ih => exact h.resolved ih

end Context

/-! ### Runs -/

/-- The types of fields with default values are models. -/
def Document.DefaultsInModels (d : Document) : Prop :=
  ∀ t ∈ d.definitions, ∀ f ∈ t.fields, f.hasDirective "default" = true →
    t.name ∈ d.namesWith "model"

instance (d : Document) : Decidable d.DefaultsInModels :=
  inferInstanceAs (Decidable (∀ t ∈ d.definitions, ∀ f ∈ t.fields,
    f.hasDirective "default" = true → t.name ∈ d.namesWith "model"))

namespace Chain

variable {args : FactoryArgs} {c : Context} {s : PassState}

/-- Every model of the schema can have records created. -/
theorem Completes.creatable (h : Completes args c s) :
    ∀ model ∈ c.schema.namesWith "model",
      s.context.schema.Declares "Mutation" ("create" ++ model) :=
  h.serves (P := fun d model => d.Declares "Mutation" ("create" ++ model))
    (fun _ _ _ hd hm => hm.mono hd) fun _ _ _ => ModelPass.creatable_of_materialize

/-- The fields that resolvers are attached to are those of the schema, where the creations of
records with default values are. -/
theorem Completes.declares_of_attaches (h : Completes args c s)
    (hdefault : c.schema.DefaultsInModels) {type field : String}
    (ha : s.context.Attaches type field) : s.context.schema.Declares type field := by
  cases ha with
  | directed h => exact h.imp fun _ _ hp => hp.1
  | operation _ h => exact h
  | creation hm =>
    obtain ⟨t, ht, rfl, f, hf, hd⟩ := hm.of_grownTo h.edits.grownTo fun _ => nofun
    exact h.creatable _ (hdefault t ht f hf hd)

/-- **Every resolver is attached to a field that exists**: wherever a fresh run of the passes that
every chain starts with ends well, on a schema that has default values in models only, every
resolver names a type and a field of it that the schema has at the end. -/
theorem isAttached_of_completes (hc : c.resources = {}) (h : Completes args c s)
    (hdefault : c.schema.DefaultsInModels) :
    ∀ r ∈ s.context.resources.ofKind .resolver, ∃ type field,
      r.get? "typeName" = some (.str type) ∧ r.get? "fieldName" = some (.str field)
        ∧ s.context.schema.Declares type field := by
  intro r hr
  obtain ⟨hget, hkind⟩ := (h.isSound hc).all.mem_ofKind_iff.1 hr
  have resolved := h.edits.resolved (Context.resolved_of_empty hc)
  obtain ⟨type, field, ha, hres⟩ := resolved _ _ hget hkind
  exact ⟨type, field, hres.typeName, hres.fieldName, h.declares_of_attaches hdefault ha⟩

/-- A schema with a model that has default values, a query of a function and a join. -/
def ratedPosts : Context where
  schema := ⟨[{
    kind := .object, name := "Post", directives := [⟨"model", []⟩],
    fields := [
      { name := "stars", type := .named "Int",
        directives := [⟨"default", [("value", .string "3")]⟩] },
      { name := "tags", type := .list (.named "Tag"),
        directives := [⟨"manyToMany", [("relationName", .string "postTags")]⟩] }] }, {
    kind := .object, name := "Tag", directives := [⟨"model", []⟩],
    fields := [
      { name := "posts", type := .list (.named "Post"),
        directives := [⟨"manyToMany", [("relationName", .string "postTags")]⟩] }] }, {
    kind := .object, name := "Query", extends? := true,
    fields := [
      { name := "best", type := .named "Post",
        directives := [⟨"function", [("name", .string "best")]⟩] }] }]⟩

theorem completes_ratedPosts : Completes {} ratedPosts (lastState {} ratedPosts) :=
  (completes_of_endsWell (p := fun _ => true) (by decide +kernel)).1

/-- The resolvers of rated posts are those of fields. -/
theorem isAttached_ratedPosts :
    ratedPosts.resources = {} ∧ Completes {} ratedPosts (lastState {} ratedPosts)
      ∧ ratedPosts.schema.DefaultsInModels
      ∧ ∀ r ∈ (lastState {} ratedPosts).context.resources.ofKind .resolver, ∃ type field,
        r.get? "typeName" = some (.str type) ∧ r.get? "fieldName" = some (.str field)
          ∧ (lastState {} ratedPosts).context.schema.Declares type field := by
  have hdefault : ratedPosts.schema.DefaultsInModels := by decide
  exact ⟨rfl, completes_ratedPosts, hdefault,
    isAttached_of_completes rfl completes_ratedPosts hdefault⟩

end Chain

end ApiCompiler
