import ApiCompiler.Proofs.Access.Searched
import ApiCompiler.Proofs.Chain.Started

/-!
# Chains — what a run leaves undefined

The types that passes refer to are scalars, types that the schema refers to already, and the pages
of models, which come with the models. Two kinds of names need not be defined: what a search finds,
which no pass makes, and the page of a type that is taken for a model because some resource has the
id of its store.

* `Edit.accounted`: a change refers to nothing else.
* `Completes.serves`, `Completes.paged`: a type that asks to be a model has what models are given,
  such as its page.
* `isClosed_iff_of_completes`: where the schema of a run that ends well is closed.
-/

namespace ApiCompiler

open PassAction

namespace Context

variable {known : String → Prop} {ready : Document → String → Prop} {c d : Context}

/-! ### Types that ask for something -/

/-- What is read off the names and the requests of the types that ask for something stays as it is,
unless they ask to be models. -/
theorem Edit.map_typesWith {α : Type} {g : TypeDefinition → α} {directive : String}
    (h : Edit known ready c d) (hd : directive ≠ "model")
    (hg : ∀ t t' : TypeDefinition, t'.name = t.name →
      t'.directive? directive = t.directive? directive → g t' = g t) :
    (d.schema.typesWith directive).map g = (c.schema.typesWith directive).map g := by
  have modified : ∀ (schema : Document) (type : String) {f : TypeDefinition → TypeDefinition},
      (∀ t, (f t).kind = t.kind) → (∀ t, (f t).name = t.name) →
      (∀ t, (f t).directive? directive = t.directive? directive) →
      ((schema.modifyType type f).typesWith directive).map g
        = (schema.typesWith directive).map g := by
    intro schema type f hkind hname hdir
    refine map_filter_modifyFirst (fun t => ?_) (fun t => hg t (f t) (hname t) (hdir t)) _
    rw [hkind, TypeDefinition.hasDirective, hdir, TypeDefinition.hasDirective]
  cases h with
  | log | supply | resolver | decorate | rename | key | index => rfl
  | object =>
    unfold Document.ensureObject
    split
    · rfl
    · rw [Document.typesWith, List.filter_append, List.map_append]
      exact List.append_nil _
  | field =>
    refine modified _ _ (fun t => ?_) (fun t => t.name_ensureField _) fun t => ?_
    · rw [TypeDefinition.ensureField]
      split <;> rfl
    · rw [TypeDefinition.ensureField]
      split <;> rfl
  | mark =>
    refine modified _ _ (fun t => ?_) (fun t => ?_) fun t => ?_
    · rw [ModelPass.markModel]
      split <;> rfl
    · rw [ModelPass.markModel]
      split <;> rfl
    · rw [ModelPass.markModel]
      split
      · rfl
      · rw [TypeDefinition.directive?, findDirective?, TypeDefinition.addDirective,
          List.find?_append]
        simp [TypeDefinition.directive?, findDirective?, Ne.symm hd]
  | retype => exact modified _ _ (fun _ => rfl) (fun _ => rfl) fun _ => rfl
  | store _ h => rcases ModelPass.addStore_eq h with rfl | ⟨_, _, rfl⟩ <;> rfl

theorem Edits.map_typesWith {α : Type} {g : TypeDefinition → α} {directive : String}
    (h : Edits known ready c d) (hd : directive ≠ "model")
    (hg : ∀ t t' : TypeDefinition, t'.name = t.name →
      t'.directive? directive = t.directive? directive → g t' = g t) :
    (d.schema.typesWith directive).map g = (c.schema.typesWith directive).map g := by
  induction h with
  | refl => rfl
  | tail _ h ih => exact (h.map_typesWith hd hg).trans ih

theorem Edits.namesWith (h : Edits known ready c d) {directive : String}
    (hd : directive ≠ "model") :
    d.schema.namesWith directive = c.schema.namesWith directive :=
  h.map_typesWith hd fun _ _ hname _ => hname

/-- Nor is a table asked for by another name. -/
theorem Edits.tableNames (h : Edits known ready c d) :
    d.schema.tableNames = c.schema.tableNames := by
  have asked := h.map_typesWith (show "mapsTo" ≠ "model" by decide)
    (g := fun t => t.tableName?.map fun table => (t.name, table)) fun t t' hname hdir => by
      rw [TypeDefinition.tableName?, TypeDefinition.tableName?, hname, hdir]
  have read : ∀ e : Document, e.tableNames
      = ((e.typesWith "mapsTo").map fun t =>
          t.tableName?.map fun table => (t.name, table)).filterMap id := fun e => by
    rw [List.filterMap_map]
    rfl
  rw [read, read, asked]

/-! ### Names that are accounted for -/

/-- A name is defined, or the page of a model, or what a search finds. -/
inductive Accounts (c : Context) : String → Prop where
  | resolved {name : String} (h : c.schema.Resolves name) : Accounts c name
  | page {model : String} (h : c.isModel model = true) : Accounts c (connectionName model)
  | found {model : String} (h : model ∈ c.schema.namesWith "searchable") :
      Accounts c (SearchPass.resultName model)

theorem Accounts.mono {name : String} (h : c.Accounts name) (hd : Edit known ready c d) :
    d.Accounts name := by
  cases h with
  | resolved h => exact .resolved (h.mono hd.grownTo)
  | page h => exact .page (Edits.isModel (.of hd) h)
  | found h =>
    have same := (Edits.of hd).namesWith (show "searchable" ≠ "model" by decide)
    exact .found (same ▸ h)

/-- The fields that passes add refer to names that are known or accounted for. -/
theorem Gains.accounts {type : String} {f : FieldDefinition} (h : c.Gains known type f) :
    ∀ name ∈ f.references, known name ∨ c.Accounts name := by
  have builtin : ∀ {name}, Document.isBuiltin name = true → known name ∨ c.Accounts name :=
    fun h => .inr (.resolved (.inl h))
  have id : Document.isBuiltin "ID" = true := by decide
  have typed : ∀ {name}, c.schema.IsTyped name → known name ∨ c.Accounts name :=
    fun h => .inr (.resolved (.inr h))
  cases h with
  | record _ hf =>
    have scalar : ∀ f ∈ ModelPass.idField :: ModelPass.timeFields ++ ModelPass.versionFields,
        ∀ name ∈ f.references, Document.isBuiltin name = true := by decide
    exact fun name hn => builtin (scalar f hf name hn)
  | page h hf =>
    simp only [ModelPass.connectionFields, List.mem_cons, List.not_mem_nil, or_false] at hf
    rcases hf with rfl | rfl
    · exact fun name hn => typed (List.mem_singleton.1 hn ▸ h)
    · exact fun name hn => builtin (by rw [List.mem_singleton.1 hn]; decide)
  | query h hp hf =>
    simp only [ModelPass.queryFields, List.mem_cons, List.not_mem_nil, or_false] at hf
    rcases hf with rfl | rfl
    · intro name hn
      rcases List.mem_cons.1 hn with rfl | hn
      · exact typed h
      · exact builtin (by rw [List.mem_singleton.1 hn]; decide)
    · exact fun name hn => typed (List.mem_singleton.1 hn ▸ hp)
  | mutation h hf =>
    obtain ⟨op, -, rfl⟩ := List.mem_map.1 hf
    exact fun name hn => typed (List.mem_singleton.1 hn ▸ h)
  | index hm =>
    intro name hn
    rw [List.mem_singleton.1 hn]
    exact .inr (.page hm)
  | key => exact fun name hn => builtin (List.mem_singleton.1 hn ▸ id)
  | link ha hb hf =>
    simp only [ManyToManyPass.joinFields, List.mem_cons, List.not_mem_nil, or_false] at hf
    rcases hf with rfl | rfl | rfl | rfl | rfl
    · exact fun name hn => builtin (List.mem_singleton.1 hn ▸ id)
    · exact fun name hn => builtin (List.mem_singleton.1 hn ▸ id)
    · exact fun name hn => builtin (List.mem_singleton.1 hn ▸ id)
    · exact fun name hn => .inl (List.mem_singleton.1 hn ▸ ha)
    · exact fun name hn => .inl (List.mem_singleton.1 hn ▸ hb)
  | search h =>
    intro name hn
    rw [List.mem_singleton.1 hn]
    exact .inr (.found (List.mem_map_of_mem h))

/-- What the schema refers to after a change is what it referred to before, or a name that is known
or accounted for. -/
theorem Edit.references (h : Edit known ready c d) {name : String}
    (hn : d.schema.References name) : c.schema.References name ∨ known name ∨ c.Accounts name := by
  cases h with
  | log | supply | resolver | decorate | rename | key | index => exact .inl hn
  | object => exact .inl hn.of_ensureObject
  | field h =>
    rcases hn.of_modifyType fun _ _ => TypeDefinition.references_ensureField with hn | hn
    · exact .inl hn
    · exact .inr (h.accounts name hn)
  | mark =>
    have same : ∀ t : TypeDefinition, ∀ n ∈ (ModelPass.markModel t).references,
        n ∈ t.references ∨ n ∈ [] := by
      intro t n ht
      rw [ModelPass.markModel] at ht
      split at ht <;> exact .inl ht
    exact .inl ((hn.of_modifyType same).resolve_right nofun)
  | @retype type field model _ hm =>
    have page : ∀ t : TypeDefinition, ∀ n ∈ (t.modifyField field fun f =>
        { f with type := .named (connectionName model) }).references,
        n ∈ t.references ∨ n ∈ [connectionName model] :=
      fun t n ht => (TypeDefinition.references_retype ht).imp_right List.mem_singleton.2
    rcases hn.of_modifyType page with hn | hn
    · exact .inl hn
    · rw [List.mem_singleton.1 hn]
      exact .inr (.inr (.page hm))
  | store _ h =>
    rcases ModelPass.addStore_eq h with rfl | ⟨_, _, rfl⟩ <;> exact .inl hn

/-- Every name that the schema refers to is accounted for. -/
def Accounted (c : Context) : Prop := ∀ name, c.schema.References name → c.Accounts name

/-- **Changes keep every name accounted for**, where those that are known are. -/
theorem Edits.accounted (h : Edits known ready c d) (hk : ∀ name, known name → c.Accounts name)
    (hc : c.Accounted) : d.Accounted ∧ ∀ name, known name → d.Accounts name := by
  induction h with
  | refl => exact ⟨hc, hk⟩
  | tail _ h ih =>
    refine ⟨fun name hn => ?_, fun name hn => (ih.2 name hn).mono h⟩
    rcases h.references hn with hn | hn | hn
    · exact (ih.1 name hn).mono h
    · exact (ih.2 name hn).mono h
    · exact hn.mono h

end Context

/-! ### What models are given -/

namespace ModelPass

/-- Every model that is remembered has what `P` says of it. -/
def Serves (P : Document → String → Prop) (s : PassState) : Prop :=
  ∀ model, s.memory.models.contains model = true → P s.context.schema model

variable {P : Document → String → Prop}

theorem serves_of_materializeDeclared
    (hmono : ∀ d d' model, Document.GrownTo d d' → P d model → P d' model)
    (hmade : ∀ model s t, (materialize model false).on s = (.ok (), t) → P t.context.schema model)
    {model : String} {s t : PassState} (hs : Serves P s)
    (h : (materializeDeclared model).on s = (.ok (), t)) :
    Serves P t ∧ t.memory.models.contains model = true
      ∧ ∀ other, s.memory.models.contains other = true →
        t.memory.models.contains other = true := by
  have hedits : EditsAt Context.AnyName _ (materializeDeclared model) s :=
    materializeDeclared_edits model s
  have grown := (hedits.of_ok h).grownTo
  rw [materializeDeclared, on_memory_bind] at h
  split at h
  · next hc =>
    cases h
    exact ⟨hs, hc, fun _ => id⟩
  · have made := hmade _ _ _ h
    obtain ⟨-, -, -, -, -, hm⟩ := materialize_ok h
    have hcontains : ∀ other, t.memory.models.contains other
        = (decide (other = model) || s.memory.models.contains other) := by
      intro other
      rw [hm, Dict.contains_insert]
    refine ⟨fun other ho => ?_, by simp [hcontains], fun other ho => by simp [hcontains, ho]⟩
    rw [hcontains, Bool.or_eq_true, decide_eq_true_eq] at ho
    rcases ho with rfl | ho
    · exact made
    · exact hmono _ _ _ grown (hs other ho)

theorem serves_of_forEach
    (hmono : ∀ d d' model, Document.GrownTo d d' → P d model → P d' model)
    (hmade : ∀ model s t, (materialize model false).on s = (.ok (), t) → P t.context.schema model)
    {models : List String} {s t : PassState} (hs : Serves P s)
    (h : (Action.forEach materializeDeclared models).on s = (.ok (), t)) :
    Serves P t ∧ (∀ model ∈ models, t.memory.models.contains model = true)
      ∧ ∀ other, s.memory.models.contains other = true →
        t.memory.models.contains other = true := by
  induction models generalizing s with
  | nil =>
    cases h
    exact ⟨hs, nofun, fun _ => id⟩
  | cons model models ih =>
    rw [Action.forEach_cons_ok] at h
    obtain ⟨u, hu, h⟩ := h
    obtain ⟨hserves, hmodel, hkept⟩ := serves_of_materializeDeclared hmono hmade hs hu
    obtain ⟨hserves', hmodels, hkept'⟩ := ih hserves h
    refine ⟨hserves', fun other ho => ?_, fun other ho => hkept' other (hkept other ho)⟩
    rcases List.mem_cons.1 ho with rfl | ho
    · exact hkept' _ hmodel
    · exact hmodels other ho

/-- Every type that asks to be a model has what models are given, where nothing is remembered
before. -/
theorem serves_of_apply
    (hmono : ∀ d d' model, Document.GrownTo d d' → P d model → P d' model)
    (hmade : ∀ model s t, (materialize model false).on s = (.ok (), t) → P t.context.schema model)
    {c : Context} {t : PassState} (h : apply.on { context := c } = (.ok (), t)) :
    ∀ model ∈ c.schema.namesWith "model", P t.context.schema model := by
  rw [apply, on_context_bind, Action.on_bind_eq_ok] at h
  obtain ⟨_, u, hu, h⟩ := h
  cases h
  obtain ⟨hserves, hmodels, -⟩ := serves_of_forEach hmono hmade (s := { context := c }) nofun hu
  exact fun model hm => hserves model (hmodels model hm)

end ModelPass

/-! ### Runs -/

namespace Chain

variable {args : FactoryArgs} {c : Context} {s : PassState}

/-- What models are given they keep. -/
theorem Completes.serves {P : Document → String → Prop}
    (hmono : ∀ d d' model, Document.GrownTo d d' → P d model → P d' model)
    (hmade : ∀ model s t, (ModelPass.materialize model false).on s = (.ok (), t) →
      P t.context.schema model) (h : Completes args c s) :
    ∀ model ∈ c.schema.namesWith "model", P s.context.schema model := by
  have hsplit : builtin args = { pass := .model, role := some .model } :: (builtin args).drop 1 :=
    rfl
  rw [Completes, hsplit, Action.forEach_cons_ok, on_apply_free] at h
  obtain ⟨t, ht, h⟩ := h
  have behind := (entries_edits (fun _ he _ => builtin_edits (List.mem_of_mem_drop he)
    fun _ _ => trivial) _).of_ok h
  exact fun model hm =>
    hmono _ _ _ behind.grownTo (ModelPass.serves_of_apply hmono hmade ht model hm)

theorem Completes.paged (h : Completes args c s) :
    ∀ model ∈ c.schema.namesWith "model", s.context.schema.IsTyped (connectionName model) :=
  h.serves (P := fun d model => d.IsTyped (connectionName model))
    (fun _ _ _ hd ht => ht.mono hd) fun _ _ _ => ModelPass.paged_of_materialize

theorem Completes.accounted (h : Completes args c s) (hc : c.schema.IsClosed) :
    s.context.Accounted :=
  h.keeps (I := Context.Accounted)
    (fun _ _ hd hc => (hd.accounted hc hc).1) fun name hn => .resolved (hc name hn)

/-- **A run keeps a closed schema closed, up to two kinds of names**: what the search of a type with
`@searchable` finds, which nothing defines but the schema itself, and the page of a type that is no
model of the schema but taken for one. Wherever a fresh run of the passes that every chain starts
with ends well, the schema is closed exactly where those of these names are defined that it refers
to. -/
theorem isClosed_iff_of_completes (h : Completes args c s) (hc : c.schema.IsClosed) :
    s.context.schema.IsClosed ↔
      (∀ model ∈ c.schema.namesWith "searchable",
          s.context.schema.References (SearchPass.resultName model) →
            s.context.schema.Resolves (SearchPass.resultName model))
        ∧ ∀ model, model ∉ c.schema.namesWith "model" → s.context.isModel model = true →
          s.context.schema.References (connectionName model) →
            s.context.schema.Resolves (connectionName model) := by
  constructor
  · exact fun hs => ⟨fun _ _ => hs _, fun _ _ _ => hs _⟩
  · rintro ⟨hfound, hpage⟩ name hn
    cases h.accounted hc name hn with
    | resolved h => exact h
    | @page model hm =>
      by_cases hdeclared : model ∈ c.schema.namesWith "model"
      · exact .inr (h.paged model hdeclared)
      · exact hpage model hdeclared hm hn
    | @found model hm =>
      have same := h.edits.namesWith (show "searchable" ≠ "model" by decide)
      exact hfound model (same ▸ hm) hn

/-- The schema of the searches is closed at the end only if it defines what they find. -/
theorem isClosed_iff_searchablePost :
    Completes {} searchablePost (lastState {} searchablePost)
      ∧ searchablePost.schema.IsClosed
      ∧ ((lastState {} searchablePost).context.schema.IsClosed →
          (lastState {} searchablePost).context.schema.References
              (SearchPass.resultName "Post") →
            (lastState {} searchablePost).context.schema.Resolves
              (SearchPass.resultName "Post")) := by
  have hclosed : searchablePost.schema.IsClosed := by decide +kernel
  refine ⟨completes_searchablePost, hclosed, fun hs => ?_⟩
  exact ((isClosed_iff_of_completes completes_searchablePost hclosed).1 hs).1 "Post" (by decide)

/-- A closed schema of which a run makes one that is not: nothing defines what the search finds. -/
theorem not_isClosed_searchablePost : searchablePost.schema.IsClosed
    ∧ Completes {} searchablePost (lastState {} searchablePost)
    ∧ ¬ (lastState {} searchablePost).context.schema.IsClosed := by
  obtain ⟨hcompletes, hopen⟩ := completes_of_endsWell
    (p := fun s => !decide s.context.schema.IsClosed)
    (show endsWell {} searchablePost _ = true by decide +kernel)
  rw [Bool.not_eq_true', decide_eq_false_iff_not] at hopen
  exact ⟨by decide +kernel, hcompletes, hopen⟩

end Chain

end ApiCompiler
