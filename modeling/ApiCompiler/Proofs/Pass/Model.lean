import ApiCompiler.Proofs.Pass.Edit

/-!
# Passes — what the pass of models does

* `on_materialize`, `on_addSynthesized`: all that making a model ends with.
* `materialize_edits`, `addSynthesized_edits`: a model is made by changes of the usual kinds, also
  where it is refused half-way.
* `Ready`: what a schema has when the store of a model is added: the model, with the field that its
  records are known by.
-/

namespace ApiCompiler

open PassAction Context

variable {known : String → Prop} {ready : Document → String → Prop}

/-! ### Fields of a type -/

theorem modifyFirst_congr {α : Type} {p : α → Bool} {f g : α → α} {items : List α}
    (h : ∀ a, items.find? p = some a → f a = g a) :
    modifyFirst p f items = modifyFirst p g items := by
  induction items with
  | nil => rfl
  | cons a as ih =>
    by_cases hp : p a = true
    · have := h a (by simp [hp])
      simp only [modifyFirst, hp, if_true, this]
    · have := ih fun b hb => h b (by simpa [hp] using hb)
      simp only [modifyFirst, if_neg hp, this]

theorem modifyFirst_modifyFirst {α : Type} {p : α → Bool} {f g : α → α}
    (hf : ∀ a, p a = true → p (f a) = true) (items : List α) :
    modifyFirst p g (modifyFirst p f items) = modifyFirst p (fun a => g (f a)) items := by
  induction items with
  | nil => rfl
  | cons a as ih =>
    by_cases hp : p a = true
    · simp only [modifyFirst, hp, if_true, hf a hp]
    · simp only [modifyFirst, if_neg hp, ih]

theorem Document.isBase_ensureField (name : String) (t : TypeDefinition) (f : FieldDefinition) :
    isBase name (t.ensureField f) = isBase name t := by
  unfold TypeDefinition.ensureField
  split <;> rfl

/-- Fields are ensured on a type one after the other. -/
theorem Context.modifyType_foldl (type : String) (fields : List FieldDefinition) (c : Context) :
    c.modifyType type (fun t => fields.foldl (·.ensureField ·) t)
      = fields.foldl (fun c f => c.modifyType type (·.ensureField f)) c := by
  induction fields generalizing c with
  | nil =>
    have : ∀ items : List TypeDefinition,
        modifyFirst (Document.isBase type) (fun t => t) items = items := by
      intro items
      induction items with
      | nil => rfl
      | cons a as ih => simp only [modifyFirst, ih]; split <;> rfl
    simp only [List.foldl_nil, modifyType, Document.modifyType, this]
  | cons f fs ih =>
    rw [List.foldl_cons, ← ih]
    simp only [List.foldl_cons, modifyType, Document.modifyType]
    rw [modifyFirst_modifyFirst fun t ht => by rw [Document.isBase_ensureField, ht]]

namespace Context

/-- Fields that are ensured on a type one after the other. -/
theorem ensureFields_edits {type : String} {fields : List FieldDefinition} {c : Context}
    (h : ∀ f ∈ fields, c.Gains known type f) :
    Edits known ready c (fields.foldl (fun c f => c.modifyType type (·.ensureField f)) c) :=
  Edits.foldl fun f hf _ hd => .of (.field ((h f hf).mono hd))

/-- A field that was ensured on a type which is there is there, whatever fields come behind it. -/
theorem declares_ensureFields {type : String} {fields : List FieldDefinition} {c : Context}
    (h : ∀ f ∈ fields, c.Gains known type f) (ht : c.schema.IsTyped type)
    {f : FieldDefinition} (hf : f ∈ fields) :
    (fields.foldl (fun c f => c.modifyType type (·.ensureField f)) c).schema.Declares type
      f.name := by
  induction fields generalizing c with
  | nil => cases hf
  | cons g gs ih =>
    have hg : Edits known AnyTime c (c.modifyType type (·.ensureField g)) :=
      .of (.field (h g List.mem_cons_self))
    have hgs : ∀ f ∈ gs, (c.modifyType type (·.ensureField g)).Gains known type f :=
      fun f hf => (h f (List.mem_cons_of_mem g hf)).mono hg
    rcases List.mem_cons.1 hf with rfl | hf
    · have hrest : Edits known AnyTime (c.modifyType type (·.ensureField f)) _ :=
        ensureFields_edits hgs
      exact (Document.declares_ensureField ht f).mono hrest.grownTo
    · exact ih hgs (ht.mono hg.grownTo) hf

end Context

namespace ModelPass

/-- A schema is ready for the store of a model that it has, with the field by which records are
known unless the model is `spared` that. -/
def Ready (spared : Document → String → Prop) (d : Document) (model : String) : Prop :=
  d.IsTyped model ∧ (d.Declares model "id" ∨ spared d model)

/-- No model is spared. -/
def NoneSpared (_ : Document) (_ : String) : Prop := False

/-- The fields that the records of a model have, where it has a key of its own or not. -/
def modelFields (versioned keyed : Bool) : List FieldDefinition :=
  (if keyed then [] else [idField]) ++ timeFields ++ if versioned then versionFields else []

theorem withModelFields_eq (versioned : Bool) (t : TypeDefinition) :
    withModelFields versioned t
      = (modelFields versioned (t.fields.any (·.hasDirective "primaryKey"))).foldl
        (·.ensureField ·) t := rfl

/-- The type of a model gets its fields one after the other. -/
theorem modifyType_withModelFields {c : Context} {model : String} {t : TypeDefinition}
    (h : c.schema.getType? model = some t) (versioned : Bool) :
    c.modifyType model (withModelFields versioned)
      = (modelFields versioned (t.fields.any (·.hasDirective "primaryKey"))).foldl
        (fun c f => c.modifyType model (·.ensureField f)) c := by
  rw [← modifyType_foldl]
  simp only [modifyType, Document.modifyType]
  rw [modifyFirst_congr (g := fun u => (modelFields versioned
    (t.fields.any (·.hasDirective "primaryKey"))).foldl (·.ensureField ·) u)]
  intro u hu
  rw [withModelFields_eq, Option.some.inj (hu.symm.trans h)]

theorem gains_modelFields {c : Context} {model : String} (h : c.schema.IsTyped model)
    (versioned keyed : Bool) : ∀ f ∈ modelFields versioned keyed, c.Gains known model f := by
  refine fun f hf => .record h ?_
  cases versioned <;> cases keyed <;>
    simp only [modelFields, List.mem_append, List.mem_cons, List.not_mem_nil, or_false, if_true,
      Bool.false_eq_true, if_false, false_or] at hf ⊢ <;> tauto

theorem connectionFields_edits {c : Context} {model : String} (h : c.schema.IsTyped model) :
    Edits known ready c
      ((connectionFields model).foldl (·.ensureObjectField (connectionName model) ·) c) :=
  Edits.foldl fun _ hf _ hd =>
    have typed := h.mono hd.grownTo
    Edits.ensureObjectField (.connection typed) (.page typed hf)

/-- The fields of a model are given to its base definition, which has to be there. -/
theorem addFields_eq_ok {c d : Context} {model : String} (h : addFields c model = .ok d) :
    ∃ t, c.schema.getType? model = some t ∧
      d = (connectionFields model).foldl (·.ensureObjectField (connectionName model) ·)
        ((modelFields (c.conflictFor model).isSome
          (t.fields.any (·.hasDirective "primaryKey"))).foldl
            (fun c f => c.modifyType model (·.ensureField f)) c) := by
  unfold addFields at h
  cases ht : c.schema.getType? model with
  | none =>
    rw [ht] at h
    cases h
  | some t =>
    rw [ht] at h
    cases h
    exact ⟨t, rfl, by rw [modifyType_withModelFields ht]⟩

theorem addFields_edits {c d : Context} {model : String} (h : addFields c model = .ok d) :
    Edits known ready c d := by
  obtain ⟨t, ht, rfl⟩ := addFields_eq_ok h
  have typed := Document.isTyped_of_getType? ht
  have fields : Edits known ready c ((modelFields (c.conflictFor model).isSome
      (t.fields.any (·.hasDirective "primaryKey"))).foldl
        (fun c f => c.modifyType model (·.ensureField f)) c) :=
    ensureFields_edits (gains_modelFields typed _ _)
  exact fields.trans (connectionFields_edits (typed.mono fields.grownTo))

/-- A model that has its fields has the type that pages through its records. -/
theorem paged_of_addFields {c d : Context} {model : String} (h : addFields c model = .ok d) :
    d.schema.IsTyped (connectionName model) := by
  obtain ⟨t, -, rfl⟩ := addFields_eq_ok h
  exact Document.isTyped_ensureObjectField _ _ rfl

/-- A model that has its fields has the one by which its records are known, unless the schema
declares its key. -/
theorem ready_of_addFields {c d : Context} {model : String} (h : addFields c model = .ok d) :
    Ready Document.DeclaresKey d.schema model := by
  have hgrown := (addFields_edits h : Edits AnyName AnyTime c d).grownTo
  obtain ⟨t, ht, rfl⟩ := addFields_eq_ok h
  have htyped := Document.isTyped_of_getType? ht
  refine ⟨htyped.mono hgrown, ?_⟩
  cases hkeyed : t.fields.any (·.hasDirective "primaryKey") with
  | true =>
    obtain ⟨f, hf, hp⟩ := List.any_eq_true.1 hkeyed
    have hbase := List.find?_some ht
    rw [Document.isBase, Bool.and_eq_true, beq_iff_eq] at hbase
    have hkey : c.schema.DeclaresKey model :=
      ⟨t, List.mem_of_find?_eq_some ht, hbase.1, f, hf, hp⟩
    rw [← hkeyed]
    exact .inr (hkey.mono hgrown)
  | false =>
    have hid : idField ∈ modelFields (c.conflictFor model).isSome false :=
      List.mem_append_left _ (List.mem_append_left _ List.mem_cons_self)
    have gained : ∀ f ∈ modelFields (c.conflictFor model).isSome false,
        c.Gains AnyName model f := gains_modelFields htyped _ _
    have fields : Edits AnyName AnyTime c _ := ensureFields_edits gained
    have paged : Edits AnyName AnyTime _ _ := connectionFields_edits (htyped.mono fields.grownTo)
    exact .inl ((declares_ensureFields gained htyped hid).mono paged.grownTo)

/-- The store of a model has a datasource. -/
theorem contains_addStore {c d : Context} {model : String} (h : addStore c model = .ok d) :
    d.resources.contains (datasourceId model) = true := by
  rcases addStore_eq h with rfl | ⟨dbType, secrets, rfl⟩
  · exact contains_addResource _ (tableDatasource model)
  · rw [← id_relationalDatasource c model dbType secrets]
    exact contains_addResource c _

/-- The store of a model is the same whatever the schema. -/
theorem addStore_withSchema (c : Context) (schema : Document) (model : String) :
    addStore { c with schema } model = (addStore c model).map fun d => { d with schema } := by
  unfold addStore
  dsimp only
  by_cases h : (c.datasourceFor model).dbType.isSql = true
  · have h' : (Context.datasourceFor { c with schema } model).dbType.isSql = true := h
    rw [if_pos h, if_pos h']
    cases c.datasourceSecrets.find? model <;> rfl
  · have h' : ¬ (Context.datasourceFor { c with schema } model).dbType.isSql = true := h
    rw [if_neg h, if_neg h']
    rfl

/-- What the schema becomes when a model gets its fields. -/
def modelSchema (versioned : Bool) (model : String) (schema : Document) : Document :=
  (connectionFields model).foldl (·.ensureObjectField (connectionName model) ·)
    (schema.modifyType model (withModelFields versioned))

theorem addFields_of_getType? {c : Context} {model : String} {t : TypeDefinition}
    (h : c.schema.getType? model = some t) : addFields c model
      = .ok { c with schema := modelSchema (c.conflictFor model).isSome model c.schema } := by
  rw [addFields, h]
  rfl

/-- The store of a model may as well be added after its fields, where these are not refused. -/
theorem addFields_addStore {c c' d : Context} {model : String} (hs : addStore c model = .ok c')
    (hf : addFields c' model = .ok d) :
    ∃ e, addFields c model = .ok e ∧ addStore e model = .ok d := by
  have hschema : c'.schema = c.schema ∧ c'.conflictFor model = c.conflictFor model := by
    rcases addStore_eq hs with rfl | ⟨_, _, rfl⟩ <;> exact ⟨rfl, rfl⟩
  obtain ⟨t, ht, -⟩ := addFields_eq_ok hf
  rw [addFields_of_getType? ht, hschema.1, hschema.2] at hf
  refine ⟨_, addFields_of_getType? (hschema.1 ▸ ht), ?_⟩
  rw [addStore_withSchema, hs]
  exact hf

theorem addOperations_edits {c : Context} {model : String}
    (h : c.resources.contains (datasourceId model) = true) (ht : c.schema.IsTyped model)
    (hp : c.schema.IsTyped (connectionName model)) :
    Edits known ready c (addOperations c model) := by
  have operation : ∀ {root f}, root ∈ ["Query", "Mutation"] → c.Gains known root f → ∀ d,
      Edits known ready c d → Edits known ready d (addOperation root model d f) :=
    fun hr hf _ hd => Edits.addOperation hr (reaches_of_contains _ (hd.contains h)) (hf.mono hd) _
      .refl
  have queries : Edits known ready c ((queryFields model).foldl (addOperation "Query" model) c) :=
    Edits.foldl fun f hf d hd => operation (by simp) (.query ht hp hf) d hd
  refine queries.trans (Edits.foldl fun f hf d hd => ?_)
  exact operation (by simp) (.mutation ht hf) d (queries.trans hd)

/-- Making a model ends with a fault of its store, with its store and a fault of its fields, or
with all that it needs. -/
theorem on_materialize (model : String) (synthesized : Bool) (s : PassState) :
    (materialize model synthesized).on s =
      match addStore s.context model with
      | .error e => (.error e, s)
      | .ok c    =>
        match addFields c model with
        | .error e => (.error e, { s with context := c })
        | .ok d    =>
          (.ok (), { s with
            context := (addOperations d model).log .debug ("Materialized model " ++ model)
            memory  := { s.memory with
              models := s.memory.models.insert model
                ⟨s.context.datasourceFor model, synthesized⟩ } }) := by
  rw [materialize, on_context_bind, on_examine_bind]
  cases hc : addStore s.context model with
  | error e => rfl
  | ok c =>
    dsimp only
    rw [on_onContext_bind, on_examine_bind]
    cases hd : addFields c model with
    | error e => rfl
    | ok d =>
      dsimp only
      rw [on_onContext_bind, on_onContext_bind, on_onMemory_bind, on_log]

/-- A model is made by changes, with its store once the schema has its fields. -/
theorem materialize_edits {model : String} {s : PassState}
    (hr : ∀ d, addFields s.context model = .ok d → ready d.schema model) (synthesized : Bool) :
    EditsAt known ready (materialize model synthesized) s := by
  have hon := on_materialize model synthesized s
  cases hc : addStore s.context model with
  | error e =>
    rw [hc] at hon
    exact editsAt_of_error hon .refl
  | ok c =>
    cases hd : addFields c model with
    | error e =>
      rw [hc] at hon
      dsimp only at hon
      rw [hd] at hon
      exact editsAt_of_error hon (.of (.store trivial hc))
    | ok d =>
      rw [hc] at hon
      dsimp only at hon
      rw [hd] at hon
      obtain ⟨e, he, hstore⟩ := addFields_addStore hc hd
      have stored : Edits known ready s.context d :=
        (addFields_edits he).tail (.store (hr e he) hstore)
      have operated : Edits known ready d (addOperations d model) :=
        addOperations_edits (contains_addStore hstore) (ready_of_addFields hd).1
          (paged_of_addFields hd)
      exact editsAt_of_ok hon ((stored.trans operated).tail (.log _ _))

/-- A model is made where its store can be reached and its fields are not refused. -/
theorem materialize_ok {model : String} {synthesized : Bool} {s t : PassState}
    (h : (materialize model synthesized).on s = (.ok (), t)) :
    ∃ c d, addStore s.context model = .ok c ∧ addFields c model = .ok d
      ∧ t.context = (addOperations d model).log .debug ("Materialized model " ++ model)
      ∧ t.memory = { s.memory with
          models :=
            s.memory.models.insert model ⟨s.context.datasourceFor model, synthesized⟩ } := by
  rw [on_materialize] at h
  split at h
  · exact nomatch (Prod.mk.inj h).1
  · next c hc =>
    split at h
    · exact nomatch (Prod.mk.inj h).1
    · next d hd =>
      have ht := (Prod.mk.inj h).2.symm
      exact ⟨c, d, hc, hd, congrArg (·.context) ht, congrArg (·.memory) ht⟩

/-- What follows when a model was made starts where it has its datasource, and the type that pages
through its records. -/
theorem operated_of_materialize {model : String} {synthesized : Bool} {s t : PassState}
    (h : (materialize model synthesized).on s = (.ok (), t)) :
    ∃ d, d.resources.contains (datasourceId model) = true
      ∧ d.schema.IsTyped (connectionName model) ∧ Edits AnyName AnyTime d t.context := by
  obtain ⟨c, d, hc, hd, ht, -⟩ := materialize_ok h
  obtain ⟨e, -, hstore⟩ := addFields_addStore hc hd
  have hm := contains_addStore hstore
  have hp := paged_of_addFields hd
  have operated : Edits AnyName AnyTime d (addOperations d model) :=
    addOperations_edits hm (ready_of_addFields hd).1 hp
  rw [ht]
  exact ⟨d, hm, hp, operated.tail (.log _ _)⟩

/-- A model that was made has a datasource. -/
theorem contains_of_materialize {model : String} {synthesized : Bool} {s t : PassState}
    (h : (materialize model synthesized).on s = (.ok (), t)) :
    t.context.resources.contains (datasourceId model) = true := by
  obtain ⟨d, hm, -, hd⟩ := operated_of_materialize h
  exact hd.contains hm

/-- A model that was made has the type that pages through its records. -/
theorem paged_of_materialize {model : String} {synthesized : Bool} {s t : PassState}
    (h : (materialize model synthesized).on s = (.ok (), t)) :
    t.context.schema.IsTyped (connectionName model) := by
  obtain ⟨d, -, hp, hd⟩ := operated_of_materialize h
  exact hp.mono hd.grownTo

/-- Fields that operations add to a type are there, whatever operations come behind them. -/
theorem declares_foldl_addOperation (root model : String) {fields : List FieldDefinition}
    (hplain : ∀ f ∈ fields, f.directives = []) (c : Context) {f : FieldDefinition}
    (hf : f ∈ fields) : (fields.foldl (addOperation root model) c).schema.Declares root f.name := by
  have schema : ∀ d fs, (List.foldl (addOperation root model) d fs).schema
      = fs.foldl (·.ensureObjectField root ·) d.schema :=
    fun d fs => (List.foldl_hom Context.schema fun _ _ => rfl).symm
  have grown : ∀ (d : Document) {g : FieldDefinition}, g.directives = [] →
      d.GrownTo (d.ensureObjectField root g) := fun d _ hg =>
    (Document.grownTo_ensureObject d root).trans
      (Document.grownTo_modifyType fun t _ => t.grownTo_ensureField _ hg)
  obtain ⟨before, behind, rfl⟩ := List.append_of_mem hf
  rw [schema, List.foldl_append, List.foldl_cons]
  refine List.foldlRecOn (motive := (Document.Declares · root f.name)) behind _
    (Document.declares_ensureField (Document.isTyped_ensureObject _ root) f) fun d hd g hg => ?_
  exact hd.mono (grown d (hplain g (List.mem_append_right _ (List.mem_cons_of_mem f hg))))

/-- A model that was made can have records created. -/
theorem creatable_of_materialize {model : String} {synthesized : Bool} {s t : PassState}
    (h : (materialize model synthesized).on s = (.ok (), t)) :
    t.context.schema.Declares "Mutation" ("create" ++ model) := by
  obtain ⟨c, d, -, -, ht, -⟩ := materialize_ok h
  have plain : ∀ f ∈ mutationFields model, f.directives = [] := fun f hf => by
    obtain ⟨op, -, rfl⟩ := List.mem_map.1 hf
    rfl
  rw [ht, schema_log, addOperations]
  exact declares_foldl_addOperation "Mutation" model plain _ List.mem_cons_self

/-- The context with a type declared, marked and given fields. -/
def declare (model : String) (fields : List FieldDefinition) (c : Context) : Context :=
  Context.modifyType { c with schema := c.schema.ensureObject model } model fun t =>
    fields.foldl (·.ensureField ·) (markModel t)

/-- Declaring a model and making it ends where there is one of the name, or as making it does. -/
theorem on_addSynthesized (model : String) (fields : List FieldDefinition) (s : PassState) :
    (addSynthesized model fields).on s =
      if s.memory.models.contains model then
        (.error (.invalidDirective "model" ("model '" ++ model ++ "' already exists")), s)
      else
        (materialize model true).on { s with context := declare model fields s.context } := by
  rw [addSynthesized, on_memory_bind]
  refine (on_guard _ _ _ s).trans ?_
  rw [on_onContext_bind, on_onContext_bind]
  rfl

theorem isBase_markModel (name : String) (t : TypeDefinition) :
    Document.isBase name (markModel t) = Document.isBase name t := by
  unfold markModel
  split <;> rfl

theorem declare_eq (model : String) (fields : List FieldDefinition) (c : Context) :
    declare model fields c = fields.foldl (fun c f => c.modifyType model (·.ensureField f))
      (Context.modifyType { c with schema := c.schema.ensureObject model } model markModel) := by
  rw [← modifyType_foldl]
  simp only [declare, modifyType, Document.modifyType]
  rw [modifyFirst_modifyFirst fun t ht => by rw [isBase_markModel, ht]]

/-- A type that is declared is marked and given fields by changes. -/
theorem marked_edits {model : String} {fields : List FieldDefinition} {c : Context}
    (hj : c.schema.IsJoin model) (hf : ∀ f ∈ fields, c.Gains known model f) :
    Edits known ready { c with schema := c.schema.ensureObject model }
      (declare model fields c) := by
  have declared : Edits known ready c { c with schema := c.schema.ensureObject model } :=
    .of (.object (.join hj))
  have marked : Edit known ready { c with schema := c.schema.ensureObject model } _ :=
    .mark (hj.mono declared.grownTo)
  rw [declare_eq]
  exact (Edits.of marked).trans
    (ensureFields_edits fun f hmem => (hf f hmem).mono (declared.tail marked))

theorem declare_edits {model : String} {fields : List FieldDefinition} {c : Context}
    (hj : c.schema.IsJoin model) (hf : ∀ f ∈ fields, c.Gains known model f) :
    Edits known ready c (declare model fields c) :=
  (Edits.of (.object (.join hj))).trans (marked_edits hj hf)

theorem isTyped_declare {model : String} {fields : List FieldDefinition} {c : Context}
    (hj : c.schema.IsJoin model) (hf : ∀ f ∈ fields, c.Gains known model f) :
    (declare model fields c).schema.IsTyped model :=
  (Document.isTyped_ensureObject c.schema model).mono
    (marked_edits hj hf : Edits known AnyTime _ _).grownTo

theorem declares_declare {model : String} {fields : List FieldDefinition} {c : Context}
    (hj : c.schema.IsJoin model) (hf : ∀ f ∈ fields, c.Gains known model f) {f : FieldDefinition}
    (h : f ∈ fields) : (declare model fields c).schema.Declares model f.name := by
  have declared : Edits known AnyTime c { c with schema := c.schema.ensureObject model } :=
    .of (.object (.join hj))
  have marked : Edit known AnyTime { c with schema := c.schema.ensureObject model } _ :=
    .mark (hj.mono declared.grownTo)
  have typed := (Document.isTyped_ensureObject c.schema model).mono marked.grownTo
  rw [declare_eq]
  exact declares_ensureFields (fun g hg => (hf g hg).mono (declared.tail marked)) typed h

/-- A model that is declared with a field by which its records are known is made by changes. -/
theorem addSynthesized_edits {model : String} {fields : List FieldDefinition} {s : PassState}
    (hj : s.context.schema.IsJoin model) (hf : ∀ f ∈ fields, s.context.Gains known model f)
    (hid : ∃ f ∈ fields, f.name = "id") :
    EditsAt known (Ready NoneSpared) (addSynthesized model fields) s := by
  have hon := on_addSynthesized model fields s
  split at hon
  · exact editsAt_of_error hon .refl
  · obtain ⟨f, hmem, hname⟩ := hid
    have declared : Edits known (Ready NoneSpared) s.context (declare model fields s.context) :=
      declare_edits hj hf
    have made : EditsAt known (Ready NoneSpared) (materialize model true)
        { s with context := declare model fields s.context } := by
      refine materialize_edits (fun d hd => ?_) true
      have grown := (addFields_edits hd : Edits AnyName AnyTime _ d).grownTo
      exact ⟨(ready_of_addFields hd).1, .inl ((hname ▸ declares_declare hj hf hmem).mono grown)⟩
    exact editsAt_of_on_eq hon declared made

/-- A model that was declared and made has a datasource. -/
theorem contains_of_addSynthesized {model : String} {fields : List FieldDefinition}
    {s t : PassState} (h : (addSynthesized model fields).on s = (.ok (), t)) :
    t.context.resources.contains (datasourceId model) = true := by
  rw [on_addSynthesized] at h
  split at h
  · exact nomatch (Prod.mk.inj h).1
  · exact contains_of_materialize h

/-- A model that was declared and made is there. -/
theorem isTyped_of_addSynthesized {model : String} {fields : List FieldDefinition}
    {s t : PassState} (hj : s.context.schema.IsJoin model)
    (hf : ∀ f ∈ fields, s.context.Gains known model f)
    (h : (addSynthesized model fields).on s = (.ok (), t)) : t.context.schema.IsTyped model := by
  rw [on_addSynthesized] at h
  split at h
  · exact nomatch (Prod.mk.inj h).1
  · have made : EditsAt AnyName AnyTime (materialize model true)
        { s with context := declare model fields s.context } :=
      materialize_edits (fun _ _ => trivial) true
    exact (isTyped_declare hj hf).mono (made.of_ok h).grownTo

/-- A model that was declared and made has the fields that it was declared with. -/
theorem declares_of_addSynthesized {model : String} {fields : List FieldDefinition}
    {s t : PassState} (hj : s.context.schema.IsJoin model)
    (hf : ∀ f ∈ fields, s.context.Gains known model f)
    (h : (addSynthesized model fields).on s = (.ok (), t)) {f : FieldDefinition}
    (hmem : f ∈ fields) : t.context.schema.Declares model f.name := by
  rw [on_addSynthesized] at h
  split at h
  · exact nomatch (Prod.mk.inj h).1
  · have made : EditsAt AnyName AnyTime (materialize model true)
        { s with context := declare model fields s.context } :=
      materialize_edits (fun _ _ => trivial) true
    exact (declares_declare hj hf hmem).mono (made.of_ok h).grownTo

theorem materializeDeclared_edits (model : String) (s : PassState) :
    EditsAt known (Ready Document.DeclaresKey) (materializeDeclared model) s := by
  refine editsAt_memory_bind ?_
  split
  · exact editsAt_pure () s
  · exact materialize_edits (fun _ hd => ready_of_addFields hd) false

theorem apply_edits (s : PassState) : EditsAt known (Ready Document.DeclaresKey) apply s :=
  editsAt_context_bind (editsAt_bind
    (editsAt_forEach fun model _ t _ => materializeDeclared_edits model t)
    fun _ t _ => editsAt_log _ _ t)

end ModelPass

end ApiCompiler
