import ApiCompiler.Proofs.Resource.Operations
import Mathlib.Data.List.Induction

/-!
# Resources — which models can be made, and what they leave

The pass of models makes the models of a schema one after the other, as they are declared. A model
gets its fields on its base definition, which may be one that an earlier model has made: the types
of operations, or the type that pages through records.

* `Document.ExtendedTo`: further fields on base definitions of some types, and further types.
* `ModelPass.Fits`, `ModelPass.Misfit`: whether a model can be made behind others, and else the
  fault that tells why not.
* `ModelPass.Made`: what is there when models were made: records, resources, types and fields.
* `made_materializeDeclared`, `made_of_materializable`: one model, and all of them.
* `made_of_apply`: what a run that ends well leaves.
* `apply_exact`: which schemas the pass accepts, what it says of the others, and what it leaves.
-/

namespace ApiCompiler

open PassAction

/-! ### Documents that get fields and types -/

/-- A definition with further fields behind its own, if it is the base definition of one of the
types. -/
def TypeDefinition.ExtendedTo (types : String → Prop) (t t' : TypeDefinition) : Prop :=
  ∃ added, t' = { t with fields := t.fields ++ added }
    ∧ (added ≠ [] → t.extends? = false ∧ types t.name)

/-- A document whose definitions may have got fields as base definitions of the types, and that may
have got some of the types, with nothing but fields. -/
def Document.ExtendedTo (types : String → Prop) (d d' : Document) : Prop :=
  GrownBy (TypeDefinition.ExtendedTo types)
    (fun t => types t.name ∧ t = { kind := .object, name := t.name, fields := t.fields })
    d.definitions d'.definitions

namespace TypeDefinition.ExtendedTo

variable {types types' : String → Prop} {t u v : TypeDefinition}

theorem refl (t : TypeDefinition) : t.ExtendedTo types t := ⟨[], by rw [List.append_nil], nofun⟩

theorem trans (h : t.ExtendedTo types u) (h' : u.ExtendedTo types v) : t.ExtendedTo types v := by
  obtain ⟨added, rfl, hbase⟩ := h
  obtain ⟨added', rfl, hbase'⟩ := h'
  refine ⟨added ++ added', by rw [List.append_assoc], fun hne => ?_⟩
  by_cases he : added = []
  · exact hbase' (by rwa [he, List.nil_append] at hne)
  · exact hbase he

theorem imp (h : t.ExtendedTo types u) (hi : ∀ name, types name → types' name) :
    t.ExtendedTo types' u := by
  obtain ⟨added, rfl, hbase⟩ := h
  exact ⟨added, rfl, fun hne => (hbase hne).imp_right (hi _)⟩

/-- Fields that were there are there. -/
theorem any_fields (h : t.ExtendedTo types u) {p : FieldDefinition → Bool}
    (ht : t.fields.any p = true) : u.fields.any p = true := by
  obtain ⟨added, rfl, -⟩ := h
  rw [List.any_append, ht, Bool.true_or]

theorem ensureField (h : t.extends? = false ∧ types t.name) (f : FieldDefinition) :
    t.ExtendedTo types (t.ensureField f) := by
  unfold TypeDefinition.ensureField
  split
  · exact refl t
  · exact ⟨[f], rfl, fun _ => h⟩

theorem foldl_ensureField (h : t.extends? = false ∧ types t.name) (fields : List FieldDefinition) :
    t.ExtendedTo types (fields.foldl (·.ensureField ·) t) := by
  refine List.foldlRecOn (motive := fun u => t.ExtendedTo types u) fields _ (refl t)
    fun u hu f _ => hu.trans (ensureField ?_ f)
  obtain ⟨_, rfl, -⟩ := hu
  exact h

end TypeDefinition.ExtendedTo

namespace TypeDefinition

variable {t : TypeDefinition} {f : FieldDefinition} {fields : List FieldDefinition} {name : String}

theorem isSome_field?_ensureField :
    ((t.ensureField f).field? name).isSome = true
      ↔ f.name = name ∨ (t.field? name).isSome = true := by
  unfold ensureField
  split
  · next h =>
    refine (or_iff_right_of_imp ?_).symm
    rintro rfl
    exact h
  · rw [isSome_field?_iff, isSome_field?_iff]
    simp [or_comm, or_and_right, exists_or]

/-- Fields that were ensured on a type are there, beside those that it had. -/
theorem isSome_field?_foldl :
    ((fields.foldl (·.ensureField ·) t).field? name).isSome = true
      ↔ (∃ f ∈ fields, f.name = name) ∨ (t.field? name).isSome = true :=
  foldl_or (f := fun u f => TypeDefinition.ensureField u f)
    (v := fun u => (u.field? name).isSome = true) (fun _ _ => isSome_field?_ensureField) fields t

end TypeDefinition

namespace Document

variable {types types' : String → Prop} {d d' d'' : Document} {type name : String}

theorem isBase_iff {t : TypeDefinition} :
    isBase name t = true ↔ t.name = name ∧ t.extends? = false := by
  rw [isBase, Bool.and_eq_true, beq_iff_eq, Bool.not_eq_true']

namespace ExtendedTo

theorem refl (d : Document) : d.ExtendedTo types d := GrownBy.refl .refl _

theorem trans (h : d.ExtendedTo types d') (h' : d'.ExtendedTo types d'') :
    d.ExtendedTo types d'' := by
  refine GrownBy.trans h h' (fun _ _ _ => .trans) fun t u ht hu => ?_
  obtain ⟨_, rfl, -⟩ := hu
  exact ⟨ht.1, by rw [ht.2]⟩

theorem imp (h : d.ExtendedTo types d') (hi : ∀ name, types name → types' name) :
    d.ExtendedTo types' d' :=
  GrownBy.imp h (fun _ _ ht => ht.imp hi) fun _ ht => ⟨hi _ ht.1, ht.2⟩

theorem ensureObject (h : types type) (d : Document) :
    d.ExtendedTo types (d.ensureObject type) := by
  unfold Document.ensureObject
  split
  · exact refl d
  · refine GrownBy.append .refl fun t ht => ?_
    rw [List.mem_singleton.1 ht]
    exact ⟨h, rfl⟩

theorem modifyType {f : TypeDefinition → TypeDefinition}
    (h : ∀ t : TypeDefinition, t.extends? = false → t.name = type → t.ExtendedTo types (f t)) :
    d.ExtendedTo types (d.modifyType type f) := by
  refine GrownBy.modifyFirst .refl fun t _ ht => ?_
  obtain ⟨hname, hbase⟩ := isBase_iff.1 ht
  exact h t hbase hname

theorem ensureObjectField (h : types type) (d : Document) (f : FieldDefinition) :
    d.ExtendedTo types (d.ensureObjectField type f) :=
  (ensureObject h d).trans (modifyType fun _ hb hn => .ensureField ⟨hb, hn ▸ h⟩ f)

end ExtendedTo

theorem isTyped_iff : d.IsTyped type ↔ (d.getType? type).isSome = true := by
  rw [getType?, List.find?_isSome, IsTyped]

theorem isTyped_ensureObject_iff :
    (d.ensureObject type).IsTyped name ↔ name = type ∨ d.IsTyped name := by
  unfold ensureObject
  split
  · next h =>
    refine (or_iff_right_of_imp ?_).symm
    rintro rfl
    exact isTyped_iff.2 h
  · simp only [IsTyped, List.mem_append, List.mem_singleton, or_and_right, exists_or,
      exists_eq_left, isBase, Bool.not_false, Bool.and_true, beq_iff_eq]
    rw [or_comm, eq_comm]

/-- A change that leaves base definitions what they are makes none and takes none away. -/
theorem isTyped_modifyType_iff {f : TypeDefinition → TypeDefinition}
    (h : ∀ t, isBase name (f t) = isBase name t) :
    (d.modifyType type f).IsTyped name ↔ d.IsTyped name := by
  have same : ∀ ts : List TypeDefinition,
      (modifyFirst (isBase type) f ts).any (isBase name) = ts.any (isBase name) := by
    intro ts
    induction ts with
    | nil => rfl
    | cons t ts ih =>
      rw [modifyFirst]
      split
      · rw [List.any_cons, List.any_cons, h]
      · rw [List.any_cons, List.any_cons, ih]
  rw [IsTyped, IsTyped, ← List.any_eq_true, ← List.any_eq_true, modifyType, same]

theorem isTyped_ensureObjectField_iff {f : FieldDefinition} :
    (d.ensureObjectField type f).IsTyped name ↔ name = type ∨ d.IsTyped name := by
  rw [ensureObjectField, isTyped_modifyType_iff fun t => isBase_ensureField name t f,
    isTyped_ensureObject_iff]

end Document

/-! ### Resources that are added -/

/-- Two contexts are told the same of where the records of models are kept, and how. -/
structure Context.SameSettings (c d : Context) : Prop where
  modelDatasources  : d.modelDatasources = c.modelDatasources
  datasourceSecrets : d.datasourceSecrets = c.datasourceSecrets
  resolverConfig    : d.resolverConfig = c.resolverConfig

namespace Context

namespace SameSettings

variable {c d e : Context}

theorem refl (c : Context) : c.SameSettings c := ⟨rfl, rfl, rfl⟩

theorem trans (h : c.SameSettings d) (h' : d.SameSettings e) : c.SameSettings e where
  modelDatasources := h'.modelDatasources.trans h.modelDatasources
  datasourceSecrets := h'.datasourceSecrets.trans h.datasourceSecrets
  resolverConfig := h'.resolverConfig.trans h.resolverConfig

theorem log (c : Context) (level : LogLevel) (message : String) :
    c.SameSettings (c.log level message) := ⟨rfl, rfl, rfl⟩

theorem datasourceFor (h : c.SameSettings d) (model : String) :
    d.datasourceFor model = c.datasourceFor model := by
  rw [Context.datasourceFor, h.modelDatasources, Context.datasourceFor]

theorem conflictFor (h : c.SameSettings d) (model : String) :
    d.conflictFor model = c.conflictFor model := by
  rw [Context.conflictFor, h.resolverConfig, Context.conflictFor]

end SameSettings

theorem contains_addResolver {c : Context} {typeName fieldName datasource stack id : String}
    {f : Resource → Resource} :
    (c.addResolver typeName fieldName datasource stack f).resources.contains id = true
      ↔ id = resolverId typeName fieldName ∨ c.resources.contains id = true := by
  rw [ResourceGraph.contains_iff_get?, get?_addResolver, ResourceGraph.contains_iff_get?]
  split
  · next h => simp [h]
  · next h => simp [h]

end Context

namespace ModelPass

/-! ### Models that can be made -/

/-- A model can be reached: it is not bound to a relational database without secrets. -/
def Reached (c : Context) (model : String) : Prop :=
  (c.datasourceFor model).dbType.isSql = true → c.datasourceSecrets.contains model = true

/-- The types that a model makes where they are missing. -/
def founded (model : String) : List String := [connectionName model, "Query", "Mutation"]

/-- A type has a base definition when the models `earlier` were made. -/
def Based (d : Document) (earlier : List String) (type : String) : Prop :=
  d.IsTyped type ∨ ∃ m ∈ earlier, type ∈ founded m

/-- A model can be made behind the models `earlier`. -/
def Fits (c : Context) (earlier : List String) (model : String) : Prop :=
  Reached c model ∧ Based c.schema earlier model

/-- What is wrong with a model behind the models `earlier`: it cannot be reached, or else nothing
gives it a base definition. -/
inductive Misfit (c : Context) (earlier : List String) (model : String) : Fault → Prop where
  | unreached (h : ¬ Reached c model) : Misfit c earlier model
      (.unresolvedDatasource "model" model "SQL datasource has no connection secrets")
  | undefined (h : Reached c model) (hb : ¬ Based c.schema earlier model) : Misfit c earlier model
      (.invalidDirective "model" ("type '" ++ model ++ "' is not defined"))

/-- Models that can be made one after the other. -/
def Materializable (c : Context) (models : List String) : Prop :=
  ∀ earlier model later, models = earlier ++ model :: later → Fits c earlier model

instance (c : Context) (model : String) : Decidable (Reached c model) :=
  inferInstanceAs (Decidable ((c.datasourceFor model).dbType.isSql = true →
    c.datasourceSecrets.contains model = true))

instance (d : Document) (earlier : List String) (type : String) :
    Decidable (Based d earlier type) :=
  inferInstanceAs (Decidable ((∃ t ∈ d.definitions, Document.isBase type t = true)
    ∨ ∃ m ∈ earlier, type ∈ founded m))

instance (c : Context) (earlier : List String) (model : String) :
    Decidable (Fits c earlier model) :=
  inferInstanceAs (Decidable (Reached c model ∧ Based c.schema earlier model))

variable {c d : Context} {earlier models : List String} {model id : String} {fault : Fault}

theorem Misfit.not_fits (h : Misfit c earlier model fault) : ¬ Fits c earlier model := by
  rintro ⟨hr, hb⟩
  cases h with
  | unreached hn => exact hn hr
  | undefined _ hn => exact hn hb

theorem fits_or_misfit (c : Context) (earlier : List String) (model : String) :
    Fits c earlier model ∨ ∃ fault, Misfit c earlier model fault := by
  by_cases hr : Reached c model
  · by_cases hb : Based c.schema earlier model
    · exact .inl ⟨hr, hb⟩
    · exact .inr ⟨_, .undefined hr hb⟩
  · exact .inr ⟨_, .unreached hr⟩

theorem Materializable.left {later : List String} (h : Materializable c (models ++ later)) :
    Materializable c models := by
  rintro xs model ys rfl
  exact h xs model (ys ++ later) (List.append_assoc xs (model :: ys) later)

theorem Materializable.concat (h : Materializable c models) (hm : Fits c models model) :
    Materializable c (models ++ [model]) := by
  intro xs m ys he
  rcases List.eq_nil_or_concat ys with rfl | ⟨zs, z, rfl⟩
  · obtain ⟨rfl, hlast⟩ := List.append_inj' he rfl
    exact List.singleton_inj.1 hlast ▸ hm
  · rw [List.concat_eq_append, ← List.cons_append, ← List.append_assoc] at he
    exact h xs m zs (List.append_inj' he rfl).1

/-- Models can be made, or the first that does not fit is told. -/
theorem materializable_cases (c : Context) (models : List String) :
    Materializable c models ∨ ∃ earlier model later fault, models = earlier ++ model :: later
      ∧ Materializable c earlier ∧ Misfit c earlier model fault := by
  induction models using List.reverseRecOn with
  | nil => exact .inl fun _ _ _ he => by simp at he
  | append_singleton models model ih =>
    rcases ih with h | ⟨xs, m, ys, fault, rfl, hxs, hm⟩
    · rcases fits_or_misfit c models model with hm | ⟨fault, hm⟩
      · exact .inl (h.concat hm)
      · exact .inr ⟨models, model, [], fault, rfl, h, hm⟩
    · exact .inr ⟨xs, m, ys ++ [model], fault, List.append_assoc _ _ _, hxs, hm⟩

/-! ### What models leave -/

/-- The ids of the store of a model. -/
def storeIds (c : Context) (model : String) : List String :=
  if (c.datasourceFor model).dbType.isSql then [datasourceId model]
  else [datasourceId model, tableId model]

/-- The ids of the resources of a model. -/
def resourceIds (c : Context) (model : String) : List String :=
  storeIds c model ++ (operationTypes model).map fun p => resolverId p.1 p.2.1

/-- A model has the fields of its records on its base definition: the times of a record, and the
field that it is known by unless one of its fields is declared to be its key. -/
def Recorded (d : Document) (model : String) : Prop :=
  ∃ t, d.getType? model = some t
    ∧ (∀ name ∈ ["createdAt", "updatedAt"], (t.field? name).isSome = true)
    ∧ (t.fields.any (·.hasDirective "primaryKey") = false → (t.field? "id").isSome = true)

/-- What is there when a run from a state has made models: a record of each and of no other, their
resources, their fields, the types that they make, and nothing else. -/
structure Made (s : PassState) (models : List String) (t : PassState) : Prop where
  settings  : s.context.SameSettings t.context
  known     : ∀ name, t.memory.models.contains name = true ↔ name ∈ models
  resources : ∀ id, t.context.resources.contains id = true
    ↔ ∃ m ∈ models, id ∈ resourceIds s.context m
  typed     : ∀ type, t.context.schema.IsTyped type ↔ Based s.context.schema models type
  recorded  : ∀ m ∈ models, Recorded t.context.schema m
  extended  : s.context.schema.ExtendedTo (fun type => ∃ m ∈ models, type ∈ m :: founded m)
    t.context.schema

theorem addStore_of_not_reached (h : ¬ Reached c model) : addStore c model
    = .error (.unresolvedDatasource "model" model "SQL datasource has no connection secrets") := by
  obtain ⟨hsql, hnone⟩ := Classical.not_imp.1 h
  have hfind : c.datasourceSecrets.find? model = none := by
    rwa [Dict.contains, Bool.not_eq_true, Option.isSome_eq_false_iff, Option.isNone_iff_eq_none]
      at hnone
  simp only [addStore, hsql, if_true, hfind]

/-- The store of a model that can be reached is added. -/
theorem addStore_of_reached (h : Reached c model) : ∃ d, addStore c model = .ok d
    ∧ ∀ id, d.resources.contains id = true
      ↔ id ∈ storeIds c model ∨ c.resources.contains id = true := by
  unfold addStore storeIds
  by_cases hsql : (c.datasourceFor model).dbType.isSql = true
  · obtain ⟨secrets, hfind⟩ := Dict.contains_iff_find?.1 (h hsql)
    simp only [hsql, if_true, hfind]
    refine ⟨_, rfl, fun id => ?_⟩
    rw [Context.resources_addResource, ResourceGraph.contains_add_iff, id_relationalDatasource,
      List.mem_singleton]
  · simp only [hsql, Bool.false_eq_true, if_false]
    refine ⟨_, rfl, fun id => ?_⟩
    rw [Context.resources_addResource, ResourceGraph.contains_add_iff,
      Context.resources_addResource, ResourceGraph.contains_add_iff, id_tableDatasource, id_table,
      List.mem_cons, List.mem_singleton, or_assoc]

theorem contains_addOperations : (addOperations c model).resources.contains id = true
    ↔ id ∈ (operationTypes model).map (fun p => resolverId p.1 p.2.1)
      ∨ c.resources.contains id = true := by
  have operation : ∀ (d : Context) (p : String × FieldDefinition),
      (addOperation p.1 model d p.2).resources.contains id = true
        ↔ id = resolverId p.1 p.2.name ∨ d.resources.contains id = true :=
    fun _ _ => Context.contains_addResolver
  rw [addOperations_eq, operationTypes_eq, List.map_map, List.mem_map]
  simp only [Function.comp_apply, eq_comm (b := id)]
  exact foldl_or (v := fun d : Context => d.resources.contains id = true) operation _ c

/-- The fields of the types that a model makes where they are missing. -/
def foundedFields (model : String) : List (String × FieldDefinition) :=
  (connectionFields model).map (fun f => (connectionName model, f)) ++ operations model

theorem mem_founded_iff {type : String} :
    (∃ p ∈ foundedFields model, type = p.1) ↔ type ∈ founded model := by
  simp [foundedFields, founded, connectionFields, operations, queryFields, mutationFields]

theorem isBase_withModelFields (name : String) (versioned : Bool) (t : TypeDefinition) :
    Document.isBase name (withModelFields versioned t) = Document.isBase name t := by
  rw [withModelFields_eq]
  exact List.foldlRecOn
    (motive := fun u => Document.isBase name u = Document.isBase name t) _ _ rfl
    fun u hu f _ => (Document.isBase_ensureField name u f).trans hu

/-- What the schema becomes when a model is made. -/
def madeSchema (versioned : Bool) (model : String) (d : Document) : Document :=
  (foundedFields model).foldl (fun d p => d.ensureObjectField p.1 p.2)
    (d.modifyType model (withModelFields versioned))

theorem sameSettings_addStore (h : addStore c model = .ok d) :
    c.SameSettings d ∧ d.schema = c.schema := by
  rcases addStore_eq h with rfl | ⟨_, _, rfl⟩ <;> exact ⟨⟨rfl, rfl, rfl⟩, rfl⟩

/-- A model whose type has a base definition gets its fields. -/
theorem addFields_of_getType?_eq {t : TypeDefinition} (h : c.schema.getType? model = some t) :
    ∃ d, addFields c model = .ok d ∧ c.SameSettings d ∧ d.resources = c.resources
      ∧ d.schema = modelSchema (c.conflictFor model).isSome model c.schema :=
  ⟨_, addFields_of_getType? h, ⟨rfl, rfl, rfl⟩, rfl, rfl⟩

theorem sameSettings_addOperations (c : Context) (model : String) :
    c.SameSettings (addOperations c model) := by
  rw [addOperations_eq]
  exact List.foldlRecOn (motive := fun d => c.SameSettings d) _ _ (.refl c)
    fun d hd _ _ => hd.trans ⟨rfl, rfl, rfl⟩

theorem schema_addOperations (c : Context) (model : String) : (addOperations c model).schema
    = (operations model).foldl (fun d p => d.ensureObjectField p.1 p.2) c.schema := by
  rw [addOperations_eq]
  exact (List.foldl_hom Context.schema fun _ _ => rfl).symm

theorem madeSchema_eq (versioned : Bool) (model : String) (d : Document) :
    madeSchema versioned model d = (operations model).foldl (fun d p => d.ensureObjectField p.1 p.2)
      (modelSchema versioned model d) := by
  rw [madeSchema, foundedFields, List.foldl_append, List.foldl_map, modelSchema]

theorem isTyped_madeSchema_iff {versioned : Bool} {d : Document} {type : String} :
    (madeSchema versioned model d).IsTyped type ↔ type ∈ founded model ∨ d.IsTyped type := by
  have made : ∀ (ps : List (String × FieldDefinition)) (e : Document),
      (ps.foldl (fun d p => d.ensureObjectField p.1 p.2) e).IsTyped type
        ↔ (∃ p ∈ ps, type = p.1) ∨ e.IsTyped type :=
    foldl_or (v := fun e : Document => e.IsTyped type)
      (n := fun p : String × FieldDefinition => type = p.1)
      fun _ _ => Document.isTyped_ensureObjectField_iff
  rw [madeSchema, made, mem_founded_iff,
    Document.isTyped_modifyType_iff (isBase_withModelFields type versioned)]

theorem extendedTo_foundedFields (model : String) (d : Document) :
    d.ExtendedTo (· ∈ model :: founded model)
      ((foundedFields model).foldl (fun d p => d.ensureObjectField p.1 p.2) d) :=
  List.foldlRecOn (motive := fun e => d.ExtendedTo _ e) _ _ (.refl d) fun e he p hp =>
    he.trans (.ensureObjectField (List.mem_cons_of_mem _ (mem_founded_iff.1 ⟨p, hp, rfl⟩)) e p.2)

theorem extendedTo_madeSchema (versioned : Bool) (model : String) (d : Document) :
    d.ExtendedTo (· ∈ model :: founded model) (madeSchema versioned model d) := by
  refine (Document.ExtendedTo.modifyType fun t hb hn => ?_).trans (extendedTo_foundedFields model _)
  exact .foldl_ensureField ⟨hb, hn ▸ List.mem_cons_self⟩ _

theorem Recorded.mono {types : String → Prop} {d d' : Document} (h : Recorded d model)
    (hd : d.ExtendedTo types d') : Recorded d' model := by
  obtain ⟨t, ht, htimes, hid⟩ := h
  obtain ⟨t', ht', hext⟩ := hd.find? (fun t t' ht => by obtain ⟨_, rfl, -⟩ := ht; rfl) ht
  have kept : ∀ name, (t.field? name).isSome = true → (t'.field? name).isSome = true :=
    fun name hsome => by
      rw [TypeDefinition.field?, List.isSome_find?] at hsome ⊢
      exact hext.any_fields hsome
  refine ⟨t', ht', fun name hn => kept name (htimes name hn), fun hkeyed => kept _ (hid ?_)⟩
  exact Bool.eq_false_iff.2 fun hk => Bool.eq_false_iff.1 hkeyed (hext.any_fields hk)

/-- A definition that got the fields of a model has them. -/
theorem recorded_modifyType {d : Document} {t : TypeDefinition} (h : d.getType? model = some t)
    (versioned : Bool) : Recorded (d.modifyType model (withModelFields versioned)) model := by
  have fields : ∀ f ∈ modelFields versioned (t.fields.any (·.hasDirective "primaryKey")),
      ((withModelFields versioned t).field? f.name).isSome = true := fun f hf => by
    rw [withModelFields_eq, TypeDefinition.isSome_field?_foldl]
    exact .inl ⟨f, hf, rfl⟩
  refine ⟨withModelFields versioned t, ?_, ?_, fun hkeyed => ?_⟩
  · rw [Document.getType?, Document.modifyType,
      find?_modifyFirst fun u hu => (isBase_withModelFields model versioned u).trans hu]
    exact congrArg (Option.map _) h
  · have times : ∀ name ∈ ["createdAt", "updatedAt"], ∃ f ∈ timeFields, f.name = name := by decide
    intro name hn
    obtain ⟨f, hf, rfl⟩ := times name hn
    exact fields f (List.mem_append_left _ (List.mem_append_right _ hf))
  · have extended : t.ExtendedTo (fun _ => True) (withModelFields versioned t) :=
      .foldl_ensureField ⟨(Document.isBase_iff.1 (List.find?_some h)).2, trivial⟩ _
    refine fields idField (List.mem_append_left _ (List.mem_append_left _ ?_))
    rw [if_neg fun hk => Bool.eq_false_iff.1 hkeyed (extended.any_fields hk)]
    exact List.mem_singleton_self _

theorem Made.reached_iff {s t : PassState} (h : Made s earlier t) :
    Reached t.context model ↔ Reached s.context model := by
  rw [Reached, h.settings.datasourceFor, h.settings.datasourceSecrets, Reached]

theorem Based.congr_iff {d : Document} {type : String} (h : ∀ m, m ∈ earlier ↔ m ∈ models) :
    Based d earlier type ↔ Based d models type := by
  simp only [Based, h]

/-- A model that is made once more is made already. -/
theorem Made.concat_of_mem {s t : PassState} (h : Made s earlier t) (hm : model ∈ earlier) :
    Made s (earlier ++ [model]) t := by
  have same : ∀ m, m ∈ earlier ++ [model] ↔ m ∈ earlier := fun m => by
    rw [List.mem_append, List.mem_singleton]
    exact or_iff_left_of_imp fun he => he ▸ hm
  refine ⟨h.settings, fun name => (h.known name).trans (same name).symm, fun id => ?_,
    fun type => (h.typed type).trans (Based.congr_iff fun m => (same m).symm),
    fun m hm => h.recorded m ((same m).1 hm), h.extended.imp fun type => ?_⟩
  · simp only [h.resources id, same]
  · simp only [same]
    exact id

/-- All that a model which fits leaves. -/
theorem on_materialize_of_fits {s t : PassState} (h : Made s earlier t)
    (hfit : Fits s.context earlier model) : ∃ u, (materialize model false).on t = (.ok (), u)
      ∧ t.context.SameSettings u.context
      ∧ u.memory.models = t.memory.models.insert model ⟨t.context.datasourceFor model, false⟩
      ∧ (∀ id, u.context.resources.contains id = true
        ↔ id ∈ resourceIds s.context model ∨ t.context.resources.contains id = true)
      ∧ u.context.schema
        = madeSchema (t.context.conflictFor model).isSome model t.context.schema := by
  obtain ⟨c, hc, hids⟩ := addStore_of_reached (h.reached_iff.2 hfit.1)
  obtain ⟨hstored, hschema⟩ := sameSettings_addStore hc
  obtain ⟨type, htype⟩ :=
    Option.isSome_iff_exists.1 (Document.isTyped_iff.1 ((h.typed model).2 hfit.2))
  rw [← hschema] at htype
  obtain ⟨d, hd, hfields, hresources, hextended⟩ := addFields_of_getType?_eq htype
  have hon := on_materialize model false t
  rw [hc] at hon
  dsimp only at hon
  rw [hd] at hon
  refine ⟨_, hon, ?_, rfl, fun id => ?_, ?_⟩
  · have operated := hfields.trans (sameSettings_addOperations d model)
    exact (hstored.trans operated).trans (.log _ _ _)
  · have stores : storeIds t.context model = storeIds s.context model := by
      rw [storeIds, h.settings.datasourceFor, storeIds]
    rw [Context.resources_log, contains_addOperations, hresources, hids, stores, resourceIds,
      List.mem_append, or_left_comm, or_assoc]
  · rw [Context.schema_log, schema_addOperations, hextended, hschema, hstored.conflictFor,
      madeSchema_eq]

/-- **A model that fits is made**, behind those that were made before it. -/
theorem made_of_fits {s t : PassState} (h : Made s earlier t)
    (hfit : Fits s.context earlier model) :
    ∃ u, (materialize model false).on t = (.ok (), u) ∧ Made s (earlier ++ [model]) u := by
  obtain ⟨u, hu, hsettings, hmodels, hids, hschema⟩ := on_materialize_of_fits h hfit
  refine ⟨u, hu, h.settings.trans hsettings, fun name => ?_, fun id => ?_, fun type => ?_,
    fun m hm => ?_, ?_⟩
  · rw [hmodels, Dict.contains_insert, Bool.or_eq_true, decide_eq_true_eq, h.known, List.mem_append,
      List.mem_singleton, or_comm]
  · rw [hids, h.resources]
    simp only [List.mem_append, List.mem_singleton, or_and_right, exists_or, exists_eq_left]
    exact or_comm
  · rw [hschema, isTyped_madeSchema_iff, h.typed]
    simp only [Based, List.mem_append, List.mem_singleton, or_and_right, exists_or, exists_eq_left]
    rw [or_comm, or_assoc]
  · rw [hschema]
    rcases List.mem_append.1 hm with hm | hm
    · exact (h.recorded m hm).mono (extendedTo_madeSchema _ _ _)
    · obtain ⟨type, htype⟩ :=
        Option.isSome_iff_exists.1 (Document.isTyped_iff.1 ((h.typed model).2 hfit.2))
      rw [List.mem_singleton.1 hm]
      exact (recorded_modifyType htype _).mono (extendedTo_foundedFields model _)
  · rw [hschema]
    refine (h.extended.imp fun type => ?_).trans
      ((extendedTo_madeSchema _ model _).imp fun type ht => ?_)
    · rintro ⟨m, hm, ht⟩
      exact ⟨m, List.mem_append_left _ hm, ht⟩
    · exact ⟨model, List.mem_append_right _ (List.mem_singleton_self _), ht⟩

/-- A model that does not fit is refused, behind those that were made before it. -/
theorem error_of_misfit {s t : PassState} (h : Made s earlier t)
    (hmisfit : Misfit s.context earlier model fault) :
    ((materialize model false).on t).1 = .error fault := by
  rw [on_materialize]
  cases hmisfit with
  | unreached hr => rw [addStore_of_not_reached (h.reached_iff.not.2 hr)]
  | undefined hr hb =>
    obtain ⟨c, hc, -⟩ := addStore_of_reached (h.reached_iff.2 hr)
    have hnone : c.schema.getType? model = none := by
      rw [← h.typed, Document.isTyped_iff, Option.isSome_iff_ne_none, not_not] at hb
      rw [(sameSettings_addStore hc).2, hb]
    rw [hc]
    dsimp only
    rw [addFields, hnone]
    rfl

/-- A model that fits is made unless it is made already. -/
theorem made_materializeDeclared {s t : PassState} (h : Made s earlier t)
    (hfit : Fits s.context earlier model) :
    ∃ u, (materializeDeclared model).on t = (.ok (), u) ∧ Made s (earlier ++ [model]) u := by
  rw [materializeDeclared, on_memory_bind]
  split
  · next hm => exact ⟨t, rfl, h.concat_of_mem ((h.known model).1 hm)⟩
  · exact made_of_fits h hfit

/-- A model that does not fit is refused, for it is not made already. -/
theorem error_materializeDeclared {s t : PassState} (h : Made s earlier t)
    (hearlier : Materializable s.context earlier) (hmisfit : Misfit s.context earlier model fault) :
    ((materializeDeclared model).on t).1 = .error fault := by
  rw [materializeDeclared, on_memory_bind]
  split
  · next hm =>
    obtain ⟨xs, ys, rfl⟩ := List.append_of_mem ((h.known model).1 hm)
    obtain ⟨hr, hb⟩ := hearlier xs model ys rfl
    refine absurd ⟨hr, hb.imp_right ?_⟩ hmisfit.not_fits
    rintro ⟨m, hm, ht⟩
    exact ⟨m, List.mem_append_left _ hm, ht⟩
  · exact error_of_misfit h hmisfit

/-- Nothing is made where there are no models and no resources. -/
theorem made_nil {s : PassState} (hm : s.memory.models = ∅) (hr : s.context.resources = {}) :
    Made s [] s where
  settings := .refl _
  known _ := by
    rw [hm]
    exact iff_of_false Bool.false_ne_true List.not_mem_nil
  resources _ := by
    rw [hr]
    exact iff_of_false Bool.false_ne_true nofun
  typed _ := by simp [Based]
  recorded := nofun
  extended := .refl _

/-- **Models that fit are made one after the other.** -/
theorem made_of_materializable {s : PassState} (hs : Made s [] s)
    (h : Materializable s.context models) :
    ∃ t, (Action.forEach materializeDeclared models).on s = (.ok (), t) ∧ Made s models t := by
  induction models using List.reverseRecOn with
  | nil => exact ⟨s, rfl, hs⟩
  | append_singleton models model ih =>
    obtain ⟨t, ht, hmade⟩ := ih h.left
    obtain ⟨u, hu, hmade⟩ := made_materializeDeclared hmade (h models model [] rfl)
    exact ⟨u, Action.forEach_append_ok.2 ⟨t, ht, Action.forEach_cons_ok.2 ⟨u, hu, rfl⟩⟩, hmade⟩

/-- The first model that does not fit is refused. -/
theorem error_of_first_misfit {s : PassState} (hs : Made s [] s)
    (hearlier : Materializable s.context earlier) (hmisfit : Misfit s.context earlier model fault)
    (later : List String) :
    ((Action.forEach materializeDeclared (earlier ++ model :: later)).on s).1 = .error fault := by
  obtain ⟨t, ht, hmade⟩ := made_of_materializable hs hearlier
  have he := error_materializeDeclared hmade hearlier hmisfit
  rw [Action.on_forEach_append, ht]
  dsimp only
  rw [Action.on_forEach_cons]
  generalize (materializeDeclared model).on t = r at he ⊢
  obtain ⟨_ | _, _⟩ := r
  · exact congrArg Except.error (Except.error.inj he)
  · cases he

theorem Made.log {s t : PassState} (h : Made s models t) (level : LogLevel) (message : String) :
    Made s models { t with context := t.context.log level message } :=
  ⟨h.settings.trans (.log _ _ _), h.known, h.resources, h.typed, h.recorded, h.extended⟩

/-- The pass makes the models of the schema, and then tells how many there are. -/
theorem on_apply (s : PassState) : apply.on s =
    match (Action.forEach materializeDeclared (s.context.schema.namesWith "model")).on s with
    | (.ok _, t)    => (.ok (), { t with context := t.context.log .info ("@model materialized "
        ++ toString (s.context.schema.namesWith "model").length ++ " model(s)") })
    | (.error e, t) => (.error e, t) := by
  rw [apply, on_context_bind, Action.on_bind, Document.namesWith]
  rcases (Action.forEach materializeDeclared _).on s with ⟨_ | _, _⟩ <;> rfl

/-- A run over models that fit ends well, and makes them. -/
theorem exists_apply_of_materializable {s : PassState} (hs : Made s [] s)
    (h : Materializable s.context (s.context.schema.namesWith "model")) :
    ∃ t, apply.on s = (.ok (), t) ∧ Made s (s.context.schema.namesWith "model") t := by
  obtain ⟨t, ht, hmade⟩ := made_of_materializable hs h
  have hon := on_apply s
  rw [ht] at hon
  exact ⟨_, hon, hmade.log _ _⟩

/-- A run refuses the first model that does not fit. -/
theorem apply_error_of_misfit {s : PassState} (hs : Made s [] s) {later : List String}
    (hnames : s.context.schema.namesWith "model" = earlier ++ model :: later)
    (hearlier : Materializable s.context earlier) (hmisfit : Misfit s.context earlier model fault) :
    (apply.on s).1 = .error fault := by
  have he := error_of_first_misfit hs hearlier hmisfit later
  rw [← hnames] at he
  rw [on_apply]
  generalize (Action.forEach materializeDeclared _).on s = r at he ⊢
  obtain ⟨_ | _, _⟩ := r
  · exact he
  · cases he

/-- Where a run ends well, it has made the models of the schema. -/
theorem made_of_apply {s t : PassState} (hs : Made s [] s) (h : apply.on s = (.ok (), t)) :
    Made s (s.context.schema.namesWith "model") t := by
  rcases materializable_cases s.context (s.context.schema.namesWith "model") with
    hall | ⟨earlier, model, later, fault, hnames, hearlier, hmisfit⟩
  · obtain ⟨u, hu, hmade⟩ := exists_apply_of_materializable hs hall
    cases h.symm.trans hu
    exact hmade
  · have he := apply_error_of_misfit hs hnames hearlier hmisfit
    rw [h] at he
    cases he

/-- **Which schemas the pass of models accepts, and what it leaves**, where it starts without models
and without resources. It ends well exactly where every object definition with `@model` fits behind
those that are declared before it: a type of its name has a base definition, in the schema or by one
of these, and it is not bound to a relational database without secrets. Else it tells what is wrong
with the first that does not fit. Where it ends well, it has made the models of the schema. -/
theorem apply_exact {s : PassState} (hm : s.memory.models = ∅) (hr : s.context.resources = {}) :
    ((∃ t, apply.on s = (.ok (), t))
        ↔ Materializable s.context (s.context.schema.namesWith "model"))
      ∧ (∀ fault, (apply.on s).1 = .error fault ↔ ∃ earlier model later,
        s.context.schema.namesWith "model" = earlier ++ model :: later
          ∧ Materializable s.context earlier ∧ Misfit s.context earlier model fault)
      ∧ ∀ t, apply.on s = (.ok (), t) → Made s (s.context.schema.namesWith "model") t := by
  have nothing := made_nil hm hr
  refine and_assoc.1 ⟨?_, fun t => made_of_apply nothing⟩
  rcases materializable_cases s.context (s.context.schema.namesWith "model") with
    h | ⟨earlier, model, later, fault, hnames, hearlier, hmisfit⟩
  · obtain ⟨t, ht, -⟩ := exists_apply_of_materializable nothing h
    refine ⟨iff_of_true ⟨t, ht⟩ h, fun fault => iff_of_false ?_ ?_⟩
    · rw [ht]
      exact nofun
    · rintro ⟨earlier, model, later, hnames, -, hmisfit⟩
      exact hmisfit.not_fits (h earlier model later hnames)
  · have he := apply_error_of_misfit nothing hnames hearlier hmisfit
    refine ⟨iff_of_false ?_ ?_, fun fault' => ⟨fun hf => ?_, ?_⟩⟩
    · rintro ⟨t, ht⟩
      rw [ht] at he
      cases he
    · exact fun h => hmisfit.not_fits (h earlier model later hnames)
    · cases he.symm.trans hf
      exact ⟨earlier, model, later, hnames, hearlier, hmisfit⟩
    · rintro ⟨earlier, model, later, hnames, hearlier, hmisfit⟩
      exact apply_error_of_misfit nothing hnames hearlier hmisfit

/-- A model whose type the schema only extends, which an earlier model makes, and one that is kept
in a relational database. -/
def pagedPosts (secrets : Dict ConnectionSecrets) : PassState where
  context :=
    { schema := ⟨[{ kind := .object, name := "Post", directives := [{ name := "model" }] },
        { kind := .object, name := "ModelPostConnection", extends? := true,
          directives := [{ name := "model" }] },
        { kind := .object, name := "Author", directives := [{ name := "model" }] }]⟩
      modelDatasources := (∅ : Dict DatasourceType).insert "Author" ⟨.mysql, false⟩
      datasourceSecrets := secrets }

theorem apply_exact_pagedPosts :
    (apply.on (pagedPosts ∅)).1 = .error
        (.unresolvedDatasource "model" "Author" "SQL datasource has no connection secrets")
      ∧ ∃ t, apply.on (pagedPosts ((∅ : Dict ConnectionSecrets).insert "Author" default))
          = (.ok (), t)
        ∧ t.context.resources.contains "ModelPostConnectionTable" = true
        ∧ t.context.resources.contains "AuthorTable" = false := by
  have nil : ∀ c, Materializable c [] := fun c _ _ _ he => by simp at he
  obtain ⟨-, herror, -⟩ := apply_exact (s := pagedPosts ∅) rfl rfl
  obtain ⟨hok, -, hmade⟩ :=
    apply_exact (s := pagedPosts ((∅ : Dict ConnectionSecrets).insert "Author" default)) rfl rfl
  have posts : ∀ secrets, Materializable (pagedPosts secrets).context
      ["Post", "ModelPostConnection"] := fun secrets => by
    have post : Fits (pagedPosts secrets).context [] "Post" :=
      ⟨fun h => absurd h Bool.false_ne_true, .inl ⟨_, List.mem_cons_self, rfl⟩⟩
    have page : Fits (pagedPosts secrets).context ["Post"] "ModelPostConnection" :=
      ⟨fun h => absurd h Bool.false_ne_true, .inr ⟨"Post", List.mem_cons_self, by decide⟩⟩
    exact ((nil _).concat post).concat page
  refine ⟨(herror _).2 ⟨["Post", "ModelPostConnection"], "Author", [], by decide, posts _,
    .unreached (by decide)⟩, ?_⟩
  have author : Fits (pagedPosts ((∅ : Dict ConnectionSecrets).insert "Author" default)).context
      ["Post", "ModelPostConnection"] "Author" := by decide
  obtain ⟨t, ht⟩ := hok.2 ((posts _).concat author)
  refine ⟨t, ht, ((hmade t ht).resources _).2 (by decide), Bool.eq_false_iff.2 fun h => ?_⟩
  exact absurd (((hmade t ht).resources _).1 h) (by decide)

end ModelPass

end ApiCompiler
