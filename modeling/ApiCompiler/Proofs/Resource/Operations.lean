import ApiCompiler.Proofs.Resource.Bindings

/-!
# Resources — operations on models

A model asks for a query for one record, a query for a page of records, and for mutations that make,
change and delete one. Names of operations are made from that of the model, and a name that is taken
is left as it is.

* `Document.fieldType?`: the type of a field of a base definition; a field that was added first
  keeps its type.
* `ModelPass.eq_of_resolverId`: operations of different models have different names, unless the
  models have one plural.
* `Context.Operates`: a model has its operations.
* `ModelPass.operates_iff_of_apply`: the models of a schema have them exactly where names are apart.
-/

namespace ApiCompiler

open PassAction

/-! ### Types of fields -/

theorem find?_modifyFirst_of_not {α : Type} {p q : α → Bool} {f : α → α}
    (h : ∀ a, p a = true → q a = false ∧ q (f a) = false) (items : List α) :
    (modifyFirst p f items).find? q = items.find? q := by
  induction items with
  | nil => rfl
  | cons a as ih =>
    rw [modifyFirst]
    split
    · next hp =>
      obtain ⟨hbefore, hafter⟩ := h a hp
      rw [List.find?_cons_of_neg (Bool.eq_false_iff.1 hafter),
        List.find?_cons_of_neg (Bool.eq_false_iff.1 hbefore)]
    · rw [List.find?_cons, List.find?_cons, ih]

namespace TypeDefinition

/-- The type of the first field of a name. -/
def fieldType? (t : TypeDefinition) (field : String) : Option TypeRef :=
  (t.field? field).map (·.type)

/-- A field that was there keeps its type. -/
theorem fieldType?_ensureField (t : TypeDefinition) (f : FieldDefinition) (field : String) :
    (t.ensureField f).fieldType? field
      = (t.fieldType? field).or (if field = f.name then some f.type else none) := by
  unfold ensureField
  split
  · next hsome =>
    split
    · next he =>
      obtain ⟨g, hg⟩ := Option.isSome_iff_exists.1 hsome
      rw [fieldType?, he, hg]
      rfl
    · exact Option.or_none.symm
  · rw [fieldType?, fieldType?, field?, field?, List.find?_append, Option.map_or,
      List.find?_singleton]
    simp only [beq_iff_eq, eq_comm (a := field)]
    split <;> rfl

end TypeDefinition

namespace Document

/-- The type of a field of the base definition of a type. -/
def fieldType? (d : Document) (type field : String) : Option TypeRef :=
  (d.getType? type).bind (·.fieldType? field)

variable {d : Document} {type : String}

/-- A field that a base definition has is declared. -/
theorem fieldType?_eq_none {field : String} (h : ¬ d.Declares type field) :
    d.fieldType? type field = none := by
  rw [fieldType?, Option.bind_eq_none_iff]
  intro t ht
  rw [TypeDefinition.fieldType?, Option.map_eq_none_iff, TypeDefinition.field?,
    List.find?_eq_none]
  intro f hf hname
  have hbase := List.find?_some ht
  rw [isBase, Bool.and_eq_true, beq_iff_eq] at hbase
  exact h ⟨t, List.mem_of_find?_eq_some ht, hbase.1, f, hf, eq_of_beq hname⟩

theorem isBase_of_ne {name other : String} (h : name ≠ other) {t : TypeDefinition}
    (ht : isBase name t = true) : isBase other t = false := by
  rw [isBase, Bool.and_eq_true, beq_iff_eq] at ht
  rw [isBase, ht.1, beq_eq_false_iff_ne.2 h, Bool.false_and]

theorem getType?_ensureField (d : Document) (type root : String) (f : FieldDefinition) :
    (d.modifyType type (·.ensureField f)).getType? root
      = (d.getType? root).map fun t => if root = type then t.ensureField f else t := by
  rw [getType?, getType?, modifyType]
  by_cases h : root = type
  · subst h
    rw [find?_modifyFirst fun t ht => by rwa [isBase_ensureField]]
    simp only [if_true]
  · rw [find?_modifyFirst_of_not fun t ht => ⟨isBase_of_ne (Ne.symm h) ht, isBase_of_ne (Ne.symm h)
      ((isBase_ensureField type t f).trans ht)⟩]
    simp only [if_neg h, Option.map_id']

/-- A field that is added to a type which is there has its type from then on. -/
theorem fieldType?_modifyType (ht : (d.getType? type).isSome = true) (f : FieldDefinition)
    (root field : String) : (d.modifyType type (·.ensureField f)).fieldType? root field
      = (d.fieldType? root field).or
        (if root = type ∧ field = f.name then some f.type else none) := by
  rw [fieldType?, fieldType?, getType?_ensureField]
  by_cases h : root = type
  · subst h
    obtain ⟨t, ht⟩ := Option.isSome_iff_exists.1 ht
    simp only [ht, Option.map_some, Option.bind_some, if_true, true_and,
      TypeDefinition.fieldType?_ensureField]
  · simp only [h, false_and, if_false, Option.or_none, Option.map_id']

theorem fieldType?_ensureObject (d : Document) (name root field : String) :
    (d.ensureObject name).fieldType? root field = d.fieldType? root field := by
  unfold ensureObject
  split
  · rfl
  · rw [fieldType?, fieldType?, getType?, getType?, List.find?_append, List.find?_singleton]
    cases d.definitions.find? (isBase root) with
    | some t => rfl
    | none =>
      -- the type that is made has no fields
      rw [Option.none_or]
      split <;> rfl

theorem fieldType?_ensureObjectField (d : Document) (type : String) (f : FieldDefinition)
    (root field : String) : (d.ensureObjectField type f).fieldType? root field
      = (d.fieldType? root field).or
        (if root = type ∧ field = f.name then some f.type else none) := by
  rw [ensureObjectField, fieldType?_modifyType (getType?_ensureObject d type),
    fieldType?_ensureObject]

end Document

/-! ### Operations -/

theorem findSome?_eq_some {α β : Type} {f : α → Option β} {as : List α} {b : β}
    (h : ∃ a ∈ as, f a = some b) (hall : ∀ a ∈ as, ∀ b', f a = some b' → b' = b) :
    as.findSome? f = some b := by
  cases hfound : as.findSome? f with
  | none =>
    obtain ⟨a, ha, hb⟩ := h
    exact absurd ((List.findSome?_eq_none_iff.1 hfound a ha).symm.trans hb)
      (Option.some_ne_none b).symm
  | some b' =>
    obtain ⟨a, ha, hb⟩ := List.exists_of_findSome?_eq_some hfound
    rw [hall a ha b' hb]

namespace ModelPass

/-- The operations on a model: the type that each is a field of, its name, and the type that it
has. -/
def operationTypes (model : String) : List (String × String × TypeRef) :=
  [("Query", "get" ++ model, .named model),
    ("Query", "list" ++ Text.plural model, .named ("Model" ++ model ++ "Connection")),
    ("Mutation", "create" ++ model, .named model),
    ("Mutation", "update" ++ model, .named model),
    ("Mutation", "delete" ++ model, .named model)]

/-- They are those of the fields that the pass adds. -/
theorem operationTypes_eq (model : String) :
    operationTypes model = (operations model).map fun p => (p.1, p.2.name, p.2.type) := rfl

theorem attachments_eq (model : String) : attachments model
    = (operationTypes model).map fun p => (resolverId p.1 p.2.1, datasourceId model) := rfl

/-- **Operations of different models have different names**, unless the models have one plural. -/
theorem eq_of_resolverId {m n : String} (hplural : Text.plural m = Text.plural n → m = n)
    {p q : String × String × TypeRef} (hp : p ∈ operationTypes m) (hq : q ∈ operationTypes n)
    (h : resolverId p.1 p.2.1 = resolverId q.1 q.2.1) : m = n ∧ p = q := by
  simp only [operationTypes, List.mem_cons, List.not_mem_nil, or_false] at hp hq
  -- either the words in front of the names tell them apart, or what is behind these is the same
  rcases hp with rfl | rfl | rfl | rfl | rfl <;>
    rcases hq with rfl | rfl | rfl | rfl | rfl <;>
    simp [resolverId, ← String.toList_inj] at h hplural ⊢ <;> simp_all

/-- A model asks for the resolvers of its operations, and for no resolver of another model's, unless
the models have one plural. -/
theorem findList?_attachments {m n : String} (hplural : Text.plural m = Text.plural n → m = n)
    {p : String × String × TypeRef} (hp : p ∈ operationTypes m) :
    Dict.findList? (resolverId p.1 p.2.1) (attachments n)
      = if n = m then some (datasourceId m) else none := by
  have listed : ∀ {d}, (resolverId p.1 p.2.1, d) ∈ attachments n → n = m ∧ d = datasourceId m := by
    intro d hd
    rw [attachments_eq] at hd
    obtain ⟨q, hq, he⟩ := List.mem_map.1 hd
    obtain ⟨hid, rfl⟩ := Prod.mk.inj he
    obtain ⟨rfl, -⟩ := eq_of_resolverId hplural hp hq hid.symm
    exact ⟨rfl, rfl⟩
  cases hfound : Dict.findList? (resolverId p.1 p.2.1) (attachments n) with
  | some d =>
    obtain ⟨rfl, rfl⟩ := listed (Dict.mem_of_findList? hfound)
    exact (if_pos rfl).symm
  | none =>
    refine (if_neg ?_).symm
    rintro rfl
    rw [Dict.findList?_eq_none_iff, attachments_eq, List.map_map] at hfound
    exact hfound (List.mem_map.2 ⟨p, hp, rfl⟩)

/-- The fields that tell the times of a record. -/
def timeNames : List String := timeFields.map (·.name)

/-- The type that a model gives to a field of the types of operations, where the field is the time
of a record of that type, or an operation. -/
def given (root field model : String) : Option TypeRef :=
  (if root = model ∧ field ∈ timeNames then some (.required "AWSDateTime") else none).or
    ((operationTypes model).findSome? fun p =>
      if root = p.1 ∧ field = p.2.1 then some p.2.2 else none)

theorem given_eq_some {root field model : String} {type : TypeRef}
    (h : given root field model = some type) :
    (root = model ∧ field ∈ timeNames ∧ type = .required "AWSDateTime")
      ∨ ∃ p ∈ operationTypes model, root = p.1 ∧ field = p.2.1 ∧ type = p.2.2 := by
  rcases Option.or_eq_some_iff.1 h with h | ⟨-, h⟩
  · split at h
    · next htime => exact .inl ⟨htime.1, htime.2, (Option.some.inj h).symm⟩
    · cases h
  · obtain ⟨p, hp, h⟩ := List.exists_of_findSome?_eq_some h
    split at h
    · next he => exact .inr ⟨p, hp, he.1, he.2, (Option.some.inj h).symm⟩
    · cases h

/-- The operations on a model are given by it, where none of them is the time of a record. -/
theorem isSome_given {model : String} {p : String × String × TypeRef}
    (hp : p ∈ operationTypes model) : (given p.1 p.2.1 model).isSome = true := by
  rw [given, Option.isSome_or, Bool.or_eq_true, List.findSome?_isSome_iff]
  exact .inr ⟨p, hp, by rw [if_pos ⟨rfl, rfl⟩]; rfl⟩

/-- Fields of records that are neither operations nor times. -/
def otherNames : List String := idField.name :: versionFields.map (·.name)

/-- No operation has the name of such a field, or is on another type. -/
theorem of_mem_operationTypes {model : String} {p : String × String × TypeRef}
    (hp : p ∈ operationTypes model) : p.1 ∈ ["Query", "Mutation"] ∧ p.2.1 ∉ otherNames := by
  simp only [operationTypes, List.mem_cons, List.not_mem_nil, or_false] at hp
  rcases hp with rfl | rfl | rfl | rfl | rfl <;>
    simp [otherNames, idField, versionFields, ← String.toList_inj]

/-- The fields of the records of a model tell times, as far as they could be operations. -/
theorem findSome?_modelFields {field : String} (h : field ∉ otherNames) (root model : String)
    (versioned keyed : Bool) :
    ((modelFields versioned keyed).findSome? fun f =>
        if root = model ∧ field = f.name then some f.type else none)
      = if root = model ∧ field ∈ timeNames then some (.required "AWSDateTime") else none := by
  simp only [otherNames, idField, versionFields, List.map_cons, List.map_nil, List.mem_cons,
    List.not_mem_nil, or_false, not_or] at h
  by_cases hr : root = model
  · cases versioned <;> cases keyed <;>
      simp only [modelFields, timeFields, versionFields, idField, timeNames, hr, h, true_and,
        List.cons_append, List.nil_append, List.append_nil, List.findSome?_cons, List.findSome?_nil,
        List.map_cons, List.map_nil, List.mem_cons, List.not_mem_nil, or_false, if_true, if_false,
        Bool.false_eq_true] <;>
      grind
  · simp [hr]

/-- What a model gives to the types of operations that these do not have yet. -/
theorem fieldType?_of_materialize {root field : String} (hr : root ∈ ["Query", "Mutation"])
    (hf : field ∉ otherNames) {model : String} {synthesized : Bool} {s t : PassState}
    (h : (materialize model synthesized).on s = (.ok (), t)) :
    t.context.schema.fieldType? root field
      = (s.context.schema.fieldType? root field).or (given root field model) := by
  obtain ⟨c, d, hc, hd, ht, -⟩ := materialize_ok h
  have hschema : c.schema = s.context.schema := by
    rcases addStore_eq hc with rfl | ⟨_, _, rfl⟩ <;> rfl
  obtain ⟨type, htype, rfl⟩ := addFields_eq_ok hd
  have page : root ≠ connectionName model := fun he => by
    have chars := congrArg String.toList he
    simp only [List.mem_cons, List.not_mem_nil, or_false] at hr
    rcases hr with rfl | rfl <;> simp [connectionName] at chars
  have none : (connectionFields model).findSome? (fun f =>
      if root = connectionName model ∧ field = f.name then some f.type else none) = none :=
    List.findSome?_eq_none_iff.2 fun _ _ => if_neg fun he => page he.1
  -- the fields of the records, of the pages, and of the operations
  rw [ht, Context.schema_log, addOperations_eq,
    foldl_first (I := fun _ => True) (v := fun e : Context => e.schema.fieldType? root field)
      (fun p _ e _ => ⟨trivial, Document.fieldType?_ensureObjectField e.schema p.1 p.2 root field⟩)
      trivial,
    foldl_first (I := fun _ => True) (v := fun e : Context => e.schema.fieldType? root field)
      (fun f _ e _ => ⟨trivial, Document.fieldType?_ensureObjectField e.schema _ f root field⟩)
      trivial,
    foldl_first (I := fun e : Context => (e.schema.getType? model).isSome = true)
      (v := fun e : Context => e.schema.fieldType? root field)
      (fun f _ e he => ⟨by
        change ((e.schema.modifyType model (·.ensureField f)).getType? model).isSome = true
        rwa [Document.getType?_ensureField, Option.isSome_map],
        Document.fieldType?_modifyType he f root field⟩) (by rw [htype]; rfl),
    findSome?_modelFields hf, none, hschema, Option.or_none, Option.or_assoc]
  rfl

theorem fieldType?_of_apply {root field : String} (hr : root ∈ ["Query", "Mutation"])
    (hf : field ∉ otherNames) {c : Context} {t : PassState}
    (h : apply.on { context := c } = (.ok (), t)) :
    t.context.schema.fieldType? root field = (c.schema.fieldType? root field).or
      ((c.schema.namesWith "model").findSome? (given root field)) :=
  first_of_apply (v := fun d : Context => d.schema.fieldType? root field) (fun _ _ _ => rfl)
    (fun _ _ _ => fieldType?_of_materialize hr hf) h

end ModelPass

/-! ### Models that have their operations -/

/-- A model has its operations: each has a resolver that is bound to the datasource of the model,
and a field of its type unless the schema had declared the field `before`. -/
def Context.Operates (before : Document) (c : Context) (model : String) : Prop :=
  ∀ p ∈ ModelPass.operationTypes model,
    (∃ r ∈ c.resources.ofKind .resolver, r.id = resolverId p.1 p.2.1
      ∧ r.get? "dataSource" = some (.str (datasourceId model)))
    ∧ (¬ before.Declares p.1 p.2.1 → c.schema.fieldType? p.1 p.2.1 = some p.2.2)

instance (d : Document) (type field : String) : Decidable (d.Declares type field) :=
  inferInstanceAs (Decidable (∃ t ∈ d.definitions, t.name = type ∧ ∃ f ∈ t.fields, f.name = field))

instance (before : Document) (c : Context) (model : String) : Decidable (c.Operates before model) :=
  inferInstanceAs (Decidable (∀ p ∈ ModelPass.operationTypes model,
    (∃ r ∈ c.resources.ofKind .resolver, r.id = resolverId p.1 p.2.1
      ∧ r.get? "dataSource" = some (.str (datasourceId model)))
    ∧ (¬ before.Declares p.1 p.2.1 → c.schema.fieldType? p.1 p.2.1 = some p.2.2)))

/-- The operations on models are apart from each other and from the times of records: no two models
have one plural, and where both `Mutation` and `dAt` are models, `Mutation` comes behind `dAt`, or
declares both the fields that it would get. -/
structure Document.OperationsApart (d : Document) : Prop where
  plurals : ∀ m ∈ d.namesWith "model", ∀ n ∈ d.namesWith "model",
    Text.plural m = Text.plural n → m = n
  times   : "dAt" ∈ d.namesWith "model" →
    (d.namesWith "model").find? (· ∈ ["Mutation", "dAt"]) = some "Mutation" →
      ∀ field ∈ ModelPass.timeNames, d.Declares "Mutation" field

namespace ModelPass

variable {c : Context} {t : PassState}

/-- An operation that has the name of the time of a record makes or changes a `dAt`. -/
theorem eq_of_mem_timeNames {model : String} {p : String × String × TypeRef}
    (hp : p ∈ operationTypes model) (ht : p.2.1 ∈ timeNames) :
    model = "dAt" ∧ p.1 = "Mutation" := by
  simp only [operationTypes, List.mem_cons, List.not_mem_nil, or_false] at hp
  rcases hp with rfl | rfl | rfl | rfl | rfl <;>
    simp [timeNames, timeFields, ← String.toList_inj] at ht ⊢ <;> exact ht

/-- Only `Mutation` and `dAt` give a mutation the name of a time. -/
theorem of_given_timeNames {field model : String} (hf : field ∈ timeNames)
    (h : (given "Mutation" field model).isSome = true) : model ∈ ["Mutation", "dAt"] := by
  obtain ⟨type, htype⟩ := Option.isSome_iff_exists.1 h
  rcases given_eq_some htype with ⟨rfl, -, -⟩ | ⟨p, hp, -, rfl, -⟩
  · exact List.mem_cons_self
  · rw [(eq_of_mem_timeNames hp hf).1]
    exact List.mem_cons_of_mem _ List.mem_cons_self

/-- Where names are apart, the first model that gives a field of an operation is its own. -/
theorem findSome?_given (hapart : c.schema.OperationsApart) {model : String}
    (hm : model ∈ c.schema.namesWith "model") {p : String × String × TypeRef}
    (hp : p ∈ operationTypes model) (hd : ¬ c.schema.Declares p.1 p.2.1) :
    (c.schema.namesWith "model").findSome? (given p.1 p.2.1) = some p.2.2 := by
  cases hfound : (c.schema.namesWith "model").findSome? (given p.1 p.2.1) with
  | none =>
    have := isSome_given hp
    rw [List.findSome?_eq_none_iff.1 hfound model hm] at this
    cases this
  | some type =>
    obtain ⟨before, first, behind, hnames, hgiven, hnone⟩ := List.findSome?_eq_some_iff.1 hfound
    have hfirst : first ∈ c.schema.namesWith "model" := by
      rw [hnames]
      exact List.mem_append_right _ List.mem_cons_self
    rcases given_eq_some hgiven with ⟨rfl, htime, -⟩ | ⟨q, hq, hroot, hfield, rfl⟩
    · -- the time of a record of `Mutation` comes in front of the operation on `dAt`
      obtain ⟨rfl, hroot⟩ := eq_of_mem_timeNames hp htime
      rw [hroot] at hnames hd hnone
      have gives : ∀ n ∈ ["Mutation", "dAt"], (given "Mutation" p.2.1 n).isSome = true := by
        intro n hn
        rcases List.mem_cons.1 hn with rfl | hn
        · rw [given, if_pos ⟨rfl, htime⟩]
          rfl
        · rw [List.mem_singleton.1 hn]
          exact hroot ▸ isSome_given hp
      have skipped : before.find? (· ∈ ["Mutation", "dAt"]) = none := by
        refine List.find?_eq_none.2 fun n hn hin => ?_
        have := gives n (of_decide_eq_true hin)
        rw [hnone n hn] at this
        cases this
      refine absurd (hapart.times hm ?_ _ htime) hd
      rw [hnames, List.find?_append, skipped, Option.none_or]
      exact List.find?_cons_of_pos (by decide)
    · have hplural := hapart.plurals model hm first hfirst
      obtain ⟨-, rfl⟩ := eq_of_resolverId hplural hp hq (by rw [hroot, hfield])
      rfl

theorem operates_of_apart (hc : c.resources = {}) (h : apply.on { context := c } = (.ok (), t))
    (hapart : c.schema.OperationsApart) {model : String}
    (hm : model ∈ c.schema.namesWith "model") : t.context.Operates c.schema model := by
  have edits : Context.Edits Context.AnyName _ c t.context := (apply_edits _).of_ok h
  have sound := (edits.isSound (Context.isSound_of_empty hc)).all
  intro p hp
  refine ⟨?_, fun hd => ?_⟩
  · have hid : kindOfId? (resolverId p.1 p.2.1) = some .resolver := kindOfId?_resolverId _ _
    have bound : t.context.resources.source? (resolverId p.1 p.2.1)
        = some (.str (datasourceId model)) := by
      have fresh : c.resources.source? (resolverId p.1 p.2.1) = none := by
        rw [hc]
        rfl
      rw [source?_of_apply hid h, fresh, Option.none_or, Dict.findList?_flatMap,
        findSome?_eq_some (b := datasourceId model)]
      · rfl
      · exact ⟨model, hm, (findList?_attachments (fun _ => rfl) hp).trans (if_pos rfl)⟩
      · intro n hn d hd
        rw [findList?_attachments (hapart.plurals model hm n hn) hp] at hd
        split at hd
        · exact (Option.some.inj hd).symm
        · cases hd
    obtain ⟨r, hr, hsource⟩ := ResourceGraph.source?_eq_some_iff.1 bound
    obtain ⟨hmem, hrid⟩ := sound.mem_ofKind_of_get? hr hid
    exact ⟨r, hmem, hrid, hsource⟩
  · have hname := of_mem_operationTypes hp
    rw [fieldType?_of_apply hname.1 hname.2 h, Document.fieldType?_eq_none hd, Option.none_or,
      findSome?_given hapart hm hp hd]

theorem apart_of_operates (hc : c.resources = {}) (h : apply.on { context := c } = (.ok (), t))
    (hall : ∀ model ∈ c.schema.namesWith "model", t.context.Operates c.schema model) :
    c.schema.OperationsApart := by
  have edits : Context.Edits Context.AnyName _ c t.context := (apply_edits _).of_ok h
  have sound := (edits.isSound (Context.isSound_of_empty hc)).all
  have second : ∀ m,
      ("Query", "list" ++ Text.plural m, TypeRef.named ("Model" ++ m ++ "Connection"))
        ∈ operationTypes m := fun m => List.mem_cons_of_mem _ List.mem_cons_self
  have plurals : ∀ m ∈ c.schema.namesWith "model", ∀ n ∈ c.schema.namesWith "model",
      Text.plural m = Text.plural n → m = n := by
    intro m hm n hn he
    obtain ⟨r, hr, hrid, hrs⟩ := (hall m hm _ (second m)).1
    obtain ⟨q, hq, hqid, hqs⟩ := (hall n hn _ (second n)).1
    dsimp only at hrid hqid
    -- models of one plural have one resolver, which is bound to one datasource
    have hrget := (sound.mem_ofKind_iff.1 hr).1
    rw [hrid, he, ← hqid, (sound.mem_ofKind_iff.1 hq).1] at hrget
    rw [Option.some.inj hrget, hrs] at hqs
    exact datasourceId_inj (Json.str.inj (Option.some.inj hqs))
  refine ⟨plurals, fun hm hfirst field hf => by_contra fun hd => ?_⟩
  obtain ⟨-, before, behind, hnames, hnone⟩ := List.find?_eq_some_iff_append.1 hfirst
  obtain ⟨p, hp, hroot, rfl⟩ : ∃ p ∈ operationTypes "dAt", p.1 = "Mutation" ∧ p.2.1 = field := by
    have times : ∀ field ∈ timeNames,
        ∃ p ∈ operationTypes "dAt", p.1 = "Mutation" ∧ p.2.1 = field := by decide
    exact times field hf
  rw [← hroot] at hd
  have named := (hall "dAt" hm p hp).2 hd
  have hname := of_mem_operationTypes hp
  have skipped : before.findSome? (given "Mutation" p.2.1) = none := by
    refine List.findSome?_eq_none_iff.2 fun n hn => by_contra fun hgiven => ?_
    have := of_given_timeNames hf (Option.isSome_iff_ne_none.2 hgiven)
    simpa [this] using hnone n hn
  rw [fieldType?_of_apply hname.1 hname.2 h, Document.fieldType?_eq_none hd, Option.none_or, hroot,
    hnames, List.findSome?_append, skipped, Option.none_or, List.findSome?_cons, given,
    if_pos ⟨rfl, hf⟩, Option.some_or] at named
  -- the time of a record has another type than the operation
  have types : ∀ p ∈ operationTypes "dAt", p.2.2 ≠ .required "AWSDateTime" := by decide
  exact types p hp (Option.some.inj named).symm

/-- **Where models have their operations**: wherever the pass of models ends well on a fresh
context, every model of the schema has its operations exactly where their names are apart. An
operation whose name is taken by another model, or by the time of a record, is left as it is. -/
theorem operates_iff_of_apply (hc : c.resources = {})
    (h : apply.on { context := c } = (.ok (), t)) :
    (∀ model ∈ c.schema.namesWith "model", t.context.Operates c.schema model)
      ↔ c.schema.OperationsApart :=
  ⟨apart_of_operates hc h, fun hapart _ hm => operates_of_apart hc h hapart hm⟩

/-- What the pass leaves of a fresh context, whatever it ends with. -/
def leftOf (c : Context) : PassState := (apply.on { context := c }).2

theorem on_apply_of_isOk (h : (apply.on { context := c }).1.isOk = true) :
    apply.on { context := c } = (.ok (), leftOf c) :=
  Action.on_eq_of_isOk h

/-- A schema with models whose plurals differ, one of which can be made in another way. -/
def filedPosts : Context where
  schema := ⟨[{
    kind := .object, name := "Post", directives := [⟨"model", []⟩],
    fields := [{ name := "title", type := .named "String" }] }, {
    kind := .object, name := "Category", directives := [⟨"model", []⟩],
    fields := [{ name := "label", type := .named "String" }] }, {
    kind := .object, name := "Mutation",
    fields := [{ name := "createPost", type := .named "ID" }] }]⟩

/-- The operations on filed posts are apart. -/
theorem operates_iff_filedPosts :
    filedPosts.resources = {} ∧ apply.on { context := filedPosts } = (.ok (), leftOf filedPosts)
      ∧ (∀ model ∈ filedPosts.schema.namesWith "model",
          (leftOf filedPosts).context.Operates filedPosts.schema model)
      ∧ filedPosts.schema.OperationsApart := by
  have happly := on_apply_of_isOk (c := filedPosts) (by decide +kernel)
  have hall : ∀ model ∈ filedPosts.schema.namesWith "model",
      (leftOf filedPosts).context.Operates filedPosts.schema model := by decide +kernel
  exact ⟨rfl, happly, hall, (operates_iff_of_apply rfl happly).1 hall⟩

/-- A schema with two models that have one plural. -/
def spelledCategories : Context where
  schema := ⟨[{
    kind := .object, name := "Category", directives := [⟨"model", []⟩],
    fields := [{ name := "name", type := .named "String" }] }, {
    kind := .object, name := "Categorie", directives := [⟨"model", []⟩],
    fields := [{ name := "name", type := .named "String" }] }]⟩

/-- A page of one model is the only one that a model of the same plural has. -/
theorem not_operates_spelledCategories :
    spelledCategories.resources = {}
      ∧ apply.on { context := spelledCategories } = (.ok (), leftOf spelledCategories)
      ∧ ¬ ∀ model ∈ spelledCategories.schema.namesWith "model",
        (leftOf spelledCategories).context.Operates spelledCategories.schema model :=
  ⟨rfl, on_apply_of_isOk (by decide +kernel), by decide +kernel⟩

end ModelPass

end ApiCompiler
