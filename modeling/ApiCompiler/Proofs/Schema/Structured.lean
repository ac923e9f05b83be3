import ApiCompiler.Proofs.Schema.Values

/-!
# Schema — structured documents

What a document is made of, with no regard to where it stands: the names in it, and the values and
the references to types at any depth. A document is *structured* where each name is one, each value
and each reference has the form that it is written in, and each definition has the parts of its kind
alone.

* `Value.Within`, `TypeRef.Within`: what stands in a value or in a reference.
* `Document.HasValue`, `Document.HasType`, `Document.Mentions`: what stands in a document.
* `Document.isStructured_iff`: the structured documents are those that are found well-formed.
-/

namespace ApiCompiler

/-! ### Values and references -/

namespace Value

/-- `u` is a value or stands in it, at any depth. -/
inductive Within (u : Value) : Value → Prop
  | self : Within u u
  | item {v : Value} {items : List Value} (hv : v ∈ items) (h : Within u v) :
      Within u (.list items)
  | entry {q : String × Value} {fields : List (String × Value)} (hq : q ∈ fields)
      (h : Within u q.2) : Within u (.object fields)

variable {u v : Value}

theorem isWellFormed_of_within (h : u.Within v) (hv : v.isWellFormed = true) :
    u.isWellFormed = true := by
  induction h with
  | self => exact hv
  | item hmem _ ih => exact ih (isWellFormed_list_iff.1 hv _ hmem)
  | entry hmem _ ih => exact ih (isWellFormed_object_iff.1 hv _ hmem).2

/-- A value is well-formed where the words, the numbers and the keys in it are. -/
theorem isWellFormed_of_forall (hn : ∀ n, (enumeral n).Within v → (enumeral n).isWellFormed = true)
    (hi : ∀ n, (int n).Within v → Number.fitsWord n = true)
    (hk : ∀ fields, (object fields).Within v → ∀ q ∈ fields, Schema.isName q.1 = true) :
    v.isWellFormed = true := by
  induction v using induct with
  | null | boolean _ | float _ | string _ => rfl
  | int n => exact hi n .self
  | enumeral n => exact hn n .self
  | list items ih =>
    exact isWellFormed_list_iff.2 fun v hv => ih v hv (fun n h => hn n (.item hv h))
      (fun n h => hi n (.item hv h)) fun fields h => hk fields (.item hv h)
  | object fields ih =>
    exact isWellFormed_object_iff.2 fun q hq => ⟨hk fields .self q hq,
      ih q hq (fun n h => hn n (.entry hq h)) (fun n h => hi n (.entry hq h))
        fun fields h => hk fields (.entry hq h)⟩

end Value

namespace TypeRef

/-- `r` is a reference to a type or stands in it, at any depth. -/
inductive Within (r : TypeRef) : TypeRef → Prop
  | self : Within r r
  | list {s : TypeRef} (h : Within r s) : Within r (.list s)
  | nonNull {s : TypeRef} (h : Within r s) : Within r (.nonNull s)

variable {r s : TypeRef}

theorem isWellFormed_of_within (h : r.Within s) (hs : s.isWellFormed = true) :
    r.isWellFormed = true := by
  induction h with
  | self => exact hs
  | list _ ih => exact ih hs
  | nonNull _ ih =>
    rw [isWellFormed, Bool.and_eq_true] at hs
    exact ih hs.2

/-- A reference is well-formed where the name in it is one, and null is never excluded twice. -/
theorem isWellFormed_of_forall (hn : ∀ n, (named n).Within s → Schema.isName n = true)
    (hb : ∀ r, ¬ (nonNull (nonNull r)).Within s) : s.isWellFormed = true := by
  induction s with
  | named n => exact hn n .self
  | list s ih => exact ih (fun n h => hn n (.list h)) fun r h => hb r (.list h)
  | nonNull s ih =>
    have inner := ih (fun n h => hn n (.nonNull h)) fun r h => hb r (.nonNull h)
    rw [isWellFormed, inner, Bool.and_true]
    cases s with
    | named _ | list _ => rfl
    | nonNull r => exact absurd .self (hb r)

end TypeRef

/-! ### What stands in a document -/

/-- The values that the arguments of a directive are given. -/
def Directive.values (e : Directive) : List Value := e.arguments.map (·.2)

/-- The default value of an argument, where it has one. -/
def ArgumentDefinition.values (a : ArgumentDefinition) : List Value := a.default.toList

namespace FieldDefinition

/-- The values that are written in a field. -/
def values (f : FieldDefinition) : List Value :=
  f.arguments.flatMap (·.values) ++ f.directives.flatMap (·.values)

/-- The types of a field and of its arguments. -/
def types (f : FieldDefinition) : List TypeRef := f.type :: f.arguments.map (·.type)

end FieldDefinition

/-- The values that are written in a definition. -/
def TypeDefinition.values (t : TypeDefinition) : List Value :=
  t.directives.flatMap (·.values) ++ t.fields.flatMap (·.values)

namespace Document

/-- A value stands in a document, at any depth of what is written in it. -/
def HasValue (d : Document) (u : Value) : Prop :=
  ∃ t ∈ d.definitions, ∃ v ∈ t.values, u.Within v

/-- A reference to a type stands in a document, at any depth of the type of a field or argument. -/
def HasType (d : Document) (r : TypeRef) : Prop :=
  ∃ t ∈ d.definitions, ∃ f ∈ t.fields, ∃ s ∈ f.types, r.Within s

/-- A text stands in a document in the place of a name. -/
inductive Mentions (d : Document) : String → Prop
  | type {t} (ht : t ∈ d.definitions) : Mentions d t.name
  | interface {t n} (ht : t ∈ d.definitions) (hn : n ∈ t.implements) : Mentions d n
  | member {t n} (ht : t ∈ d.definitions) (hn : n ∈ t.members) : Mentions d n
  | field {t f} (ht : t ∈ d.definitions) (hf : f ∈ t.fields) : Mentions d f.name
  | argument {t f a} (ht : t ∈ d.definitions) (hf : f ∈ t.fields) (ha : a ∈ f.arguments) :
      Mentions d a.name
  | directive {e} (he : e ∈ d.directives) : Mentions d e.name
  | directiveArgument {e q} (he : e ∈ d.directives) (hq : q ∈ e.arguments) : Mentions d q.1
  | key {fields q} (h : d.HasValue (.object fields)) (hq : q ∈ fields) : Mentions d q.1
  | enumeral {n} (h : d.HasValue (.enumeral n)) : Mentions d n
  | named {n} (h : d.HasType (.named n)) : Mentions d n

/-- What stands in the place of a name is one, no enum value reads as another value, whole numbers
fit 64 bits, null is never excluded twice, and each definition has the parts of its kind alone. -/
structure IsStructured (d : Document) : Prop where
  names   : ∀ n, d.Mentions n → Schema.isName n = true
  words   : ∀ n, d.HasValue (.enumeral n) → n ≠ "true" ∧ n ≠ "false" ∧ n ≠ "null"
  wholes  : ∀ n, d.HasValue (.int n) → -9223372036854775808 ≤ n ∧ n ≤ 9223372036854775807
  nulls   : ∀ r, ¬ d.HasType (.nonNull (.nonNull r))
  fields  : ∀ t ∈ d.definitions, t.fields ≠ [] ∨ t.implements ≠ [] →
    t.kind = .object ∨ t.kind = .input ∨ t.kind = .interface
  members : ∀ t ∈ d.definitions, t.members ≠ [] → t.kind = .enumeration ∨ t.kind = .union

end Document

/-! ### Structured and well-formed -/

theorem Number.fitsWord_iff {n : Int} :
    fitsWord n = true ↔ -9223372036854775808 ≤ n ∧ n ≤ 9223372036854775807 := by
  rw [fitsWord, wordBound, Bool.and_eq_true, decide_eq_true_eq, decide_eq_true_eq]
  omega

namespace TypeDefinition

variable {t : TypeDefinition}

/-- Which kinds have fields and interfaces, and which have members. -/
theorem fitsKind_iff_kinds : t.fitsKind = true ↔
    (t.fields ≠ [] ∨ t.implements ≠ [] →
        t.kind = .object ∨ t.kind = .input ∨ t.kind = .interface)
      ∧ (t.members ≠ [] → t.kind = .enumeration ∨ t.kind = .union) := by
  rw [fitsKind_iff]
  cases t.kind <;> simp [TypeKind.hasFields, TypeKind.hasMembers]

theorem isWellFormed_of_mem_values (ht : t.isWellFormed = true) {v : Value} (hv : v ∈ t.values) :
    v.isWellFormed = true := by
  obtain ⟨-, -, hdirectives, hfields, -⟩ := isWellFormed_iff.1 ht
  have directive : ∀ {e : Directive}, e.isWellFormed = true → v ∈ e.values →
      v.isWellFormed = true := fun he hv => by
    obtain ⟨q, hq, rfl⟩ := List.mem_map.1 hv
    exact ((Directive.isWellFormed_iff.1 he).2 q hq).2
  rcases List.mem_append.1 hv with hv | hv
  · obtain ⟨e, he, hv⟩ := List.mem_flatMap.1 hv
    exact directive (hdirectives e he) hv
  · obtain ⟨f, hf, hv⟩ := List.mem_flatMap.1 hv
    obtain ⟨-, harguments, -, hdirectives⟩ := FieldDefinition.isWellFormed_iff.1 (hfields f hf)
    rcases List.mem_append.1 hv with hv | hv
    · obtain ⟨a, ha, hv⟩ := List.mem_flatMap.1 hv
      exact (ArgumentDefinition.isWellFormed_iff.1 (harguments a ha)).2.2 v (Option.mem_toList.1 hv)
    · obtain ⟨e, he, hv⟩ := List.mem_flatMap.1 hv
      exact directive (hdirectives e he) hv

end TypeDefinition

namespace Document

variable {d : Document}

section WellFormed

variable (h : ∀ t ∈ d.definitions, t.isWellFormed = true)

include h

theorem isWellFormed_of_hasValue {u : Value} (hu : d.HasValue u) : u.isWellFormed = true := by
  obtain ⟨t, ht, v, hv, hu⟩ := hu
  exact Value.isWellFormed_of_within hu (TypeDefinition.isWellFormed_of_mem_values (h t ht) hv)

theorem isWellFormed_of_hasType {r : TypeRef} (hr : d.HasType r) : r.isWellFormed = true := by
  obtain ⟨t, ht, f, hf, s, hs, hr⟩ := hr
  obtain ⟨-, -, -, hfields, -⟩ := TypeDefinition.isWellFormed_iff.1 (h t ht)
  obtain ⟨-, harguments, htype, -⟩ := FieldDefinition.isWellFormed_iff.1 (hfields f hf)
  refine TypeRef.isWellFormed_of_within hr ?_
  rcases List.mem_cons.1 hs with rfl | hs
  · exact htype
  · obtain ⟨a, ha, rfl⟩ := List.mem_map.1 hs
    exact (ArgumentDefinition.isWellFormed_iff.1 (harguments a ha)).2.1

theorem isWellFormed_of_mem_directives {e : Directive} (he : e ∈ d.directives) :
    e.isWellFormed = true := by
  obtain ⟨t, ht, he⟩ := List.mem_flatMap.1 he
  obtain ⟨-, -, hdirectives, hfields, -⟩ := TypeDefinition.isWellFormed_iff.1 (h t ht)
  rcases List.mem_append.1 he with he | he
  · exact hdirectives e he
  · obtain ⟨f, hf, he⟩ := List.mem_flatMap.1 he
    exact (FieldDefinition.isWellFormed_iff.1 (hfields f hf)).2.2.2 e he

theorem isName_of_mentions {n : String} (hn : d.Mentions n) : Schema.isName n = true := by
  cases hn with
  | type ht => exact (TypeDefinition.isWellFormed_iff.1 (h _ ht)).1
  | interface ht hn => exact (TypeDefinition.isWellFormed_iff.1 (h _ ht)).2.1 n hn
  | member ht hn => exact (TypeDefinition.isWellFormed_iff.1 (h _ ht)).2.2.2.2.1 n hn
  | field ht hf =>
    have field := (TypeDefinition.isWellFormed_iff.1 (h _ ht)).2.2.2.1 _ hf
    exact (FieldDefinition.isWellFormed_iff.1 field).1
  | argument ht hf ha =>
    have field := (TypeDefinition.isWellFormed_iff.1 (h _ ht)).2.2.2.1 _ hf
    have argument := (FieldDefinition.isWellFormed_iff.1 field).2.1 _ ha
    exact (ArgumentDefinition.isWellFormed_iff.1 argument).1
  | directive he => exact (Directive.isWellFormed_iff.1 (isWellFormed_of_mem_directives h he)).1
  | directiveArgument he hq =>
    exact ((Directive.isWellFormed_iff.1 (isWellFormed_of_mem_directives h he)).2 _ hq).1
  | key hv hq =>
    exact (Value.isWellFormed_object_iff.1 (isWellFormed_of_hasValue h hv) _ hq).1
  | enumeral hv => exact (Value.isWellFormed_enumeral_iff.1 (isWellFormed_of_hasValue h hv)).1
  | named hr => exact isWellFormed_of_hasType h hr

end WellFormed

namespace IsStructured

variable (h : d.IsStructured)

include h

theorem isWellFormed_value {t : TypeDefinition} (ht : t ∈ d.definitions) {v : Value}
    (hv : v ∈ t.values) : v.isWellFormed = true :=
  Value.isWellFormed_of_forall
    (fun n hn => Value.isWellFormed_enumeral_iff.2
      ⟨h.names n (.enumeral ⟨t, ht, v, hv, hn⟩), h.words n ⟨t, ht, v, hv, hn⟩⟩)
    (fun n hn => Number.fitsWord_iff.2 (h.wholes n ⟨t, ht, v, hv, hn⟩))
    fun _ hk q hq => h.names q.1 (.key ⟨t, ht, v, hv, hk⟩ hq)

theorem isWellFormed_type {t : TypeDefinition} (ht : t ∈ d.definitions) {f : FieldDefinition}
    (hf : f ∈ t.fields) {s : TypeRef} (hs : s ∈ f.types) : s.isWellFormed = true :=
  TypeRef.isWellFormed_of_forall (fun n hn => h.names n (.named ⟨t, ht, f, hf, s, hs, hn⟩))
    fun r hr => h.nulls r ⟨t, ht, f, hf, s, hs, hr⟩

theorem isWellFormed_directive {t : TypeDefinition} (ht : t ∈ d.definitions) {e : Directive}
    (he : e ∈ d.directives) (hv : ∀ v ∈ e.values, v ∈ t.values) : e.isWellFormed = true :=
  Directive.isWellFormed_iff.2 ⟨h.names e.name (.directive he), fun q hq =>
    ⟨h.names q.1 (.directiveArgument he hq),
      h.isWellFormed_value ht (hv q.2 (List.mem_map_of_mem hq))⟩⟩

theorem isWellFormed_field {t : TypeDefinition} (ht : t ∈ d.definitions) {f : FieldDefinition}
    (hf : f ∈ t.fields) : f.isWellFormed = true := by
  have values : ∀ v ∈ f.values, v ∈ t.values := fun v hv =>
    List.mem_append_right _ (List.mem_flatMap.2 ⟨f, hf, hv⟩)
  refine FieldDefinition.isWellFormed_iff.2 ⟨h.names f.name (.field ht hf), fun a ha => ?_,
    h.isWellFormed_type ht hf List.mem_cons_self, fun e he => ?_⟩
  · refine ArgumentDefinition.isWellFormed_iff.2 ⟨h.names a.name (.argument ht hf ha),
      h.isWellFormed_type ht hf (List.mem_cons_of_mem _ (List.mem_map_of_mem ha)), fun v hv => ?_⟩
    exact h.isWellFormed_value ht (values v
      (List.mem_append_left _ (List.mem_flatMap.2 ⟨a, ha, Option.mem_toList.2 hv⟩)))
  · refine h.isWellFormed_directive ht ?_ fun v hv =>
      values v (List.mem_append_right _ (List.mem_flatMap.2 ⟨e, he, hv⟩))
    exact List.mem_flatMap.2
      ⟨t, ht, List.mem_append_right _ (List.mem_flatMap.2 ⟨f, hf, he⟩)⟩

theorem isWellFormed_definition {t : TypeDefinition} (ht : t ∈ d.definitions) :
    t.isWellFormed = true :=
  TypeDefinition.isWellFormed_iff.2 ⟨h.names t.name (.type ht),
    fun n hn => h.names n (.interface ht hn),
    fun e he => h.isWellFormed_directive ht
      (List.mem_flatMap.2 ⟨t, ht, List.mem_append_left _ he⟩)
      fun _ hv => List.mem_append_left _ (List.mem_flatMap.2 ⟨e, he, hv⟩),
    fun _ hf => h.isWellFormed_field ht hf, fun n hn => h.names n (.member ht hn),
    TypeDefinition.fitsKind_iff_kinds.2 ⟨h.fields t ht, h.members t ht⟩⟩

end IsStructured

/-- **The structured documents are those that are found well-formed.** -/
theorem isStructured_iff : d.IsStructured ↔ d.isWellFormed = true := by
  rw [isWellFormed_iff_forall]
  refine ⟨fun h t ht => h.isWellFormed_definition ht, fun h => ?_⟩
  have fits (t : TypeDefinition) (ht : t ∈ d.definitions) :=
    TypeDefinition.fitsKind_iff_kinds.1 (TypeDefinition.isWellFormed_iff.1 (h t ht)).2.2.2.2.2
  exact {
    names   := fun n hn => isName_of_mentions h hn
    words   := fun n hn =>
      (Value.isWellFormed_enumeral_iff.1 (isWellFormed_of_hasValue h hn)).2
    wholes  := fun n hn => Number.fitsWord_iff.1 (isWellFormed_of_hasValue h hn)
    nulls   := fun r hr => absurd (isWellFormed_of_hasType h hr) Bool.false_ne_true
    fields  := fun t ht => (fits t ht).1
    members := fun t ht => (fits t ht).2 }

end Document

end ApiCompiler
