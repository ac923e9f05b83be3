import ApiCompiler.Proofs.Schema.Growth

/-!
# Schema — the ends of relations

A relation between many records has its fields as ends. Changes of a schema leave the ends of each
relation in their order. They may take the list type of an end from it, but make no list of another
type.

* `Document.ends`: the fields whose relation is joined by a type.
* `Document.Settles`: what such changes leave of fields that carry directives.
* `Settles.fieldsWith`: these fields correspond one by one.
-/

namespace ApiCompiler

/-- The type that joins the ends of the relation which a field names, if it is an end of one. -/
def FieldDefinition.join? (f : FieldDefinition) : Option String :=
  ((f.directive? "manyToMany").bind fun d =>
    (d.argument? "relationName").bind Value.asString?).map Text.capitalize

/-- The ends of the relation that a type joins, each with the definition it stands in. -/
def Document.ends (d : Document) (join : String) : List (TypeDefinition × FieldDefinition) :=
  (d.fieldsWith "manyToMany").filter fun p => p.2.join? == some join

/-- A field that keeps its name and its directives, and its type too if it is of a list then. -/
structure FieldDefinition.Settles (f f' : FieldDefinition) : Prop where
  name       : f'.name = f.name
  directives : f'.directives = f.directives
  type       : f'.type.isList = true → f'.type = f.type

/-- A definition whose fields may have settled, behind which there are none with directives. -/
structure TypeDefinition.Settles (t t' : TypeDefinition) : Prop where
  name   : t'.name = t.name
  fields : GrownBy FieldDefinition.Settles (fun f => f.directives = []) t.fields t'.fields

/-- A document whose definitions may have settled, behind which there are none with directives on
fields. -/
def Document.Settles (d d' : Document) : Prop :=
  GrownBy TypeDefinition.Settles (fun t => ∀ f ∈ t.fields, f.directives = []) d.definitions
    d'.definitions

theorem FieldDefinition.Settles.refl (f : FieldDefinition) : f.Settles f := ⟨rfl, rfl, fun _ => rfl⟩

theorem FieldDefinition.Settles.trans {f g h : FieldDefinition} (hf : f.Settles g)
    (hg : g.Settles h) : f.Settles h where
  name := hg.name.trans hf.name
  directives := hg.directives.trans hf.directives
  type hl := by
    have ht := hg.type hl
    exact ht.trans (hf.type (ht ▸ hl))

theorem TypeDefinition.Settles.refl (t : TypeDefinition) : t.Settles t :=
  ⟨rfl, .refl .refl _⟩

theorem TypeDefinition.Settles.trans {t u v : TypeDefinition} (h : t.Settles u)
    (h' : u.Settles v) : t.Settles v where
  name := h'.name.trans h.name
  fields := h.fields.trans h'.fields (fun _ _ _ => .trans) fun _ _ hf hg => hg.directives.trans hf

namespace Document

variable {d d' d'' : Document}

theorem Settles.refl (d : Document) : d.Settles d := GrownBy.refl .refl _

theorem Settles.trans (h : d.Settles d') (h' : d'.Settles d'') : d.Settles d'' := by
  refine GrownBy.trans h h' (fun _ _ _ => .trans) fun t u ht hu f hf => ?_
  rcases hu.fields.exists_of_mem' hf with hnew | ⟨g, hg, hkept⟩
  · exact hnew
  · exact hkept.directives.trans (ht g hg)

theorem settles_ensureObject (d : Document) (name : String) : d.Settles (d.ensureObject name) := by
  unfold ensureObject
  split
  · exact .refl d
  · refine GrownBy.append .refl fun t ht => ?_
    rw [List.mem_singleton.1 ht]
    exact nofun

theorem settles_modifyType {type : String} {f : TypeDefinition → TypeDefinition}
    (h : ∀ t : TypeDefinition, t.Settles (f t)) : d.Settles (d.modifyType type f) :=
  GrownBy.modifyFirst .refl fun t _ _ => h t

/-- The fields that carry a directive correspond one by one. -/
theorem Settles.fieldsWith (h : d.Settles d') (directive : String) :
    List.Forall₂ (fun p p' => p'.1.name = p.1.name ∧ p.2.Settles p'.2)
      (d.fieldsWith directive) (d'.fieldsWith directive) := by
  have plain : ∀ {fs : List FieldDefinition}, (∀ f ∈ fs, f.directives = []) →
      fs.filter (·.hasDirective directive) = [] := fun hfs =>
    List.filter_eq_nil_iff.2 fun f hf => by
      rw [FieldDefinition.hasDirective, FieldDefinition.directive?, hfs f hf]
      exact Bool.false_ne_true
  obtain ⟨kept, added, he, hkept, hadded⟩ := h
  rw [Document.fieldsWith, Document.fieldsWith, he, List.flatMap_append]
  have none : (added.flatMap fun t =>
      (t.fields.filter (·.hasDirective directive)).map fun f => (t, f)) = [] :=
    List.flatMap_eq_nil_iff.2 fun t ht => by rw [plain (hadded t ht), List.map_nil]
  rw [none, List.append_nil]
  refine List.rel_flatMap hkept fun t t' ht => ?_
  obtain ⟨fs, gs, he, hfs, hgs⟩ := ht.fields
  rw [he, List.filter_append, plain hgs, List.append_nil]
  refine List.rel_map (fun f f' hf => ⟨ht.name, hf⟩) (List.rel_filter (fun f f' hf => ?_) hfs)
  have same : f'.hasDirective directive = f.hasDirective directive := by
    rw [FieldDefinition.hasDirective, FieldDefinition.directive?, hf.directives]
    rfl
  exact (Bool.eq_iff_iff.1 same).symm

/-- The ends of a relation correspond one by one. -/
theorem Settles.ends (h : d.Settles d') (join : String) :
    List.Forall₂ (fun p p' => p'.1.name = p.1.name ∧ p.2.Settles p'.2)
      (d.ends join) (d'.ends join) := by
  refine List.rel_filter (fun p p' hp => ?_) (h.fieldsWith "manyToMany")
  have same : p'.2.join? = p.2.join? := by
    rw [FieldDefinition.join?, FieldDefinition.directive?, hp.2.directives]
    rfl
  exact (Bool.eq_iff_iff.1 (congrArg (· == some join) same)).symm

end Document

namespace TypeDefinition

theorem settles_ensureField (t : TypeDefinition) {f : FieldDefinition} (hf : f.directives = []) :
    t.Settles (t.ensureField f) := by
  unfold ensureField
  split
  · exact .refl t
  · refine ⟨rfl, .append .refl fun g hg => ?_⟩
    rw [List.mem_singleton.1 hg, hf]

theorem settles_addDirective (t : TypeDefinition) (d : Directive) : t.Settles (t.addDirective d) :=
  ⟨rfl, .refl .refl _⟩

/-- A field that gets a type of no list settles. -/
theorem settles_retype (t : TypeDefinition) (field : String) {type : TypeRef}
    (h : type.isList = false) : t.Settles (t.modifyField field fun f => { f with type }) :=
  ⟨rfl, .modifyFirst .refl fun _ _ _ => ⟨rfl, rfl, fun hl => nomatch h.symm.trans hl⟩⟩

end TypeDefinition

/-! ### Definitions that grow -/

namespace Document

variable {d d' : Document}

/-- The base definition of a type stays the one that it is, and grows. -/
theorem GrownTo.getType? (h : d.GrownTo d') {type : String} {t : TypeDefinition}
    (ht : d.getType? type = some t) :
    ∃ t', d'.getType? type = some t' ∧ t.GrownTo d t' :=
  h.find? (fun _ _ hu => by rw [isBase, isBase, hu.name, hu.extends?]) ht

end Document

namespace TypeDefinition.GrownTo

variable {d : Document} {t t' : TypeDefinition}

theorem hasDirective (h : t.GrownTo d t') {name : String} (ht : t.hasDirective name = true) :
    t'.hasDirective name = true := by
  obtain ⟨i, hi⟩ := Option.isSome_iff_exists.1 ht
  exact Option.isSome_iff_exists.2 ⟨i, h.directive?_eq_some hi⟩

theorem isSome_field? (h : t.GrownTo d t') {name : String}
    (ht : (t.field? name).isSome = true) : (t'.field? name).isSome = true := by
  rw [isSome_field?_iff] at ht ⊢
  obtain ⟨f, hf, rfl⟩ := ht
  obtain ⟨f', hf', hkept⟩ := h.fields.exists_of_mem hf
  exact ⟨f', hf', hkept.name⟩

end TypeDefinition.GrownTo

end ApiCompiler
