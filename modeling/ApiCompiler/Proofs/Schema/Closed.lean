import ApiCompiler.Proofs.Schema.Growth

/-!
# Schema — documents that name what they define

A document refers to types by name: as the type of a field or of an argument, as an interface, as
the member of a union. It is closed where each of these names has a base definition or is that of a
scalar which every schema has.

* `References`, `IsClosed`: the names that a document refers to, and where each of them is defined.
* `References.of_modifyType`, `References.of_ensureObject`: a change of a definition refers to
  nothing more than it brings.
-/

namespace ApiCompiler

/-- The names that a field refers to. -/
def FieldDefinition.references (f : FieldDefinition) : List String :=
  f.type.baseName :: f.arguments.map (·.type.baseName)

/-- The names that a definition refers to. The members of an enumeration are not types. -/
def TypeDefinition.references (t : TypeDefinition) : List String :=
  t.implements ++ t.fields.flatMap (·.references) ++ if t.kind = .union then t.members else []

namespace Document

variable {d d' : Document} {type name : String}

/-- Some definition refers to a name. -/
def References (d : Document) (name : String) : Prop := ∃ t ∈ d.definitions, name ∈ t.references

/-- Whether a name is that of a scalar which every schema has. -/
def isBuiltin (name : String) : Bool :=
  ["Int", "Float", "String", "Boolean", "ID"].contains name
    || "AWS".toList.isPrefixOf name.toList

/-- A name is that of a scalar which every schema has, or has a base definition. -/
def Resolves (d : Document) (name : String) : Prop := isBuiltin name = true ∨ d.IsTyped name

/-- Each name that is referred to is defined. -/
def IsClosed (d : Document) : Prop := ∀ name, d.References name → d.Resolves name

instance (d : Document) (name : String) : Decidable (d.IsTyped name) :=
  inferInstanceAs (Decidable (∃ t ∈ d.definitions, isBase name t = true))

instance (d : Document) (name : String) : Decidable (d.References name) :=
  inferInstanceAs (Decidable (∃ t ∈ d.definitions, name ∈ t.references))

instance (d : Document) (name : String) : Decidable (d.Resolves name) :=
  inferInstanceAs (Decidable (_ ∨ _))

theorem isClosed_iff : d.IsClosed ↔ ∀ t ∈ d.definitions, ∀ name ∈ t.references, d.Resolves name :=
  ⟨fun h t ht name hn => h name ⟨t, ht, hn⟩, fun h name ⟨t, ht, hn⟩ => h t ht name hn⟩

instance (d : Document) : Decidable d.IsClosed := decidable_of_iff _ isClosed_iff.symm

theorem Resolves.mono (h : d.Resolves name) (hd : d.GrownTo d') : d'.Resolves name :=
  h.imp_right fun ht => ht.mono hd

theorem references_of_mem {t : TypeDefinition} {f : FieldDefinition} (ht : t ∈ d.definitions)
    (hf : f ∈ t.fields) (hn : name ∈ f.references) : d.References name := by
  refine ⟨t, ht, ?_⟩
  rw [TypeDefinition.references, List.append_assoc, List.mem_append, List.mem_append]
  exact .inr (.inl (List.mem_flatMap.2 ⟨f, hf, hn⟩))

/-! ### Changes -/

/-- A definition that is changed refers to what it referred to, and to what the change brings. -/
theorem References.of_modifyType {f : TypeDefinition → TypeDefinition} {new : List String}
    (hf : ∀ t : TypeDefinition, ∀ n ∈ (f t).references, n ∈ t.references ∨ n ∈ new)
    (h : (d.modifyType type f).References name) : d.References name ∨ name ∈ new := by
  obtain ⟨t, ht, hn⟩ := h
  rcases mem_modifyFirst ht with ht | ⟨u, hu, -, rfl⟩
  · exact .inl ⟨t, ht, hn⟩
  · exact (hf u name hn).imp_left fun hn => ⟨u, hu, hn⟩

/-- An object type that is made refers to nothing. -/
theorem References.of_ensureObject (h : (d.ensureObject type).References name) :
    d.References name := by
  rw [ensureObject] at h
  split at h
  · exact h
  · obtain ⟨t, ht, hn⟩ := h
    rcases List.mem_append.1 ht with ht | ht
    · exact ⟨t, ht, hn⟩
    · rw [List.mem_singleton.1 ht] at hn
      cases hn

end Document

namespace TypeDefinition

variable {t : TypeDefinition} {name : String}

theorem references_ensureField {f : FieldDefinition} (h : name ∈ (t.ensureField f).references) :
    name ∈ t.references ∨ name ∈ f.references := by
  rw [ensureField] at h
  split at h
  · exact .inl h
  · simp only [references, List.flatMap_append, List.flatMap_cons, List.flatMap_nil,
      List.append_nil, List.mem_append] at h ⊢
    tauto

theorem references_retype {field : String} {type : TypeRef}
    (h : name ∈ (t.modifyField field fun f => { f with type }).references) :
    name ∈ t.references ∨ name = type.baseName := by
  simp only [references, modifyField, List.mem_append, List.mem_flatMap] at h ⊢
  rcases h with (h | ⟨f, hf, hn⟩) | h
  · exact .inl (.inl (.inl h))
  · rcases mem_modifyFirst hf with hf | ⟨g, hg, -, rfl⟩
    · exact .inl (.inl (.inr ⟨f, hf, hn⟩))
    · rcases List.mem_cons.1 hn with rfl | hn
      · exact .inr rfl
      · exact .inl (.inl (.inr ⟨g, hg, List.mem_cons_of_mem _ hn⟩))
  · exact .inl (.inr h)

end TypeDefinition

end ApiCompiler
