import ApiCompiler.Proofs.Schema.Closed
import ApiCompiler.Proofs.Schema.Tokens
import ApiCompiler.Text.Plural

/-!
# Schema — documents that grow and stay well-formed

What is added to a document has to be spelled with names, and has to go where its kind has room for
it. The first is a matter of what is added; the second is one of where it is added, and is kept
apart (`isWellFormed_iff`).

* `isName_append`, `isName_capitalize`, `isName_plural`: names that are made of names.
* `Document.isName_of_references`: a document that is spelled with names refers to names.
* `isSpelled_modifyType`, `isReadable_modifyType`: what a change of a definition keeps, the document
  keeps.
-/

namespace ApiCompiler

/-! ### Names that are made of names -/

namespace Schema

variable {n m : String}

theorem isNameChar_of_isNameStart {c : Char} (h : isNameStart c = true) : isNameChar c = true := by
  rw [isNameStart, Bool.or_eq_true] at h
  rw [isNameChar, Char.isAlphanum, Bool.or_eq_true, Bool.or_eq_true]
  exact h.imp_left .inl

theorem isName_ofList (c : Char) (w : List Char) :
    isName (String.ofList (c :: w)) = (isNameStart c && w.all isNameChar) := by
  rw [isName, String.toList_ofList]

theorem isNameChar_of_isName (h : isName n = true) : ∀ c ∈ n.toList, isNameChar c = true := by
  obtain ⟨c, w, hn, hc, hw⟩ := isName_toList h
  rw [hn]
  exact List.forall_mem_cons.2 ⟨isNameChar_of_isNameStart hc, hw⟩

theorem not_mem_of_isName (h : isName n = true) : '.' ∉ n.toList := fun hm =>
  absurd (isNameChar_of_isName h _ hm) (by decide)

/-- A name goes on with any characters that may be part of one. -/
theorem isName_append_of_forall (h : isName n = true) (hm : ∀ c ∈ m.toList, isNameChar c = true) :
    isName (n ++ m) = true := by
  obtain ⟨c, w, hn, hc, hw⟩ := isName_toList h
  rw [isName, String.toList_append, hn, List.cons_append, Bool.and_eq_true, List.all_eq_true]
  exact ⟨hc, List.forall_mem_append.2 ⟨hw, hm⟩⟩

theorem isName_append (h : isName n = true) (hm : isName m = true) : isName (n ++ m) = true :=
  isName_append_of_forall h (isNameChar_of_isName hm)

/-- The letter case of a character that may start a name is another such character. -/
theorem isNameStart_case {c : Char} (h : isNameStart c = true) :
    c.toNat < 0x80 ∧ isNameStart c.toUpper = true ∧ isNameStart c.toLower = true := by
  have hsmall : c.toNat < 0x80 := by
    delta isNameStart Char.isAlpha Char.isUpper Char.isLower at h
    simp only [Bool.or_eq_true, Bool.and_eq_true, decide_eq_true_eq] at h
    rcases h with (h | h) | h
    · exact Nat.lt_of_le_of_lt (UInt32.le_iff_toNat_le.1 h.2) (by decide)
    · exact Nat.lt_of_le_of_lt (UInt32.le_iff_toNat_le.1 h.2) (by decide)
    · rw [h]
      decide
  have all : ∀ k < 0x80, isNameStart (Char.ofNat k) = true →
      isNameStart (Char.ofNat k).toUpper = true ∧ isNameStart (Char.ofNat k).toLower = true := by
    decide
  have hc := all c.toNat hsmall
  rw [Char.ofNat_toNat] at hc
  exact ⟨hsmall, hc h⟩

theorem isName_capitalize (h : isName n = true) : isName (Text.capitalize n) = true := by
  obtain ⟨c, w, hn, hc, hw⟩ := isName_toList h
  obtain ⟨hsmall, hupper, -⟩ := isNameStart_case hc
  rw [Text.capitalize, hn]
  show isName (String.ofList (Text.upperChar c ++ w)) = true
  rw [Text.upperChar, if_pos hsmall, List.singleton_append, isName_ofList, hupper,
    List.all_eq_true.2 hw, Bool.and_self]

theorem isName_lowerFirst (h : isName n = true) : isName (Text.lowerFirst n) = true := by
  obtain ⟨c, w, hn, hc, hw⟩ := isName_toList h
  obtain ⟨hsmall, -, hlower⟩ := isNameStart_case hc
  rw [Text.lowerFirst, hn]
  show isName (String.ofList (Text.lowerChar c ++ w)) = true
  rw [Text.lowerChar, if_pos hsmall, List.singleton_append, isName_ofList, hlower,
    List.all_eq_true.2 hw, Bool.and_self]

theorem isName_plural (h : isName n = true) : isName (Text.plural n) = true := by
  obtain ⟨c, w, hn, hc, hw⟩ := isName_toList h
  rw [Text.plural]
  split
  · cases w with
    | nil =>
      rw [hn]
      exact (by decide : isName (String.ofList [] ++ "ies") = true)
    | cons d w =>
      have hstem : isName (String.ofList (c :: (d :: w).dropLast)) = true := by
        have rest := List.all_eq_true.2 fun e he => hw e ((List.dropLast_sublist _).subset he)
        rw [isName_ofList, hc, rest, Bool.and_self]
      rw [hn, List.dropLast_cons_cons]
      exact isName_append hstem (by decide)
  · split <;> exact isName_append h (by decide)

end Schema

/-! ### Documents that are spelled with names -/

/-- A reference that is spelled with names comes down to one. -/
theorem TypeRef.isName_baseName {t : TypeRef} (h : t.isWellFormed = true) :
    Schema.isName t.baseName = true := by
  induction t with
  | named n => exact h
  | list t ih => exact ih h
  | nonNull t ih =>
    rw [isWellFormed, Bool.and_eq_true] at h
    exact ih h.2

namespace TypeDefinition

/-- Whether a definition is spelled with names, whatever parts it has. -/
def isSpelled (t : TypeDefinition) : Bool :=
  Schema.isName t.name && t.implements.all Schema.isName && t.directives.all (·.isWellFormed)
    && t.fields.all (·.isWellFormed) && t.members.all Schema.isName

variable {t : TypeDefinition} {f : FieldDefinition}

theorem isSpelled_iff : t.isSpelled = true ↔
    Schema.isName t.name = true ∧ (∀ n ∈ t.implements, Schema.isName n = true)
      ∧ (∀ d ∈ t.directives, d.isWellFormed = true) ∧ (∀ f ∈ t.fields, f.isWellFormed = true)
      ∧ ∀ n ∈ t.members, Schema.isName n = true := by
  simp only [isSpelled, Bool.and_eq_true, List.all_eq_true, and_assoc]

theorem isSpelled_ensureField (ht : t.isSpelled = true) (hf : f.isWellFormed = true) :
    (t.ensureField f).isSpelled = true := by
  unfold ensureField
  split
  · exact ht
  · simp only [isSpelled, Bool.and_eq_true] at ht ⊢
    refine ⟨⟨ht.1.1, ?_⟩, ht.2⟩
    rw [List.all_append, ht.1.2, List.all_cons, hf]
    rfl

theorem isSpelled_addDirective (ht : t.isSpelled = true) {d : Directive}
    (hd : d.isWellFormed = true) : (t.addDirective d).isSpelled = true := by
  simp only [addDirective, isSpelled, Bool.and_eq_true] at ht ⊢
  refine ⟨⟨⟨ht.1.1.1, ?_⟩, ht.1.2⟩, ht.2⟩
  rw [List.all_append, ht.1.1.2, List.all_cons, hd]
  rfl

theorem isSpelled_retype (ht : t.isSpelled = true) (field : String) {type : TypeRef}
    (h : type.isWellFormed = true) :
    (t.modifyField field fun f => { f with type }).isSpelled = true := by
  simp only [modifyField, isSpelled, Bool.and_eq_true, List.all_eq_true] at ht ⊢
  refine ⟨⟨ht.1.1, fun g hg => ?_⟩, ht.2⟩
  rcases mem_modifyFirst hg with hg | ⟨f, hf, -, rfl⟩
  · exact ht.1.2 g hg
  · have hold := ht.1.2 f hf
    rw [FieldDefinition.isWellFormed_iff] at hold ⊢
    exact ⟨hold.1, hold.2.1, h, hold.2.2.2⟩

theorem isReadable_ensureField (t : TypeDefinition) (hf : f.isReadable = true) :
    (t.ensureField f).isReadable = t.isReadable := by
  unfold ensureField
  split
  · rfl
  · simp only [isReadable, List.all_append, List.all_cons, List.all_nil, hf, Bool.and_true]

theorem isReadable_addDirective (t : TypeDefinition) {d : Directive} (hd : d.isReadable = true) :
    (t.addDirective d).isReadable = t.isReadable := by
  simp only [addDirective, isReadable, List.all_append, List.all_cons, List.all_nil, hd,
    Bool.and_true]

end TypeDefinition

theorem all_modifyFirst {α : Type} {q : α → Bool} {f : α → α} (hf : ∀ a, q (f a) = q a)
    (p : α → Bool) (as : List α) : (modifyFirst p f as).all q = as.all q := by
  induction as with
  | nil => rfl
  | cons a as ih =>
    rw [modifyFirst]
    split
    · rw [List.all_cons, hf, List.all_cons]
    · rw [List.all_cons, ih, List.all_cons]

theorem TypeDefinition.isReadable_retype (t : TypeDefinition) (field : String) (type : TypeRef) :
    (t.modifyField field fun f => { f with type }).isReadable = t.isReadable := by
  have same := all_modifyFirst (q := FieldDefinition.isReadable)
    (f := fun f : FieldDefinition => { f with type }) (fun _ => rfl) (·.name == field) t.fields
  simp only [modifyField, isReadable, same]

namespace Document

/-- Whether a document is spelled with names. -/
def isSpelled (d : Document) : Bool := d.definitions.all (·.isSpelled)

variable {d : Document} {type name field : String} {f : TypeDefinition → TypeDefinition}

/-- A document is well-formed where it is spelled with names and each definition has only the parts
of its kind. -/
theorem isWellFormed_iff :
    d.isWellFormed = true ↔ d.isSpelled = true ∧ ∀ t ∈ d.definitions, t.fitsKind = true := by
  simp only [isWellFormed, isSpelled, TypeDefinition.isWellFormed, TypeDefinition.isSpelled,
    List.all_eq_true, Bool.and_eq_true]
  exact ⟨fun h => ⟨fun t ht => (h t ht).1, fun t ht => (h t ht).2⟩,
    fun h t ht => ⟨h.1 t ht, h.2 t ht⟩⟩

theorem isSpelled_of_mem (h : d.isSpelled = true) {t : TypeDefinition} (ht : t ∈ d.definitions) :
    t.isSpelled = true :=
  List.all_eq_true.1 h t ht

theorem isName_of_mem (h : d.isSpelled = true) {t : TypeDefinition} (ht : t ∈ d.definitions) :
    Schema.isName t.name = true :=
  (TypeDefinition.isSpelled_iff.1 (isSpelled_of_mem h ht)).1

theorem isName_of_isTyped (h : d.isSpelled = true) (hd : d.IsTyped name) :
    Schema.isName name = true := by
  obtain ⟨t, ht, hbase⟩ := hd
  rw [isBase, Bool.and_eq_true, beq_iff_eq] at hbase
  exact hbase.1 ▸ isName_of_mem h ht

theorem isName_of_declares (h : d.isSpelled = true) (hd : d.Declares type field) :
    Schema.isName type = true ∧ Schema.isName field = true := by
  obtain ⟨t, ht, rfl, f, hf, rfl⟩ := hd
  obtain ⟨hname, -, -, hfields, -⟩ := TypeDefinition.isSpelled_iff.1 (isSpelled_of_mem h ht)
  exact ⟨hname, (FieldDefinition.isWellFormed_iff.1 (hfields f hf)).1⟩

/-- What is referred to is a name. -/
theorem isName_of_references (h : d.isSpelled = true) (hd : d.References name) :
    Schema.isName name = true := by
  obtain ⟨t, ht, hn⟩ := hd
  obtain ⟨-, himplements, -, hfields, hmembers⟩ :=
    TypeDefinition.isSpelled_iff.1 (isSpelled_of_mem h ht)
  rw [TypeDefinition.references, List.append_assoc, List.mem_append, List.mem_append] at hn
  rcases hn with hn | hn | hn
  · exact himplements name hn
  · obtain ⟨f, hf, hn⟩ := List.mem_flatMap.1 hn
    obtain ⟨-, harguments, htype, -⟩ := FieldDefinition.isWellFormed_iff.1 (hfields f hf)
    rcases List.mem_cons.1 hn with rfl | hn
    · exact TypeRef.isName_baseName htype
    · obtain ⟨a, ha, rfl⟩ := List.mem_map.1 hn
      exact TypeRef.isName_baseName (ArgumentDefinition.isWellFormed_iff.1 (harguments a ha)).2.1
  · split at hn
    · exact hmembers name hn
    · cases hn

/-! ### Changes -/

theorem isSpelled_modifyType (h : d.isSpelled = true)
    (hf : ∀ t : TypeDefinition, t.isSpelled = true → (f t).isSpelled = true) (type : String) :
    (d.modifyType type f).isSpelled = true := by
  rw [isSpelled, List.all_eq_true] at h ⊢
  intro t ht
  rcases mem_modifyFirst ht with ht | ⟨u, hu, -, rfl⟩
  · exact h t ht
  · exact hf u (h u hu)

theorem isSpelled_ensureObject (h : d.isSpelled = true) (hn : Schema.isName name = true) :
    (d.ensureObject name).isSpelled = true := by
  unfold ensureObject
  split
  · exact h
  · have object : TypeDefinition.isSpelled { kind := .object, name } = true := by
      simp only [TypeDefinition.isSpelled, hn, List.all_nil, Bool.and_self]
    rw [isSpelled] at h ⊢
    rw [List.all_append, h, List.all_cons, object]
    rfl

theorem isReadable_modifyType (hf : ∀ t : TypeDefinition, (f t).isReadable = t.isReadable)
    (d : Document) (type : String) : (d.modifyType type f).isReadable = d.isReadable :=
  all_modifyFirst hf _ _

theorem isReadable_ensureObject (d : Document) (name : String) :
    (d.ensureObject name).isReadable = d.isReadable := by
  unfold ensureObject
  split
  · rfl
  · rw [isReadable, List.all_append]
    exact Bool.and_true _

end Document

end ApiCompiler
