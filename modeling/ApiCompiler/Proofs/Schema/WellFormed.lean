import ApiCompiler.Number.Decimal
import ApiCompiler.Schema.Lexical
import ApiCompiler.Text.Quoted

/-!
# Schema — well-formed, printable and readable documents

A document is *well-formed* when its names are names, its whole numbers fit 64 bits, no enum value
reads as another value, null is excluded once at most, and each definition has only the parts of
its kind. It is *printable* when moreover its text says all there is to it: no value is a float, a
text value holds no character that is written by its number, and a union has a member. It is
*readable* when just those of its floats are excluded whose text is not that of the float.

* `Value.isWellFormedItems_eq`, `Value.isPrintableFields_eq`, `Value.isReadableItems_eq`: a list of
  values is well-formed, printable or readable when each of them is.
* `Directive.isWellFormed_iff`, `FieldDefinition.isWellFormed_iff`,
  `TypeDefinition.isWellFormed_iff`: what is well-formed, by its parts.
-/

namespace ApiCompiler

/-- Whether `c` is written as it is, or by an escape that texts of a schema have. -/
def Text.isWritable (c : Char) : Bool :=
  c = '"' || c = '\\' || c = '\n' || c = '\t' || Text.escapeChar c == [c]

/-- Whether the text of a float is that of the float; a float without a fraction has the text of a
whole number. -/
def Binary64.isReadable (x : Binary64) : Bool :=
  Schema.number x.toText.toList == some (.float x, [])

namespace Value

/-- The words that name no enum value. -/
def reservedWords : List String := ["true", "false", "null"]

mutual

/-- Whether a value is well-formed. -/
def isWellFormed : Value → Bool
  | null | boolean _ | float _ | string _ => true
  | int n         => Number.fitsWord n
  | enumeral s    => Schema.isName s && !reservedWords.contains s
  | list items    => isWellFormedItems items
  | object fields => isWellFormedFields fields

/-- Whether the items of a list are well-formed. -/
def isWellFormedItems : List Value → Bool
  | []      => true
  | v :: vs => v.isWellFormed && isWellFormedItems vs

/-- Whether the names and the values of fields are well-formed. -/
def isWellFormedFields : List (String × Value) → Bool
  | []             => true
  | (k, v) :: rest => Schema.isName k && v.isWellFormed && isWellFormedFields rest

end

mutual

/-- Whether the text of a value says all there is to it. -/
def isPrintable : Value → Bool
  | null | boolean _ | int _ | enumeral _ => true
  | float _       => false
  | string s      => s.toList.all Text.isWritable
  | list items    => isPrintableItems items
  | object fields => isPrintableFields fields

/-- Whether the items of a list are printable. -/
def isPrintableItems : List Value → Bool
  | []      => true
  | v :: vs => v.isPrintable && isPrintableItems vs

/-- Whether the values of fields are printable. -/
def isPrintableFields : List (String × Value) → Bool
  | []             => true
  | (_, v) :: rest => v.isPrintable && isPrintableFields rest

end

mutual

/-- Whether the text of a value is that of no other value. -/
def isReadable : Value → Bool
  | null | boolean _ | int _ | enumeral _ => true
  | float x       => x.isReadable
  | string s      => s.toList.all Text.isWritable
  | list items    => isReadableItems items
  | object fields => isReadableFields fields

/-- Whether the items of a list are readable. -/
def isReadableItems : List Value → Bool
  | []      => true
  | v :: vs => v.isReadable && isReadableItems vs

/-- Whether the values of fields are readable. -/
def isReadableFields : List (String × Value) → Bool
  | []             => true
  | (_, v) :: rest => v.isReadable && isReadableFields rest

end

theorem isWellFormedItems_eq (vs : List Value) : isWellFormedItems vs = vs.all isWellFormed := by
  induction vs with
  | nil => rfl
  | cons v vs ih => rw [isWellFormedItems, ih, List.all_cons]

theorem isWellFormedFields_eq (fields : List (String × Value)) :
    isWellFormedFields fields = fields.all fun p => Schema.isName p.1 && p.2.isWellFormed := by
  induction fields with
  | nil => rfl
  | cons p rest ih => rw [isWellFormedFields, ih, List.all_cons]

theorem isWellFormed_enumeral_iff {n : String} : (enumeral n).isWellFormed = true
    ↔ Schema.isName n = true ∧ n ≠ "true" ∧ n ≠ "false" ∧ n ≠ "null" := by
  simp [isWellFormed, reservedWords]

theorem isWellFormed_list_iff {vs : List Value} :
    (list vs).isWellFormed = true ↔ ∀ v ∈ vs, v.isWellFormed = true := by
  rw [isWellFormed, isWellFormedItems_eq, List.all_eq_true]

theorem isWellFormed_object_iff {fields : List (String × Value)} :
    (object fields).isWellFormed = true
      ↔ ∀ q ∈ fields, Schema.isName q.1 = true ∧ q.2.isWellFormed = true := by
  simp only [isWellFormed, isWellFormedFields_eq, List.all_eq_true, Bool.and_eq_true]

theorem isPrintableItems_eq (vs : List Value) : isPrintableItems vs = vs.all isPrintable := by
  induction vs with
  | nil => rfl
  | cons v vs ih => rw [isPrintableItems, ih, List.all_cons]

theorem isPrintableFields_eq (fields : List (String × Value)) :
    isPrintableFields fields = fields.all fun p => p.2.isPrintable := by
  induction fields with
  | nil => rfl
  | cons p rest ih => rw [isPrintableFields, ih, List.all_cons]

theorem isReadableItems_eq (vs : List Value) : isReadableItems vs = vs.all isReadable := by
  induction vs with
  | nil => rfl
  | cons v vs ih => rw [isReadableItems, ih, List.all_cons]

theorem isReadableFields_eq (fields : List (String × Value)) :
    isReadableFields fields = fields.all fun p => p.2.isReadable := by
  induction fields with
  | nil => rfl
  | cons p rest ih => rw [isReadableFields, ih, List.all_cons]

end Value

/-- Whether a reference to a type is well-formed. -/
def TypeRef.isWellFormed : TypeRef → Bool
  | named name    => Schema.isName name
  | list inner    => inner.isWellFormed
  | nonNull inner => !inner.isNonNull && inner.isWellFormed

namespace Directive

/-- Whether a directive is well-formed. -/
def isWellFormed (d : Directive) : Bool :=
  Schema.isName d.name && Value.isWellFormedFields d.arguments

/-- Whether the arguments of a directive are printable. -/
def isPrintable (d : Directive) : Bool := Value.isPrintableFields d.arguments

/-- Whether the arguments of a directive are readable. -/
def isReadable (d : Directive) : Bool := Value.isReadableFields d.arguments

theorem isWellFormed_iff {d : Directive} : d.isWellFormed = true ↔
    Schema.isName d.name = true
      ∧ ∀ q ∈ d.arguments, Schema.isName q.1 = true ∧ q.2.isWellFormed = true := by
  simp only [isWellFormed, Value.isWellFormedFields_eq, Bool.and_eq_true, List.all_eq_true]

end Directive

namespace ArgumentDefinition

/-- Whether an argument of a field is well-formed. -/
def isWellFormed (a : ArgumentDefinition) : Bool :=
  Schema.isName a.name && a.type.isWellFormed && a.default.all Value.isWellFormed

/-- Whether the default value of an argument, where it has one, is printable. -/
def isPrintable (a : ArgumentDefinition) : Bool := a.default.all Value.isPrintable

/-- Whether the default value of an argument, where it has one, is readable. -/
def isReadable (a : ArgumentDefinition) : Bool := a.default.all Value.isReadable

theorem isWellFormed_iff {a : ArgumentDefinition} : a.isWellFormed = true ↔
    Schema.isName a.name = true ∧ a.type.isWellFormed = true
      ∧ ∀ v ∈ a.default, v.isWellFormed = true := by
  simp only [isWellFormed, Bool.and_eq_true, Option.all_eq_true, Option.mem_def, and_assoc]

end ArgumentDefinition

namespace FieldDefinition

/-- Whether a field is well-formed. -/
def isWellFormed (f : FieldDefinition) : Bool :=
  Schema.isName f.name && f.arguments.all (·.isWellFormed) && f.type.isWellFormed
    && f.directives.all (·.isWellFormed)

/-- Whether all values in a field are printable. -/
def isPrintable (f : FieldDefinition) : Bool :=
  f.arguments.all (·.isPrintable) && f.directives.all (·.isPrintable)

/-- Whether all values in a field are readable. -/
def isReadable (f : FieldDefinition) : Bool :=
  f.arguments.all (·.isReadable) && f.directives.all (·.isReadable)

theorem isWellFormed_iff {f : FieldDefinition} : f.isWellFormed = true ↔
    Schema.isName f.name = true ∧ (∀ a ∈ f.arguments, a.isWellFormed = true)
      ∧ f.type.isWellFormed = true ∧ ∀ d ∈ f.directives, d.isWellFormed = true := by
  simp only [isWellFormed, Bool.and_eq_true, List.all_eq_true, and_assoc]

end FieldDefinition

namespace TypeKind

/-- Whether types of a kind have fields, and may implement interfaces. -/
def hasFields : TypeKind → Bool
  | object | input | interface    => true
  | enumeration | union | scalar => false

/-- Whether types of a kind have members. -/
def hasMembers : TypeKind → Bool
  | enumeration | union                   => true
  | object | input | interface | scalar => false

end TypeKind

namespace TypeDefinition

/-- Whether a definition has only the parts of its kind. -/
def fitsKind (t : TypeDefinition) : Bool :=
  (t.kind.hasFields || t.fields.isEmpty && t.implements.isEmpty)
    && (t.kind.hasMembers || t.members.isEmpty)

/-- Whether a definition is well-formed. -/
def isWellFormed (t : TypeDefinition) : Bool :=
  Schema.isName t.name && t.implements.all Schema.isName && t.directives.all (·.isWellFormed)
    && t.fields.all (·.isWellFormed) && t.members.all Schema.isName && t.fitsKind

/-- Whether the text of a definition says all there is to it. -/
def isPrintable (t : TypeDefinition) : Bool :=
  t.directives.all (·.isPrintable) && t.fields.all (·.isPrintable)
    && (t.kind != .union || !t.members.isEmpty)

/-- Whether the text of a definition is that of no other one. -/
def isReadable (t : TypeDefinition) : Bool :=
  t.directives.all (·.isReadable) && t.fields.all (·.isReadable)
    && (t.kind != .union || !t.members.isEmpty)

theorem fitsKind_iff {t : TypeDefinition} : t.fitsKind = true ↔
    (t.kind.hasFields = false → t.fields = [] ∧ t.implements = [])
      ∧ (t.kind.hasMembers = false → t.members = []) := by
  simp only [fitsKind, Bool.and_eq_true, Bool.or_eq_true, List.isEmpty_iff, Bool.eq_false_iff,
    ne_eq, Decidable.or_iff_not_imp_left]

theorem isWellFormed_iff {t : TypeDefinition} : t.isWellFormed = true ↔
    Schema.isName t.name = true ∧ (∀ n ∈ t.implements, Schema.isName n = true)
      ∧ (∀ d ∈ t.directives, d.isWellFormed = true) ∧ (∀ f ∈ t.fields, f.isWellFormed = true)
      ∧ (∀ n ∈ t.members, Schema.isName n = true) ∧ t.fitsKind = true := by
  simp only [isWellFormed, Bool.and_eq_true, List.all_eq_true, and_assoc]

end TypeDefinition

namespace Document

/-- Whether every definition of a document is well-formed. -/
def isWellFormed (d : Document) : Bool := d.definitions.all (·.isWellFormed)

/-- Whether every definition of a document is printable. -/
def isPrintable (d : Document) : Bool := d.definitions.all (·.isPrintable)

/-- Whether every definition of a document is readable. -/
def isReadable (d : Document) : Bool := d.definitions.all (·.isReadable)

theorem isWellFormed_iff_forall {d : Document} :
    d.isWellFormed = true ↔ ∀ t ∈ d.definitions, t.isWellFormed = true := by
  rw [isWellFormed, List.all_eq_true]

end Document

end ApiCompiler
