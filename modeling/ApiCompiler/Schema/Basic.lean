import ApiCompiler.Json.Basic

/-!
# Schema — documents

A document is a list of type definitions. The fields of a type carry directives, as the type
itself does, and a directive carries arguments.

* `Document.getType?_ensureObject`: a type that was ensured is there.
* `TypeDefinition.field?_ensureField`: so is a field.
-/

namespace ApiCompiler

/-- A value in a schema. -/
inductive Value where
  | null
  | boolean (b : Bool)
  | int (n : Int)
  | float (x : Binary64)
  | string (s : String)
  | enumeral (name : String)
  | list (items : List Value)
  | object (fields : List (String × Value))
deriving Repr, Inhabited

namespace Value

mutual

/-- Decides whether two values are the same. -/
def decEq : (a b : Value) → Decidable (a = b)
  | null, null             => isTrue rfl
  | boolean a, boolean b   => decidable_of_iff (a = b) (by simp)
  | int a, int b           => decidable_of_iff (a = b) (by simp)
  | float a, float b       => decidable_of_iff (a = b) (by simp)
  | string a, string b     => decidable_of_iff (a = b) (by simp)
  | enumeral a, enumeral b => decidable_of_iff (a = b) (by simp)
  | list a, list b         =>
    match decEqItems a b with
    | isTrue h  => isTrue (h ▸ rfl)
    | isFalse h => isFalse fun e => h (Value.list.inj e)
  | object a, object b     =>
    match decEqFields a b with
    | isTrue h  => isTrue (h ▸ rfl)
    | isFalse h => isFalse fun e => h (Value.object.inj e)
  | null, boolean _ | null, int _ | null, float _ | null, string _ | null, enumeral _
  | null, list _ | null, object _
  | boolean _, null | boolean _, int _ | boolean _, float _ | boolean _, string _
  | boolean _, enumeral _ | boolean _, list _ | boolean _, object _
  | int _, null | int _, boolean _ | int _, float _ | int _, string _ | int _, enumeral _
  | int _, list _ | int _, object _
  | float _, null | float _, boolean _ | float _, int _ | float _, string _
  | float _, enumeral _ | float _, list _ | float _, object _
  | string _, null | string _, boolean _ | string _, int _ | string _, float _
  | string _, enumeral _ | string _, list _ | string _, object _
  | enumeral _, null | enumeral _, boolean _ | enumeral _, int _ | enumeral _, float _
  | enumeral _, string _ | enumeral _, list _ | enumeral _, object _
  | list _, null | list _, boolean _ | list _, int _ | list _, float _ | list _, string _
  | list _, enumeral _ | list _, object _
  | object _, null | object _, boolean _ | object _, int _ | object _, float _
  | object _, string _ | object _, enumeral _
  | object _, list _       => isFalse (by intro h; cases h)

/-- Decides whether two lists of values are the same. -/
def decEqItems : (a b : List Value) → Decidable (a = b)
  | [], []           => isTrue rfl
  | [], _ :: _       => isFalse (by intro h; cases h)
  | _ :: _, []       => isFalse (by intro h; cases h)
  | a :: as, b :: bs =>
    match decEq a b, decEqItems as bs with
    | isTrue h, isTrue h' => isTrue (by rw [h, h'])
    | isFalse h, _        => isFalse fun e => h (List.cons.inj e).1
    | _, isFalse h        => isFalse fun e => h (List.cons.inj e).2

/-- Decides whether two lists of fields are the same. -/
def decEqFields : (a b : List (String × Value)) → Decidable (a = b)
  | [], []                     => isTrue rfl
  | [], _ :: _                 => isFalse (by intro h; cases h)
  | _ :: _, []                 => isFalse (by intro h; cases h)
  | (k, a) :: as, (l, b) :: bs =>
    match String.decEq k l, decEq a b, decEqFields as bs with
    | isTrue hk, isTrue h, isTrue h' => isTrue (by rw [hk, h, h'])
    | isFalse h, _, _ => isFalse fun e => h (Prod.mk.inj (List.cons.inj e).1).1
    | _, isFalse h, _ => isFalse fun e => h (Prod.mk.inj (List.cons.inj e).1).2
    | _, _, isFalse h => isFalse fun e => h (List.cons.inj e).2

end

instance : DecidableEq Value := decEq

/-- The text of a string or the name of an enum value. -/
def asString? : Value → Option String
  | string s   => some s
  | enumeral s => some s
  | _          => none

/-- The items of a list. -/
def asList? : Value → Option (List Value)
  | list items => some items
  | _          => none

mutual

/-- The JSON form of a value; an enum value becomes the text of its name. -/
def toJson : Value → Json
  | null          => .null
  | boolean b     => .bool b
  | int n         => .int n
  | float x       => .ofFloat x
  | string s      => .str s
  | enumeral s    => .str s
  | list items    => .arr (toJsonItems items)
  | object fields => .mkObj (toJsonFields fields)

/-- The JSON forms of the items of a list. -/
def toJsonItems : List Value → List Json
  | []      => []
  | v :: vs => v.toJson :: toJsonItems vs

/-- The JSON forms of the fields of an object. -/
def toJsonFields : List (String × Value) → List (String × Json)
  | []             => []
  | (k, v) :: rest => (k, v.toJson) :: toJsonFields rest

end

/-- The texts among the items of a list; other items have none. -/
def strings (v : Value) : List String := (v.asList?.getD []).filterMap asString?

end Value

/-- A directive with its arguments. -/
structure Directive where
  name      : String
  arguments : List (String × Value) := []
deriving DecidableEq, Repr, Inhabited

namespace Directive

/-- The value of an argument, the first of that name. -/
def argument? (d : Directive) (name : String) : Option Value := Dict.findList? name d.arguments

/-- The arguments as a JSON object, the last value of a repeated one. -/
def argumentsJson (d : Directive) : Json := .mkObj (Value.toJsonFields d.arguments)

end Directive

/-- The first directive of a name. -/
def findDirective? (name : String) (directives : List Directive) : Option Directive :=
  directives.find? (·.name == name)

/-- A reference to a type. -/
inductive TypeRef where
  | named (name : String)
  | list (inner : TypeRef)
  | nonNull (inner : TypeRef)
deriving DecidableEq, Repr, Inhabited

namespace TypeRef

/-- The name that a reference comes down to. -/
def baseName : TypeRef → String
  | named name    => name
  | list inner    => inner.baseName
  | nonNull inner => inner.baseName

/-- Whether null is excluded. -/
def isNonNull : TypeRef → Bool
  | nonNull _ => true
  | _         => false

/-- Whether the reference is to a list, null excluded or not. -/
def isList : TypeRef → Bool
  | named _       => false
  | list _        => true
  | nonNull inner => inner.isList

/-- A named type without null. -/
def required (name : String) : TypeRef := nonNull (named name)

end TypeRef

/-- An argument of a field. -/
structure ArgumentDefinition where
  name    : String
  type    : TypeRef
  default : Option Value := none
deriving DecidableEq, Repr, Inhabited

/-- A field of a type. -/
structure FieldDefinition where
  name       : String
  arguments  : List ArgumentDefinition := []
  type       : TypeRef
  directives : List Directive := []
deriving DecidableEq, Repr, Inhabited

namespace FieldDefinition

/-- The first directive of a name on the field. -/
def directive? (f : FieldDefinition) (name : String) : Option Directive :=
  findDirective? name f.directives

/-- Whether the field carries a directive. -/
def hasDirective (f : FieldDefinition) (name : String) : Bool := (f.directive? name).isSome

end FieldDefinition

/-- A kind of type. -/
inductive TypeKind where
  | object
  | input
  | interface
  | enumeration
  | union
  | scalar
deriving DecidableEq, Repr, Inhabited

/-- A definition of a type, or an extension of one. Its members are the names of the values of an
enumeration or of the types of a union. -/
structure TypeDefinition where
  kind       : TypeKind
  name       : String
  extends?   : Bool := false
  implements : List String := []
  directives : List Directive := []
  fields     : List FieldDefinition := []
  members    : List String := []
deriving DecidableEq, Repr, Inhabited

/-- `items` with `f` applied to the first of them that has the property `p`. -/
def modifyFirst {α : Type} (p : α → Bool) (f : α → α) : List α → List α
  | []      => []
  | a :: as => if p a then f a :: as else a :: modifyFirst p f as

theorem find?_modifyFirst {α : Type} {p : α → Bool} {f : α → α} (hf : ∀ a, p a → p (f a))
    (items : List α) : (modifyFirst p f items).find? p = (items.find? p).map f := by
  induction items with
  | nil => rfl
  | cons a as ih => by_cases h : p a <;> simp [modifyFirst, h, hf, ih]

namespace TypeDefinition

/-- The first directive of a name on the type. -/
def directive? (t : TypeDefinition) (name : String) : Option Directive :=
  findDirective? name t.directives

/-- Whether the type carries a directive. -/
def hasDirective (t : TypeDefinition) (name : String) : Bool := (t.directive? name).isSome

/-- The first field of a name. -/
def field? (t : TypeDefinition) (name : String) : Option FieldDefinition :=
  t.fields.find? (·.name == name)

/-- The type with `f` applied to its first field of a name. -/
def modifyField (t : TypeDefinition) (name : String) (f : FieldDefinition → FieldDefinition) :
    TypeDefinition :=
  { t with fields := modifyFirst (·.name == name) f t.fields }

/-- The type with a field at its end, unless it has one of that name. -/
def ensureField (t : TypeDefinition) (field : FieldDefinition) : TypeDefinition :=
  if (t.field? field.name).isSome then t else { t with fields := t.fields ++ [field] }

/-- The type with a further directive at the end of its own. -/
def addDirective (t : TypeDefinition) (d : Directive) : TypeDefinition :=
  { t with directives := t.directives ++ [d] }

theorem field?_ensureField (t : TypeDefinition) (field : FieldDefinition) :
    ((t.ensureField field).field? field.name).isSome = true := by
  unfold ensureField
  split
  · assumption
  · simp [field?]

end TypeDefinition

/-- A schema document. -/
structure Document where
  definitions : List TypeDefinition := []
deriving DecidableEq, Repr, Inhabited

namespace Document

/-- Whether a definition is the base definition of a type. -/
def isBase (name : String) (t : TypeDefinition) : Bool := t.name == name && !t.extends?

/-- The base definition of a type, the first if there are several. -/
def getType? (d : Document) (name : String) : Option TypeDefinition :=
  d.definitions.find? (isBase name)

/-- The document with `f` applied to the base definition of a type. -/
def modifyType (d : Document) (name : String) (f : TypeDefinition → TypeDefinition) : Document :=
  { d with definitions := modifyFirst (isBase name) f d.definitions }

/-- The document with an empty object type at its end, unless the type has a base definition. -/
def ensureObject (d : Document) (name : String) : Document :=
  if (d.getType? name).isSome then d
  else { d with definitions := d.definitions ++ [{ kind := .object, name }] }

/-- The document with a field on a type, which is made an object type if it is missing. -/
def ensureObjectField (d : Document) (type : String) (field : FieldDefinition) : Document :=
  (d.ensureObject type).modifyType type (·.ensureField field)

/-- The object definitions that carry a directive, in their order. -/
def typesWith (d : Document) (directive : String) : List TypeDefinition :=
  d.definitions.filter fun t => t.kind == .object && t.hasDirective directive

/-- The fields that carry a directive, each with the definition it stands in, in their order. -/
def fieldsWith (d : Document) (directive : String) : List (TypeDefinition × FieldDefinition) :=
  d.definitions.flatMap fun t => (t.fields.filter (·.hasDirective directive)).map fun f => (t, f)

/-- The directives of each definition and after them those of its fields. -/
def directives (d : Document) : List Directive :=
  d.definitions.flatMap fun t => t.directives ++ t.fields.flatMap (·.directives)

/-- The directives on each type name and its fields. -/
def directivesByType (d : Document) : Dict (List Directive) :=
  d.definitions.foldl (fun byType t =>
    byType.insert t.name
      ((byType.find? t.name).getD [] ++ t.directives ++ t.fields.flatMap (·.directives))) ∅

/-- The document without the directives that are not named in `keep`. -/
def strip (d : Document) (keep : List String) : Document where
  definitions := d.definitions.map fun t =>
    { t with
      directives := t.directives.filter (·.name ∈ keep)
      fields     := t.fields.map fun f =>
        { f with directives := f.directives.filter (·.name ∈ keep) } }

theorem getType?_ensureObject (d : Document) (name : String) :
    ((d.ensureObject name).getType? name).isSome = true := by
  unfold ensureObject
  split
  · assumption
  · simp [getType?, isBase]

end Document

end ApiCompiler
