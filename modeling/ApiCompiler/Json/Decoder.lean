import ApiCompiler.Json.Basic
import ApiCompiler.Number.Decimal
import ApiCompiler.Text.Quoted

/-!
# JSON — decoding into types

A decoder takes a value to what it stands for, or says what is wrong with it first. A record is
decoded from an object, whose fields are checked in their order before a missing one is missed, or
from an array of its fields in their order of declaration.

A type that is written as JSON has its value in `encode`, its fields, when it has any, in `record`,
and the way back in `decode`.

* `Record.field`, `Record.optional`, `Record.withDefault`: one field of a record.
* `decode_obj`: how a record comes out of an object.
-/

namespace ApiCompiler

namespace Json

/-- Where a value that is decoded was held, which decides how some defects are told. -/
inductive Source where
  /-- A value in memory: the keys of its objects are rising. -/
  | value
  /-- A text: keys are in its order and may be repeated. -/
  | text
  /-- A value that was held back until its tag was known. -/
  | buffered
deriving DecidableEq, Repr

/-- What is wrong with a value. -/
inductive DecodeError where
  | missingField (name : String)
  | duplicateField (name : String)
  | invalidType (got : Json) (want : String)
  | outOfRange (n : Int) (want : String)
  | notOneVariant
  | unknownVariant (name : String) (known : List String)
  | invalidLength (length : Nat) (want : String)
  | noValue
  | trailing
deriving DecidableEq, Repr

/-- What a value is, in words. -/
def describe : Json → String
  | null    => "null"
  | bool b  => "boolean `" ++ toString b ++ "`"
  | int n   => "integer `" ++ toString n ++ "`"
  | float x => "floating point `" ++ Layout.pointed.write x ++ "`"
  | str s   => "string " ++ Text.quote s
  | arr _   => "sequence"
  | obj _   => "map"

/-- A name between backquotes. -/
def ticked (name : String) : String := "`" ++ name ++ "`"

/-- The names that were possible, in words. -/
def oneOf : List String → String
  | []     => "there are no variants"
  | [a]    => "expected " ++ ticked a
  | [a, b] => "expected " ++ ticked a ++ " or " ++ ticked b
  | names  => "expected one of " ++ ", ".intercalate (names.map ticked)

/-- `n` elements, in words. -/
def elements (n : Nat) : String := if n = 1 then "1 element" else toString n ++ " elements"

/-- The words for a defect. -/
def DecodeError.message : DecodeError → String
  | missingField name         => "missing field " ++ ticked name
  | duplicateField name       => "duplicate field " ++ ticked name
  | invalidType got want      => "invalid type: " ++ describe got ++ ", expected " ++ want
  | outOfRange n want         =>
    "invalid value: integer " ++ ticked (toString n) ++ ", expected " ++ want
  | notOneVariant             => "invalid value: map, expected map with a single key"
  | unknownVariant name known => "unknown variant " ++ ticked name ++ ", " ++ oneOf known
  | invalidLength n want      => "invalid length " ++ toString n ++ ", expected " ++ want
  | noValue                   => "expected value"
  | trailing                  => "trailing characters"

/-- Takes a value to what it stands for. -/
abbrev Decoder (α : Type) := Source → Json → Except DecodeError α

namespace Decoder

variable {α : Type}

/-- Any value, in canonical form. -/
def any : Decoder Json := fun _ j => .ok j.canonical

/-- A text. -/
def string : Decoder String
  | _, str s => .ok s
  | _, j     => .error (.invalidType j "a string")

/-- A truth value. -/
def boolean : Decoder Bool
  | _, bool b => .ok b
  | _, j      => .error (.invalidType j "a boolean")

/-- A whole number of 32 bits. -/
def word32 : Decoder UInt32
  | _, int n =>
    if 0 ≤ n ∧ n < 4294967296 then .ok (UInt32.ofNat n.toNat) else .error (.outOfRange n "u32")
  | _, j     => .error (.invalidType j "u32")

/-- A value that may be null. -/
def nullable (d : Decoder α) : Decoder (Option α)
  | _, null   => .ok none
  | source, j => some <$> d source j

/-- The defect of an array that goes on after the `used` items that were asked for. -/
def tooLong (source : Source) (length used : Nat) : DecodeError :=
  match source with
  | .value    => .invalidLength length "fewer elements in array"
  | .text     => .trailing
  | .buffered => .invalidLength length (elements used ++ " in sequence")

/-- An array of values. -/
def list (d : Decoder α) : Decoder (List α)
  | source, arr items => items.mapM (d source)
  | _, j              => .error (.invalidType j "a sequence")

/-- An object with one kind of value; the last value of a repeated key stays. -/
def dict (d : Decoder α) : Decoder (Dict α)
  | source, obj fields => do
    let pairs ← fields.mapM fun f => do return (f.1, ← d source f.2)
    return Dict.ofList pairs
  | _, j               => .error (.invalidType j "a map")

/-- An array of two texts. -/
def pair : Decoder (String × String)
  | source, arr (a :: b :: rest) => do
    let a ← string source a
    let b ← string source b
    if rest.isEmpty then return (a, b)
    else .error (tooLong source (rest.length + 2) 2)
  | source, arr items            => do
    let _ ← items.mapM (string source)
    .error (.invalidLength items.length "a tuple of size 2")
  | _, j                         => .error (.invalidType j "a tuple of size 2")

/-- The variant of a name. -/
def variantNamed (variants : List (String × α)) (name : String) : Except DecodeError α :=
  match Dict.findList? name variants with
  | some a => .ok a
  | none   => .error (.unknownVariant name (variants.map (·.1)))

/-- The content of a variant without content: null, and in a buffered value an empty object. -/
def noContent (source : Source) : Json → Except DecodeError Unit
  | null   => .ok ()
  | obj [] => if source = .buffered then .ok () else .error (.invalidType (obj []) "unit")
  | j      => .error (.invalidType j "unit")

/-- One of several names, as a text or as an object that maps the name to null. -/
def variant (variants : List (String × α)) : Decoder α
  | _, str name               => variantNamed variants name
  | source, obj [(name, j)]   => do
    let a ← variantNamed variants name
    noContent source j
    return a
  | .text, obj []             => .error .noValue
  | .text, obj ((name, j) :: _) => do
    let _ ← variantNamed variants name
    noContent .text j
    .error .noValue
  | _, obj _                  => .error .notOneVariant
  | .text, _                  => .error .noValue
  | _, j                      => .error (.invalidType j "string or map")

end Decoder

/-! ### Records -/

/-- How the parts of a record are found in a value. -/
structure Parts where
  source  : Source
  /-- The part of a field, by its position and its name. -/
  find    : Nat → String → Option Json
  /-- The defect of a value without a part that it needs. -/
  missing : Nat → String → DecodeError
  /-- Whether the parts have no names. -/
  unnamed : Bool

/-- A record under construction: its fields so far, and how they make a value. -/
structure Record (α : Type) where
  names : List String
  check : Source → String → Json → Except DecodeError Unit
  build : Parts → Nat → Except DecodeError α

namespace Record

variable {α β : Type}

/-- A field; `whenAbsent` stands for one that is missing, `whenShort` for one that is missing in
an array. -/
def part (name : String) (d : Decoder α) (whenAbsent whenShort : Option α) : Record α where
  names := [name]
  check source key j := if key = name then discard (d source j) else .ok ()
  build parts i :=
    match parts.find i name with
    | some j => d parts.source j
    | none   =>
      match if parts.unnamed then whenShort else whenAbsent with
      | some a => .ok a
      | none   => .error (parts.missing i name)

/-- A field that must be there. -/
def field (name : String) (d : Decoder α) : Record α := part name d none none

/-- A field that may be missing, then with the value `a`. -/
def withDefault (name : String) (d : Decoder α) (a : α) : Record α := part name d (some a) (some a)

/-- A field that may be null or missing. -/
def optional (name : String) (d : Decoder α) : Record (Option α) :=
  withDefault name d.nullable none

/-- A field that may be null, and missing in an object but not in an array. -/
def nullable (name : String) (d : Decoder α) : Record (Option α) :=
  part name d.nullable (some none) none

/-- A function of the fields so far applied to those of another record, which follow. -/
def ap (f : Record (α → β)) (x : Record α) : Record β where
  names := f.names ++ x.names
  check source key j := do f.check source key j; x.check source key j
  build parts i := do
    let g ← f.build parts i
    let a ← x.build parts (i + f.names.length)
    return g a

instance : Functor Record where
  map f x := { x with build := fun parts i => f <$> x.build parts i }

instance : Seq Record where
  seq f x := ap f (x ())

/-- Checks the fields of an object in their order; in a text a known one comes once. -/
def checkFields (r : Record α) (source : Source) (seen : List String) :
    List (String × Json) → Except DecodeError Unit
  | []             => .ok ()
  | (k, j) :: rest => do
    if k ∈ r.names then
      if source = .text ∧ k ∈ seen then .error (.duplicateField k)
      else
        r.check source k j
        checkFields r source (k :: seen) rest
    else checkFields r source seen rest

/-- Decodes the fields of an object. -/
def ofFields (r : Record α) (source : Source) (fields : List (String × Json)) :
    Except DecodeError α := do
  r.checkFields source [] fields
  r.build ⟨source, fun _ name => Dict.findList? name fields, fun _ => .missingField, false⟩ 0

/-- Decodes the items of an array, which stand for the fields of what `title` names. -/
def ofItems (r : Record α) (title : String) (source : Source) (items : List Json) :
    Except DecodeError α := do
  let size := r.names.length
  let want := title ++ " with " ++ elements size
  let a ← r.build ⟨source, fun i _ => items[i]?, fun i _ => .invalidLength i want, true⟩ 0
  if items.length ≤ size then return a else .error (Decoder.tooLong source items.length size)

/-- The decoder of a record; `title` names what it stands for. -/
def decode (title : String) (r : Record α) : Decoder α
  | source, obj fields => r.ofFields source fields
  | source, arr items  => r.ofItems title source items
  | _, j               => .error (.invalidType j title)

theorem decode_obj (title : String) (r : Record α) (source : Source)
    (fields : List (String × Json)) :
    r.decode title source (obj fields) = r.ofFields source fields := rfl

end Record

end Json

end ApiCompiler
