import ApiCompiler.Number.Decimal
import ApiCompiler.Schema.Basic
import ApiCompiler.Text.Quoted

/-!
# Schema — printing

The text of a document: definitions with an empty line between them, fields and enum values on
lines of their own, and everything else of a definition on its first line.
-/

namespace ApiCompiler

/-- The parts of a text with `separator` between them. -/
def joined (separator : List Char) : List (List Char) → List Char
  | []           => []
  | part :: rest => part ++ rest.flatMap fun r => separator ++ r

/-- A whole number as it is written. -/
def printInt : Int → List Char
  | .ofNat n   => Nat.toDigits 10 n
  | .negSucc n => '-' :: Nat.toDigits 10 (n + 1)

namespace Value

mutual

/-- A value as it is written. -/
def print : Value → List Char
  | null          => "null".toList
  | boolean true  => "true".toList
  | boolean false => "false".toList
  | int n         => printInt n
  | float x       => x.toText.toList
  | string s      => Text.quoteChars s.toList
  | enumeral s    => s.toList
  | list items    => '[' :: joined ", ".toList (printItems items) ++ [']']
  | object fields => '\x7b' :: joined ", ".toList (printFields fields) ++ ['\x7d']

/-- The items of a list as they are written. -/
def printItems : List Value → List (List Char)
  | []      => []
  | v :: vs => v.print :: printItems vs

/-- The fields of an object as they are written. -/
def printFields : List (String × Value) → List (List Char)
  | []             => []
  | (k, v) :: rest => (k.toList ++ ": ".toList ++ v.print) :: printFields rest

end

/-- The text of a value. -/
def toText (v : Value) : String := String.ofList v.print

end Value

/-- A directive as it is written. -/
def Directive.print (d : Directive) : List Char :=
  " @".toList ++ d.name.toList ++
    if d.arguments.isEmpty then []
    else '(' :: joined ", ".toList (Value.printFields d.arguments) ++ [')']

/-- Directives as they are written after what carries them. -/
def printDirectives (directives : List Directive) : List Char := directives.flatMap (·.print)

/-- A reference to a type as it is written. -/
def TypeRef.print : TypeRef → List Char
  | named name    => name.toList
  | list inner    => '[' :: inner.print ++ [']']
  | nonNull inner => inner.print ++ ['!']

/-- The text of a reference to a type. -/
def TypeRef.toText (t : TypeRef) : String := String.ofList t.print

/-- An argument of a field as it is written. -/
def ArgumentDefinition.print (a : ArgumentDefinition) : List Char :=
  a.name.toList ++ ": ".toList ++ a.type.print ++
    match a.default with
    | none   => []
    | some v => " = ".toList ++ v.print

/-- A field as it is written on its line. -/
def FieldDefinition.print (f : FieldDefinition) : List Char :=
  "  ".toList ++ f.name.toList
    ++ (if f.arguments.isEmpty then []
        else '(' :: joined ", ".toList (f.arguments.map (·.print)) ++ [')'])
    ++ ": ".toList ++ f.type.print ++ printDirectives f.directives ++ ['\n']

/-- The keyword of a kind of type. -/
def TypeKind.keyword : TypeKind → String
  | object      => "type"
  | input       => "input"
  | interface   => "interface"
  | enumeration => "enum"
  | union       => "union"
  | scalar      => "scalar"

/-- What follows the directives of a definition. -/
def TypeDefinition.printBody (t : TypeDefinition) : List Char :=
  match t.kind with
  | .scalar      => []
  | .union       => " = ".toList ++ joined " | ".toList (t.members.map (·.toList))
  | .enumeration =>
    " \x7b\n".toList ++ t.members.flatMap (fun m => "  ".toList ++ m.toList ++ ['\n'])
      ++ ['\x7d']
  | .object | .input | .interface =>
    " \x7b\n".toList ++ t.fields.flatMap (·.print) ++ ['\x7d']

/-- A definition as it is written. -/
def TypeDefinition.print (t : TypeDefinition) : List Char :=
  (if t.extends? then "extend ".toList else [])
    ++ t.kind.keyword.toList ++ [' '] ++ t.name.toList
    ++ (if t.implements.isEmpty then []
        else " implements ".toList ++ joined " & ".toList (t.implements.map (·.toList)))
    ++ printDirectives t.directives ++ t.printBody

/-- The text of a definition. -/
def TypeDefinition.toText (t : TypeDefinition) : String := String.ofList t.print

/-- A document as it is written. -/
def Document.print (d : Document) : List Char :=
  joined "\n\n".toList (d.definitions.map (·.print)) ++ ['\n']

/-- The text of a document. -/
def Document.toText (d : Document) : String := String.ofList d.print

end ApiCompiler
