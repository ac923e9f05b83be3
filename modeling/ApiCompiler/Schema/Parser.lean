import ApiCompiler.Fault
import ApiCompiler.Schema.Lexical

/-!
# Schema — parsing

`Document.parse` reads a whole text as definitions. A text that cannot be read to its end is
refused at the first definition that cannot be read.

* `value`, `typeRef`: what nests is read to the depth of the text's length, which no nesting
  exceeds.
* `definition`: one definition, or nothing for what declares no type.
-/

namespace ApiCompiler.Schema

open ApiCompiler.Parser

/-! ### Values and directives -/

/-- Reads a named value with `p` for the value. -/
def argument (p : Parser Value) : Parser (String × Value) := do
  let key ← token name
  symbol ':'
  let v ← token p
  return (key, v)

/-- The value of a word. -/
def wordValue (word : String) : Value :=
  if word = "true" then .boolean true
  else if word = "false" then .boolean false
  else if word = "null" then .null
  else .enumeral word

/-- Reads a value in which lists and objects nest less than `depth` deep. -/
def valueWithin : (depth : Nat) → Parser Value
  | 0         => failure
  | depth + 1 =>
    number
    <|> Value.string <$> blockString
    <|> Value.string <$> string
    <|> Value.list <$> between (char '[') (many (token (valueWithin depth))) (symbol ']')
    <|> Value.object <$> between (char '\x7b') (many (argument (valueWithin depth))) (symbol '\x7d')
    <|> wordValue <$> name

/-- Reads a value. -/
def value : Parser Value := fun s => valueWithin s.length s

/-- Reads a directive. -/
def directive : Parser Directive := do
  char '@'
  let directiveName ← name
  let arguments     ← opt (between (symbol '(') (many (argument value)) (symbol ')'))
  return ⟨directiveName, arguments.getD []⟩

/-- Reads the directives that come next. -/
def directives : Parser (List Directive) := many (token directive)

/-! ### Types and fields -/

/-- Reads a reference to a type in which lists nest less than `depth` deep. -/
def typeRefWithin : (depth : Nat) → Parser TypeRef
  | 0         => failure
  | depth + 1 => do
    let base ← TypeRef.named <$> name
      <|> TypeRef.list <$> between (char '[') (token (typeRefWithin depth)) (symbol ']')
    let bang ← opt (symbol '!')
    return if bang.isSome then .nonNull base else base

/-- Reads a reference to a type. -/
def typeRef : Parser TypeRef := fun s => typeRefWithin s.length s

/-- Reads a default value. -/
def defaultValue : Parser Value := do
  symbol '='
  token value

/-- Reads an argument of a field; its directives are dropped. -/
def argumentDefinition : Parser ArgumentDefinition := do
  let _            ← opt (token description)
  let argumentName ← token name
  symbol ':'
  let type         ← token typeRef
  let default      ← opt defaultValue
  let _            ← directives
  return ⟨argumentName, type, default⟩

/-- Reads the arguments of a field. -/
def argumentDefinitions : Parser (List ArgumentDefinition) :=
  between (symbol '(') (many argumentDefinition) (symbol ')')

/-- Reads a field; a default value, which input types have, is dropped. -/
def fieldDefinition : Parser FieldDefinition := do
  let _         ← opt (token description)
  let fieldName ← token name
  let arguments ← opt argumentDefinitions
  symbol ':'
  let type      ← token typeRef
  let _         ← opt defaultValue
  let ds        ← directives
  return ⟨fieldName, arguments.getD [], type, ds⟩

/-- Reads items with `p` between braces. -/
def block {α : Type} (p : Parser α) : Parser (List α) :=
  between (symbol '\x7b') (many p) (symbol '\x7d')

/-! ### Definitions -/

/-- Reads the interfaces that a type implements. -/
def implementsClause : Parser (List String) := do
  token (tag "implements".toList)
  many1 (do
    let _ ← opt (symbol '&')
    token name)

/-- Reads what follows the keyword of a type with fields. -/
def fieldsDefinition (kind : TypeKind) (extends? : Bool) : Parser TypeDefinition := do
  let typeName   ← token name
  let implements ← opt implementsClause
  let ds         ← directives
  let fields     ← opt (block fieldDefinition)
  return { kind, name := typeName, extends?, implements := implements.getD [], directives := ds,
           fields := fields.getD [] }

/-- Reads a value of an enumeration; its directives are dropped. -/
def enumMember : Parser String := do
  let _      ← opt (token description)
  let member ← token name
  let _      ← directives
  return member

/-- Reads what follows the keyword of an enumeration. -/
def enumDefinition (extends? : Bool) : Parser TypeDefinition := do
  let typeName ← token name
  let ds       ← directives
  let members  ← opt (block enumMember)
  return { kind := .enumeration, name := typeName, extends?, directives := ds,
           members := members.getD [] }

/-- Reads the members of a union. -/
def unionMembers : Parser (List String) := do
  symbol '='
  let _ ← opt (symbol '|')
  sepBy1 (token name) (symbol '|')

/-- Reads what follows the keyword of a union. -/
def unionDefinition (extends? : Bool) : Parser TypeDefinition := do
  let typeName ← token name
  let ds       ← directives
  let members  ← opt unionMembers
  return { kind := .union, name := typeName, extends?, directives := ds,
           members := members.getD [] }

/-- Reads what follows the keyword of a scalar. -/
def scalarDefinition (extends? : Bool) : Parser TypeDefinition := do
  let typeName ← token name
  let ds       ← directives
  return { kind := .scalar, name := typeName, extends?, directives := ds }

/-- Reads the root operations of a schema, which nothing is made of. -/
def schemaBlock : Parser Unit := do
  let _ ← directives
  let _ ← block (do
    let _ ← token name
    symbol ':'
    token name)

/-- Reads the declaration of a directive, which nothing is made of. -/
def directiveDeclaration : Parser Unit := do
  symbol '@'
  let _ ← name
  let _ ← opt argumentDefinitions
  let _ ← opt (token (tag "repeatable".toList))
  token (tag "on".toList)
  let _ ← opt (symbol '|')
  let _ ← sepBy1 (token (chars1 fun c => !(isSeparator c || c = '|' || c = '#'))) (symbol '|')

/-- Reads what follows the keyword of a definition. -/
def definitionOf (keyword : String) (extends? : Bool) : Parser (Option TypeDefinition) :=
  if keyword = "type" then some <$> fieldsDefinition .object extends?
  else if keyword = "input" then some <$> fieldsDefinition .input extends?
  else if keyword = "interface" then some <$> fieldsDefinition .interface extends?
  else if keyword = "enum" then some <$> enumDefinition extends?
  else if keyword = "union" then some <$> unionDefinition extends?
  else if keyword = "scalar" then some <$> scalarDefinition extends?
  else if keyword = "schema" then (fun _ => none) <$> schemaBlock
  else if keyword = "directive" then (fun _ => none) <$> directiveDeclaration
  else failure

/-- Reads a definition. -/
def definition : Parser (Option TypeDefinition) := do
  let _       ← opt (token description)
  let keyword ← token name
  -- an extension is written like what it extends
  if keyword = "extend" then
    let extended ← token name
    definitionOf extended true
  else definitionOf keyword false

/-- The definitions that a text starts with, and what follows them and all separators. -/
def document (s : List Char) : List TypeDefinition × List Char :=
  let (definitions, rest) := collect definition s
  (definitions.filterMap id, skipIgnored rest)

/-! ### Texts that cannot be read -/

/-- The line of a text on which `rest`, its end, starts. -/
def lineOf (s rest : List Char) : Nat :=
  (s.take (s.length - rest.length)).count '\n' + 1

/-- The first line of a text, without its line end. -/
def firstLine (s : List Char) : List Char :=
  let line := s.takeWhile (· != '\n')
  -- a carriage return belongs to the line end only where a line feed follows
  if line.length < s.length ∧ line.getLast? = some '\r' then line.dropLast else line

/-- What is shown of a text that cannot be read. -/
def snippet (rest : List Char) : List Char := firstLine (rest.take 40)

/-- Where a text cannot be read, in words. -/
def unexpected (s rest : List Char) : String :=
  "unexpected input at line " ++ toString (lineOf s rest) ++ ": " ++ String.ofList (snippet rest)

end Schema

/-- Reads a text as a document. -/
def Document.parse (text : String) : Except Fault Document :=
  match Schema.document text.toList with
  | (definitions, []) => .ok ⟨definitions⟩
  | (_, rest)         => .error (.schemaParse (Schema.unexpected text.toList rest))

end ApiCompiler
