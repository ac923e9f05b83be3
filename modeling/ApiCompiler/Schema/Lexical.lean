import ApiCompiler.Number.Reader
import ApiCompiler.Parser
import ApiCompiler.Schema.Basic
import ApiCompiler.Text.Blank

/-!
# Schema — names, texts and numbers

What may stand between the tokens of a schema, and the tokens that have an inner structure.

* `skipIgnored_ignored`: separators in front of a text are skipped.
* `isName`: the form of a name, which is all that `name` reads.
-/

namespace ApiCompiler.Schema

open ApiCompiler.Parser

/-! ### Between tokens -/

/-- Whether `c` separates tokens and means nothing else. -/
def isSeparator (c : Char) : Bool := c = ' ' || c = '\t' || c = '\r' || c = '\n' || c = ','

/-- Whether `c` ends a line. -/
def isLineEnd (c : Char) : Bool := c = '\n' || c = '\r'

/-- Whether the line that a text starts with ends as a line may: with the text, with a line feed,
or with a carriage return and a line feed. -/
def endsLine (s : List Char) : Bool :=
  match s.dropWhile fun c => !isLineEnd c with
  | []                => true
  | '\n' :: _         => true
  | '\r' :: '\n' :: _ => true
  | _                 => false

/-- What follows separators and comments; within a comment, what follows its line too. -/
def skipFrom (inComment : Bool) : List Char → List Char
  | []     => []
  | c :: r =>
    -- the line end belongs to the comment
    if inComment then skipFrom (!isLineEnd c) r
    else if isSeparator c then skipFrom false r
    else if c = '#' && endsLine r then skipFrom true r
    else c :: r

/-- What follows separators and comments. -/
def skipIgnored (s : List Char) : List Char := skipFrom false s

/-- Reads separators and comments. -/
def ignored : Parser Unit := fun s => some ((), skipIgnored s)

/-- Reads with `p` what follows separators and comments. -/
def token {α : Type} (p : Parser α) : Parser α := do
  ignored
  p

/-- Reads a symbol of one character after separators and comments. -/
def symbol (c : Char) : Parser Unit := token (char c)

@[simp] theorem skipIgnored_nil : skipIgnored [] = [] := rfl

/-- Separators in front of a text are skipped. -/
theorem skipIgnored_ignored {c : Char} (h : isSeparator c = true) (r : List Char) :
    skipIgnored (c :: r) = skipIgnored r := by
  simp [skipIgnored, skipFrom, h]

/-- A text that starts with neither a separator nor a comment is left as it is. -/
theorem skipIgnored_of_not {c : Char} (h : isSeparator c = false) (hc : c ≠ '#') (r : List Char) :
    skipIgnored (c :: r) = c :: r := by
  simp [skipIgnored, skipFrom, h, hc]

/-! ### Names -/

/-- Whether a name may start with `c`. -/
def isNameStart (c : Char) : Bool := c.isAlpha || c = '_'

/-- Whether a name may go on with `c`. -/
def isNameChar (c : Char) : Bool := c.isAlphanum || c = '_'

/-- Whether a text is a name: a letter or an underscore, and letters, digits and underscores. -/
def isName (s : String) : Bool :=
  match s.toList with
  | []     => false
  | c :: r => isNameStart c && r.all isNameChar

/-- Reads a name. -/
def name : Parser String := do
  let c ← satisfy isNameStart
  let r ← chars isNameChar
  return String.ofList (c :: r)

/-! ### Texts -/

/-- The character of an escape. -/
def unescape? : Char → Option Char
  | '\\' => some '\\'
  | '"'  => some '"'
  | '/'  => some '/'
  | 'n'  => some '\n'
  | 't'  => some '\t'
  | _    => none

/-- A text up to and with its closing quote, and what follows it; a line end is no part of it. -/
def stringBody : List Char → Option (List Char × List Char)
  | []             => none
  | '"' :: r       => some ([], r)
  | '\n' :: _      => none
  | '\\' :: r      =>
    match r with
    | []     => none
    | e :: r => do
      let c          ← unescape? e
      let (cs, rest) ← stringBody r
      return (c :: cs, rest)
  | c :: r         => do
    let (cs, rest) ← stringBody r
    return (c :: cs, rest)

/-- Reads a text between quotes. -/
def string : Parser String := do
  char '"'
  let cs ← (stringBody : Parser (List Char))
  return String.ofList cs

/-- A block of text up to and with its closing quotes, and what follows it. -/
def blockBody : List Char → Option (List Char × List Char)
  | []                      => none
  | '"' :: '"' :: '"' :: r  => some ([], r)
  | c :: r                  => do
    let (cs, rest) ← blockBody r
    return (c :: cs, rest)

/-- Reads a block of text between triple quotes, without the blanks at its ends. -/
def blockString : Parser String := do
  tag ['"', '"', '"']
  let cs ← (blockBody : Parser (List Char))
  return String.ofList (Text.trim cs)

/-- Reads a description. -/
def description : Parser String := blockString <|> string

/-! ### Numbers -/

/-- The value of a number as it is written: with a fraction or an exponent a float, otherwise a
whole number, which has to fit 64 bits. -/
def numberValue? (negative : Bool) (whole : List Char) (fraction : Option (List Char))
    (exponent : Option (Bool × List Char)) : Option Value :=
  match fraction, exponent with
  | none, none =>
    let n : Int := if negative then -(Number.digitsValue whole : Int) else Number.digitsValue whole
    if Number.fitsWord n then some (.int n) else none
  | _, _       =>
    let fraction := fraction.getD []
    let (down, ds) := exponent.getD (false, [])
    let power : Int := if down then -(Number.digitsValue ds : Int) else Number.digitsValue ds
    some (.float (Binary64.ofDecimal negative (Number.digitsValue (whole ++ fraction))
      (power - fraction.length)))

/-- Reads a fraction. -/
def fractionPart : Parser (List Char) := do
  char '.'
  chars1 Char.isDigit

/-- Reads an exponent: whether it is negative, and its digits. -/
def exponentPart : Parser (Bool × List Char) := do
  let _    ← satisfy fun c => c = 'e' || c = 'E'
  let sign ← opt (satisfy fun c => c = '+' || c = '-')
  let ds   ← chars1 Char.isDigit
  return (sign = some '-', ds)

/-- Reads a number. -/
def number : Parser Value := do
  let sign     ← opt (char '-')
  let whole    ← chars1 Char.isDigit
  let fraction ← opt fractionPart
  let exponent ← opt exponentPart
  fun s => (numberValue? sign.isSome whole fraction exponent).map fun v => (v, s)

end ApiCompiler.Schema
