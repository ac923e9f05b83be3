import ApiCompiler.Json.Basic
import ApiCompiler.Number.Reader
import ApiCompiler.Parser

/-!
# JSON — reading

`Json.read` reads one value from a text; the fields of an object stay in the order of the text,
repeated ones included. `Json.parse` reads a value all of which is fit to be looked at.

* A whole number within 64 bits is an integer, `-0` and any other number is a float.
* A float is scaled in one step: its leading digits, as far as they fit 64 bits, are multiplied or
  divided by a power of ten, with one rounding each.
* `isReadable`: no number is beyond the format, no text holds half of a character, and arrays and
  objects nest to a depth of `maxDepth` at most. What is not fit is read as a float that is not
  finite.
-/

namespace ApiCompiler

namespace Json

open ApiCompiler.Parser

/-! ### Numbers -/

/-- The largest significand. -/
def maxSignificand : Nat := 18446744073709551615

/-- The significand `n` followed by digits while it stays in bounds, and how many are left. -/
def absorb (n : Nat) : List Char → Nat × Nat
  | []     => (n, 0)
  | c :: r =>
    if 10 * n + Number.digitValue c ≤ maxSignificand then absorb (10 * n + Number.digitValue c) r
    else (n, (c :: r).length)

/-- `10 ^ 308`, the largest power of ten of the format. -/
def largestPower : Binary64 := Binary64.ofDecimal false 1 308

/-- `x` divided by `largestPower`, `steps` times. -/
def divideOften (x : Binary64) : Nat → Binary64
  | 0         => x
  | steps + 1 => divideOften (x.div largestPower) steps

/-- `significand · 10 ^ exponent` by one rounded product or quotient, or by several quotients
below the format's least power; nothing beyond the format. Four steps leave zero of anything. -/
def scale (significand : Nat) (exponent : Int) : Option Binary64 :=
  let x := Binary64.ofNat significand
  if significand = 0 then some x
  else match exponent with
    | .ofNat e   =>
      if e ≤ 308 then
        let y := x.mul (Binary64.ofDecimal false 1 e)
        if y.isInfinite then none else some y
      else none
    | .negSucc e =>
      -- the exponent is `-(e + 1)`
      let steps := min (e / 308) 4
      let rest  := min (e + 1 - 308 * steps) 308
      some ((divideOften x steps).div (Binary64.ofDecimal false 1 rest))

/-- The number of an exponent, which is out of reach beyond 31 bits. -/
def exponentValue? (digits : List Char) : Option Nat :=
  let n := Number.digitsValue digits
  if n < 2147483648 then some n else none

/-- The parts of a number as it is written. -/
structure Numeral where
  negative : Bool
  whole    : List Char
  fraction : Option (List Char)
  /-- Whether the exponent is negative, and its digits. -/
  exponent : Option (Bool × List Char)

/-- The value of a number without a fraction or an exponent. -/
def Numeral.integer? (n : Numeral) : Option Json :=
  match n.fraction, n.exponent with
  | none, none =>
    let v := Number.digitsValue n.whole
    if n.negative then if 0 < v ∧ v ≤ Number.wordBound then some (int (-v)) else none
    else if v ≤ maxSignificand then some (int v) else none
  | _, _       => none

/-- The value of a number as a float. -/
def Numeral.float? (n : Numeral) : Option Binary64 := do
  -- digits of the whole part that do not fit count as zeros, those of the fraction are dropped
  let (whole, dropped) := absorb 0 n.whole
  let fraction         := n.fraction.getD []
  let (significand, k) := absorb whole fraction
  let start : Int      := (dropped : Int) - ((fraction.length - k : Nat) : Int)
  let magnitude ← match n.exponent with
    | none             => scale significand start
    | some (down, ds) =>
      match exponentValue? ds with
      | some e => scale significand (if down then start - e else start + e)
      | none   => if down ∨ significand = 0 then some (Binary64.ofNat 0) else none
  return if n.negative then magnitude.neg else magnitude

/-- The value of a number, an infinity for one beyond the format. -/
def Numeral.value (n : Numeral) : Json :=
  (n.integer? <|> float <$> n.float?).getD (float (.infinite n.negative))

/-- Reads the digits of a whole number, which has no idle zero in front. -/
def wholeDigits : Parser (List Char) := do
  let ds ← chars1 Char.isDigit
  match ds with
  | '0' :: _ :: _ => failure
  | _             => return ds

/-- Reads an exponent. -/
def exponentPart : Parser (Bool × List Char) := do
  let _    ← satisfy fun c => c = 'e' || c = 'E'
  let sign ← opt (satisfy fun c => c = '+' || c = '-')
  let ds   ← chars1 Char.isDigit
  return (sign = some '-', ds)

/-- Reads what follows a mark `c`; where the mark does not come there is nothing to read. -/
def ifMarked (c : Char → Bool) (p : Parser α) : Parser (Option α) := fun s =>
  match s with
  | []     => some (none, s)
  | d :: _ => if c d then (some <$> p) s else some (none, s)

/-- Reads a number. -/
def numeral : Parser Numeral := do
  let sign     ← opt (char '-')
  let whole    ← wholeDigits
  let fraction ← ifMarked (· = '.') (do char '.'; chars1 Char.isDigit)
  let exponent ← ifMarked (fun c => c = 'e' || c = 'E') exponentPart
  return ⟨sign.isSome, whole, fraction, exponent⟩

/-! ### Texts -/

/-- The value of a digit to base 16. -/
def hexValue? (c : Char) : Option Nat :=
  if c.isDigit then some (c.toNat - '0'.toNat)
  else if 'a' ≤ c ∧ c ≤ 'f' then some (c.toNat - 'a'.toNat + 10)
  else if 'A' ≤ c ∧ c ≤ 'F' then some (c.toNat - 'A'.toNat + 10)
  else none

/-- The number of four digits to base 16. -/
def hexQuad? (a b c d : Char) : Option Nat := do
  return 4096 * (← hexValue? a) + 256 * (← hexValue? b) + 16 * (← hexValue? c) + (← hexValue? d)

/-- The character of a short escape. -/
def shortEscape? : Char → Option Char
  | '"'  => some '"'
  | '\\' => some '\\'
  | '/'  => some '/'
  | 'b'  => some '\x08'
  | 'f'  => some '\x0c'
  | 'n'  => some '\n'
  | 'r'  => some '\r'
  | 't'  => some '\t'
  | _    => none

/-- Whether `n` is the first half of a character that is written by two numbers. -/
def isHighHalf (n : Nat) : Bool := 0xD800 ≤ n && n < 0xDC00

/-- Whether `n` is the second half of a character that is written by two numbers. -/
def isLowHalf (n : Nat) : Bool := 0xDC00 ≤ n && n < 0xE000

/-- The character of two halves. -/
def joinHalves (high low : Nat) : Char :=
  Char.ofNat (0x10000 + (high - 0xD800) * 0x400 + (low - 0xDC00))

/-- The rest of a text after its opening quote, up to and with its closing one; `half` is the
first half of a character that has just been read. A half without the other one is no
character. -/
def textBody (half : Option Nat) : List Char → Option (List (Option Char) × List Char)
  | []                                   => none
  | '"' :: r                             => some (lone half, r)
  | '\\' :: 'u' :: a :: b :: c :: d :: r => do
    let n ← hexQuad? a b c d
    if isHighHalf n then
      let (cs, rest) ← textBody (some n) r
      return (lone half ++ cs, rest)
    else
      let (cs, rest) ← textBody none r
      -- a second half needs the first one right before it
      if isLowHalf n then
        return ((half.map (joinHalves · n)) :: cs, rest)
      else return (lone half ++ some (Char.ofNat n) :: cs, rest)
  | '\\' :: e :: r                       => do
    let c          ← shortEscape? e
    let (cs, rest) ← textBody none r
    return (lone half ++ some c :: cs, rest)
  | c :: r                               =>
    if c.toNat < 0x20 ∨ c = '\\' then none
    else do
      let (cs, rest) ← textBody none r
      return (lone half ++ some c :: cs, rest)
where
  /-- What a first half without a second one counts for. -/
  lone : Option Nat → List (Option Char)
    | none   => []
    | some _ => [none]

/-- Reads a text between quotes, which has no value if it holds half of a character. -/
def text : Parser (Option String) := do
  char '"'
  let cs ← (textBody none : Parser (List (Option Char)))
  return String.ofList <$> cs.mapM id

/-! ### Values -/

/-- Whether `c` may stand between the tokens of a document. -/
def isSpace (c : Char) : Bool := c = ' ' || c = '\t' || c = '\n' || c = '\r'

/-- Reads with `p` what follows the spaces. -/
def spaced (p : Parser α) : Parser α := do
  let _ ← chars isSpace
  p

/-- What stands for a value that is not fit to be looked at. -/
def unfit : Json := float .nan

/-- Reads a value that is not an array or an object. -/
def scalarValue : Parser Json :=
  (do tag ['n', 'u', 'l', 'l']; return null)
  <|> (do tag ['t', 'r', 'u', 'e']; return bool true)
  <|> (do tag ['f', 'a', 'l', 's', 'e']; return bool false)
  <|> (fun s => (s.map str).getD unfit) <$> text
  <|> Numeral.value <$> numeral

/-- Reads items with `p`, which stand between `opening` and `closing` and commas. -/
def listing (opening : Char) (p : Parser α) (closing : Char) : Parser (List α) := do
  char opening
  let items ← opt (sepBy1 (spaced p) (spaced (char ',')))
  spaced (char closing)
  return items.getD []

/-- Reads a field with `p` for its value. -/
def field (p : Parser Json) : Parser (Option (String × Json)) := do
  let k ← text
  spaced (char ':')
  let v ← spaced p
  return k.map fun k => (k, v)

/-- An object of fields, each of which has to have a key. -/
def ofFields (fields : List (Option (String × Json))) : Json :=
  ((fields.mapM id).map obj).getD unfit

/-- Reads a value in which arrays and objects nest `depth` deep at most. -/
def valueWithin : (depth : Nat) → Parser Json
  | 0         => scalarValue
  | depth + 1 =>
    scalarValue
    <|> arr <$> listing '[' (valueWithin depth) ']'
    <|> ofFields <$> listing '\x7b' (field (valueWithin depth)) '\x7d'

/-- Reads a whole text as one value. -/
def read (s : String) : Option Json :=
  parseAll (do let v ← spaced (valueWithin s.length); let _ ← chars isSpace; return v) s.toList

/-- How deep arrays and objects may nest in a value that is looked at. -/
def maxDepth : Nat := 127

mutual

/-- Whether every number of a value is finite and it nests `depth` deep at most. -/
def isReadable : (depth : Nat) → Json → Bool
  | _,         float x    => x.isFinite
  | 0,         arr _      => false
  | 0,         obj _      => false
  | depth + 1, arr items  => areReadable depth items
  | depth + 1, obj fields => areReadableFields depth fields
  | _,         _          => true

/-- Whether every item of an array is readable. -/
def areReadable (depth : Nat) : List Json → Bool
  | []      => true
  | v :: vs => isReadable depth v && areReadable depth vs

/-- Whether the value of every field of an object is readable. -/
def areReadableFields (depth : Nat) : List (String × Json) → Bool
  | []             => true
  | (_, v) :: rest => isReadable depth v && areReadableFields depth rest

end

/-- Reads a whole text as one value, all of which has to be fit to be looked at. -/
def parse (s : String) : Option Json := (read s).filter (isReadable maxDepth)

end Json

end ApiCompiler
