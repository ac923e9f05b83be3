import ApiCompiler.Number.Binary64

/-!
# Number — reading a whole text

* `readInteger?`: decimal digits with an optional sign, within 64 bits.
* `readFloat?`: digits with an optional fraction and exponent, of which the mantissa has at least
  one digit, or a name of an infinity or of the undefined number in any letter case.
-/

namespace ApiCompiler.Number

/-- The sign that a text starts with, true for a minus, and what follows it. -/
def splitSign : List Char → Bool × List Char
  | '-' :: r => (true, r)
  | '+' :: r => (false, r)
  | s        => (false, s)

/-- The value of a decimal digit. -/
def digitValue (c : Char) : Nat := c.toNat - '0'.toNat

/-- The number of a run of decimal digits. -/
def digitsValue (digits : List Char) : Nat :=
  digits.foldl (fun n c => 10 * n + digitValue c) 0

/-- The bound of the whole numbers of 64 bits with a sign. -/
def wordBound : Int := 9223372036854775808

/-- Whether `n` fits 64 bits with a sign. -/
def fitsWord (n : Int) : Bool := -wordBound ≤ n && n < wordBound

/-- The number of a text that is nothing but digits. -/
def readDigits? (s : List Char) : Option Nat :=
  if !s.isEmpty && s.all Char.isDigit then some (digitsValue s) else none

/-- The whole number of 64 bits that a text denotes. -/
def readInteger? (s : List Char) : Option Int := do
  let (negative, digits) := splitSign s
  let n ← readDigits? digits
  let v : Int := if negative then -n else n
  if fitsWord v then some v else none

/-- The exponent that a text, which follows a mantissa, denotes. -/
def readExponent? : List Char → Option Int
  | []     => some 0
  | c :: r => do
    if c = 'e' ∨ c = 'E' then
      let (negative, digits) := splitSign r
      let n ← readDigits? digits
      return if negative then -n else n
    else none

/-- The float that digits with an optional fraction and exponent denote. -/
def readDecimal? (negative : Bool) (s : List Char) : Option Binary64 := do
  let whole := s.takeWhile Char.isDigit
  let (fraction, rest) := match s.dropWhile Char.isDigit with
    | '.' :: r => (r.takeWhile Char.isDigit, r.dropWhile Char.isDigit)
    | r        => ([], r)
  if whole.isEmpty && fraction.isEmpty then none
  else
    let exponent ← readExponent? rest
    return .ofDecimal negative (digitsValue (whole ++ fraction)) (exponent - fraction.length)

/-- The float that a name denotes. -/
def readNamed? (negative : Bool) (s : List Char) : Option Binary64 :=
  let name := s.map Char.toLower
  if name = "inf".toList ∨ name = "infinity".toList then some (.infinite negative)
  else if name = "nan".toList then some .nan
  else none

/-- The float that a text denotes. -/
def readFloat? (s : List Char) : Option Binary64 :=
  let (negative, body) := splitSign s
  readDecimal? negative body <|> readNamed? negative body

end ApiCompiler.Number
