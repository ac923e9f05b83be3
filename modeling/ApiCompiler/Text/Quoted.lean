import ApiCompiler.Text.Unprintable

/-!
# Text — quoted text

A quoted text stands between double quotes. Quotes, backslashes and the usual controls have a
short escape, any other character without a glyph of its own is written by its number.
-/

namespace ApiCompiler.Text

/-- The digits of `n` to base 16, in lower case. -/
def hexDigits (n : Nat) : List Char := Nat.toDigits 16 n

/-- The number of `c` between braces, to base 16. -/
def escapeByNumber (c : Char) : List Char :=
  ['\\', 'u', '\x7b'] ++ hexDigits c.toNat ++ ['\x7d']

/-- How `c` is written inside a quoted text. -/
def escapeChar (c : Char) : List Char :=
  if c = '"' then ['\\', '"']
  else if c = '\\' then ['\\', '\\']
  else if c = '\n' then ['\\', 'n']
  else if c = '\r' then ['\\', 'r']
  else if c = '\t' then ['\\', 't']
  else if c.toNat = 0 then ['\\', '0']
  else if isCombining c || isUnprintable c then escapeByNumber c
  else [c]

/-- The quoted form of a list of characters. -/
def quoteChars (s : List Char) : List Char := '"' :: s.flatMap escapeChar ++ ['"']

/-- The quoted form of a text. -/
def quote (s : String) : String := String.ofList (quoteChars s.toList)

end ApiCompiler.Text
