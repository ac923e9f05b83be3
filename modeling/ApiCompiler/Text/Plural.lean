/-!
# Text — plural forms

The plural of a name by its ending: `y` after a consonant becomes `ies`, a hissing ending takes
`es`, and any other ending `s`.
-/

namespace ApiCompiler.Text

/-- Whether `c` is a vowel, in either case. -/
def isVowel (c : Char) : Bool := "aeiouAEIOU".toList.contains c

/-- Whether a name ends in `y` after a consonant, or is `y` alone; it is given last character
first. -/
def endsConsonantY : List Char → Bool
  | ['y']        => true
  | 'y' :: c :: _ => !isVowel c
  | _            => false

/-- Whether a name ends in `s`, `x`, `ch` or `sh`; it is given last character first. -/
def endsHissing : List Char → Bool
  | 's' :: _        => true
  | 'x' :: _        => true
  | 'h' :: 'c' :: _ => true
  | 'h' :: 's' :: _ => true
  | _               => false

/-- The plural of a name. -/
def plural (s : String) : String :=
  let r := s.toList.reverse
  if endsConsonantY r then String.ofList s.toList.dropLast ++ "ies"
  else if endsHissing r then s ++ "es"
  else s ++ "s"

end ApiCompiler.Text
