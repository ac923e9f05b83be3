import ApiCompiler.Text.CaseTable

/-!
# Text — letter case

* `upperChar`, `lowerChar`: the full case mapping of one character, which may have several.
* `capitalize`, `lowerFirst`: the mapping of a text's first character alone.
* `lowercase`: the mapping of a whole text, where a capital sigma that ends a word becomes `ς`.
* `asciiUppercase`: the mapping of the letters `a` to `z` alone.
-/

namespace ApiCompiler.Text

/-- The image of a code point under the first run that holds it. -/
def shift (runs : List CaseRun) (n : Nat) : Nat :=
  match runs.find? fun r => r.first ≤ n && n ≤ r.last && (n - r.first) % r.step == 0 with
  | some r => (n + r.shift).toNat
  | none   => n

/-- The characters that `c` becomes: those of its expansion, or its image under a run. -/
def mapCase (runs : List CaseRun) (expansions : List (Nat × List Nat)) (c : Char) : List Char :=
  match expansions.find? (·.1 == c.toNat) with
  | some e => e.2.map Char.ofNat
  | none   => [Char.ofNat (shift runs c.toNat)]

/-- The upper case of `c`. -/
def upperChar (c : Char) : List Char :=
  if c.toNat < 0x80 then [c.toUpper] else mapCase upperRuns upperExpansions c

/-- The lower case of `c`. -/
def lowerChar (c : Char) : List Char :=
  if c.toNat < 0x80 then [c.toLower] else mapCase lowerRuns lowerExpansions c

/-- A text with its first character in upper case. -/
def capitalize (s : String) : String :=
  match s.toList with
  | []     => ""
  | c :: r => String.ofList (upperChar c ++ r)

/-- A text with its first character in lower case. -/
def lowerFirst (s : String) : String :=
  match s.toList with
  | []     => ""
  | c :: r => String.ofList (lowerChar c ++ r)

/-- Whether the first character of `s` that case does not ignore is a cased one. -/
def startsCased (s : List Char) : Bool :=
  match s.dropWhile (inRanges caseIgnorableRanges) with
  | []     => false
  | c :: _ => inRanges casedRanges c

/-- The lower case of `s`, which follows the text `before`, given last character first. -/
def lowercaseAfter (before : List Char) : List Char → List Char
  | []     => []
  | c :: r =>
    let image := if c = 'Σ' ∧ startsCased before ∧ ¬ startsCased r then ['ς'] else lowerChar c
    image ++ lowercaseAfter (c :: before) r

/-- A text in lower case. -/
def lowercase (s : String) : String := String.ofList (lowercaseAfter [] s.toList)

/-- A text with the letters `a` to `z` in upper case. -/
def asciiUppercase (s : String) : String := String.ofList (s.toList.map Char.toUpper)

end ApiCompiler.Text
