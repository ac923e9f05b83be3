import ApiCompiler.Number.Binary64

/-!
# Number — decimal text

* `Binary64.shortest`: the fewest decimal digits that read back as the number, and of those the
  nearest to it.
* `Tie`: which of two decimals that are equally near is taken.
* `Layout`: where the point stands, and from where on an exponent is written.
-/

namespace ApiCompiler

/-- Which of two neighbours is taken for a number in the middle between them. -/
inductive Tie where
  | upper
  | even
deriving DecidableEq, Repr, Inhabited

/-- The nearer of `k` and `k + 1` to `k + r / d`. -/
def Tie.nearer (tie : Tie) (k r d : Nat) : Nat :=
  if 2 * r < d ∨ (2 * r = d ∧ tie = .even ∧ k % 2 = 0) then k else k + 1

namespace Binary64

/-- The exponent of the first decimal digit of `num / den`, which is positive. -/
def leadingExponent (num den : Nat) : Int :=
  if den ≤ num then (decimalLength (num / den) : Int) - 1
  else
    let k := decimalLength (den / num)
    if den ≤ num * Nat.pow 10 (k - 1) then -((k : Int) - 1) else -(k : Int)

/-- `num / den` in units of `10 ^ e`, as a numerator and a denominator. -/
def inUnitsOf (num den : Nat) : Int → Nat × Nat
  | .ofNat e   => (num, den * Nat.pow 10 e)
  | .negSucc e => (num * Nat.pow 10 (e + 1), den)

/-- A decimal number: `digits · 10 ^ exponent`. -/
structure Digits where
  digits   : Nat
  exponent : Int
deriving DecidableEq, Repr

/-- The interval of values that round to a positive number, in quarters of its last place. -/
structure Neighbourhood where
  low      : Nat
  value    : Nat
  high     : Nat
  den      : Nat
  closed   : Bool

/-- The values that round to `m · 2 ^ p · 2 ^ -1074`: half a place to each side, a quarter
downwards where the places below are half as wide, and the ends themselves if `m` is even. -/
def neighbourhood (m p : Nat) : Neighbourhood where
  low    := (if m = bound / 2 ∧ 0 < p then 4 * m - 1 else 4 * m - 2) * Nat.pow 2 p
  value  := 4 * m * Nat.pow 2 p
  high   := (4 * m + 2) * Nat.pow 2 p
  den    := 4 * unitsPerOne
  closed := m % 2 == 0

/-- Whether `k · 10 ^ e` rounds to the number. -/
def Neighbourhood.holds (b : Neighbourhood) (k : Nat) (e : Int) : Bool :=
  let (low, den)  := inUnitsOf b.low b.den e
  let (high, _)   := inUnitsOf b.high b.den e
  if b.closed then low ≤ k * den && k * den ≤ high else low < k * den && k * den < high

/-- The nearer of the two multiples of `10 ^ e` around the number that round to it. -/
def Neighbourhood.nearest? (b : Neighbourhood) (tie : Tie) (e : Int) : Option Nat :=
  let (num, den) := inUnitsOf b.value b.den e
  -- the number lies from `k` up to `k + 1`
  let k := num / den
  match b.holds k e, b.holds (k + 1) e with
  | true,  true  => some (tie.nearer k (num % den) den)
  | true,  false => some k
  | false, true  => some (k + 1)
  | false, false => none

/-- The first grid, from `e` downwards, on which a multiple rounds to the number. -/
def Neighbourhood.firstGrid (b : Neighbourhood) (tie : Tie) : Nat → Int → Digits
  | 0,         e => ⟨(inUnitsOf b.value b.den e).1 / (inUnitsOf b.value b.den e).2, e⟩
  | grids + 1, e =>
    match b.nearest? tie e with
    | some k => ⟨k, e⟩
    | none   => b.firstGrid tie grids (e - 1)

/-- Moves the zeros at the end of the digits, at most `count` of them, into the exponent. -/
def Digits.strip : Nat → Digits → Digits
  | 0,         d => d
  | count + 1, d =>
    if d.digits % 10 = 0 ∧ d.digits ≠ 0 then Digits.strip count ⟨d.digits / 10, d.exponent + 1⟩
    else d

/-- The shortest digits of `m · 2 ^ p · 2 ^ -1074`; seventeen always suffice. -/
def shortest (tie : Tie) (m p : Nat) : Digits :=
  if m = 0 then ⟨0, 0⟩
  else
    let b := neighbourhood m p
    -- a hit may end in zeros, which belong into the exponent
    (b.firstGrid tie 17 (leadingExponent b.value b.den)).strip 20

end Binary64

/-- How the digits of a number are laid out. -/
structure Layout where
  /-- Positional notation is used while the point stands right of `low` and not right of `high`
  places after the first digit; without bounds it always is. -/
  positional : Option (Int × Int)
  /-- What ends a whole number in positional notation. -/
  wholeEnd : String
  /-- Which of two shortest decimals is written that are equally near. -/
  tie : Tie

namespace Layout

/-- Every place is written, and a whole number has no point. -/
def plain : Layout := ⟨none, "", .upper⟩

/-- A number always has a point or an exponent, and an exponent from sixteen places on. -/
def pointed : Layout := ⟨some (-5, 16), ".0", .even⟩

/-- `n` zeros. -/
def zeros (n : Nat) : List Char := List.replicate n '0'

/-- Whether digits whose point stands at `point` are written positionally. -/
def isPositional (l : Layout) (point : Int) : Bool :=
  match l.positional with
  | none             => true
  | some (low, high) => low < point && point ≤ high

/-- The digits with a point after `point` of them. -/
def placed (l : Layout) (digits : List Char) (point : Int) : List Char :=
  if point ≤ 0 then ['0', '.'] ++ zeros (-point).toNat ++ digits
  else if (digits.length : Int) ≤ point then
    digits ++ zeros (point - digits.length).toNat ++ l.wholeEnd.toList
  else digits.take point.toNat ++ '.' :: digits.drop point.toNat

/-- A whole number with its sign, whichever it is. -/
def signed (n : Int) : List Char :=
  if n < 0 then (toString n).toList else '+' :: (toString n).toList

/-- The digits with a point after the first of them and an exponent. -/
def scientific (digits : List Char) (point : Int) : List Char :=
  let mantissa := match digits with
    | c :: d :: r => c :: '.' :: d :: r
    | short       => short
  mantissa ++ 'e' :: signed (point - 1)

/-- The text of a number. -/
def write (l : Layout) : Binary64 → String
  | .nan            => "NaN"
  | .infinite true  => "-inf"
  | .infinite false => "inf"
  | .finite s m p   =>
    let d      := Binary64.shortest l.tie m p
    let digits := Nat.toDigits 10 d.digits
    let point  := digits.length + d.exponent
    let body   := if l.isPositional point then l.placed digits point else scientific digits point
    String.ofList (if s then '-' :: body else body)

end Layout

/-- The text of a number with every place written out. -/
def Binary64.toText (x : Binary64) : String := Layout.plain.write x

end ApiCompiler
