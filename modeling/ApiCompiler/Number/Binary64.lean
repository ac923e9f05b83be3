/-!
# Number — binary64

A binary64 number as exact data, and the operations that reading and printing need, each of them
the exact result rounded to the nearest number, a tie to the even significand.
-/

namespace ApiCompiler

/-- A number of the binary64 format; a finite one is `± significand · 2 ^ scale · 2 ^ -1074`. -/
inductive Binary64 where
  | finite (negative : Bool) (significand scale : Nat)
  | infinite (negative : Bool)
  | nan
deriving DecidableEq, Repr, Inhabited

namespace Binary64

/-- Significands lie below this bound, and from its half on unless the scale is zero. -/
def bound : Nat := Nat.pow 2 53

/-- How many of the least unit of the format, `2 ^ -1074`, make one. -/
def unitsPerOne : Nat := Nat.pow 2 1074

/-- The scale of the largest numbers. -/
def maxScale : Nat := 2045

/-- `a / d` to the nearest natural number, a tie to the even one. -/
def roundQuotient (a d : Nat) : Nat :=
  let q := a / d
  let r := a % d
  if 2 * r < d ∨ (2 * r = d ∧ q % 2 = 0) then q else q + 1

/-- The number nearest to `± (a / d) · 2 ^ -1074`. -/
def ofUnits (negative : Bool) (a d : Nat) : Binary64 :=
  let p := Nat.log2 (a / d) + 1 - 53
  let m := roundQuotient a (d * Nat.pow 2 p)
  let carried := m == bound
  let p' := if carried then p + 1 else p
  if p' > maxScale then infinite negative
  else finite negative (if carried then bound / 2 else m) p'

/-- The number nearest to `± num / den`. -/
def ofRatio (negative : Bool) (num den : Nat) : Binary64 :=
  ofUnits negative (num * unitsPerOne) den

/-- The number nearest to a natural number. -/
def ofNat (n : Nat) : Binary64 := ofRatio false n 1

/-- How many decimal digits `n` has. -/
def decimalLength (n : Nat) : Nat := (Nat.toDigits 10 n).length

/-- The number nearest to `± digits · 10 ^ exponent`; far outside the format's range it is
infinite or zero without the power being computed. -/
def ofDecimal (negative : Bool) (digits : Nat) (exponent : Int) : Binary64 :=
  let magnitude := decimalLength digits + exponent
  if digits = 0 ∨ magnitude < -330 then finite negative 0 0
  else if magnitude > 330 then infinite negative
  else match exponent with
    | .ofNat e   => ofRatio negative (digits * Nat.pow 10 e) 1
    | .negSucc e => ofRatio negative digits (Nat.pow 10 (e + 1))

/-- Whether the number is an infinity. -/
def isInfinite : Binary64 → Bool
  | infinite _ => true
  | _          => false

/-- Whether the number is neither an infinity nor the undefined one. -/
def isFinite : Binary64 → Bool
  | finite .. => true
  | _         => false

/-- The number with its sign turned. -/
def neg : Binary64 → Binary64
  | finite s m p => finite (!s) m p
  | infinite s   => infinite (!s)
  | nan          => nan

/-- The product of two finite numbers, rounded; anything else is undefined. -/
def mul : Binary64 → Binary64 → Binary64
  | finite s m p, finite t n q => ofUnits (s != t) (m * n * Nat.pow 2 (p + q)) unitsPerOne
  | _, _                       => nan

/-- The quotient of two finite numbers, rounded; division by zero is undefined. -/
def div : Binary64 → Binary64 → Binary64
  | finite s m p, finite t n q =>
    if n = 0 then nan
    else ofUnits (s != t) (m * Nat.pow 2 p * unitsPerOne) (n * Nat.pow 2 q)
  | _, _                       => nan

/-- The number with one zero for both of them, so that equal numbers become the same. -/
def unsignZero : Binary64 → Binary64
  | finite _ 0 _ => finite false 0 0
  | other        => other

end Binary64

end ApiCompiler
