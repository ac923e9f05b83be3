/-!
# Parser — reading a text from the left

A parser takes a text to what it has read and the rest, or to nothing, in which case no part of
the text counts as read.

* `many_cons`, `many_nil`: a repetition reads items while they come and each takes a part of the
  text.
* `char_cons`, `tag_append`: a literal is read off the front of a text.
-/

namespace ApiCompiler

/-- Reads a value off the front of a text. -/
abbrev Parser := StateT (List Char) Option

namespace Parser

variable {α β : Type}

/-- Reads a character with the property `p`. -/
def satisfy (p : Char → Bool) : Parser Char
  | []     => none
  | c :: r => if p c then some (c, r) else none

/-- Reads the character `c`. -/
def char (c : Char) : Parser Unit
  | []     => none
  | d :: r => if d = c then some ((), r) else none

/-- Reads the characters of `expected`, without regard to what follows them. -/
def tag (expected : List Char) : Parser Unit :=
  match expected with
  | []     => pure ()
  | c :: r => do char c; tag r

/-- Reads the longest run of characters with the property `p`, which may be empty. -/
def chars (p : Char → Bool) : Parser (List Char)
  | s => some (s.takeWhile p, s.dropWhile p)

/-- Reads the longest run of characters with the property `p`, at least one. -/
def chars1 (p : Char → Bool) : Parser (List Char) := do
  let c ← satisfy p
  let r ← chars p
  return c :: r

/-- Reads what `p` reads, or nothing. -/
def opt (p : Parser α) : Parser (Option α) := (some <$> p) <|> pure none

/-- What a repetition of `p` reads off a text, and the rest. -/
def collect (p : Parser α) (s : List Char) : List α × List Char :=
  match p s with
  | none        => ([], s)
  | some (a, r) =>
    if r.length < s.length then
      let (as, t) := collect p r
      (a :: as, t)
    else ([], s)
termination_by s.length

/-- Reads items with `p` until it reads none, or takes no part of the text. -/
def many (p : Parser α) : Parser (List α) := fun s => some (collect p s)

/-- Reads items with `p`, at least one. -/
def many1 (p : Parser α) : Parser (List α) := do
  let a  ← p
  let as ← many p
  return a :: as

/-- Reads items with `p`, at least one, and what `sep` reads before each item but the first. -/
def sepBy1 (p : Parser α) (sep : Parser β) : Parser (List α) := do
  let a  ← p
  let as ← many (do let _ ← sep; p)
  return a :: as

/-- Reads what `p` reads between `opening` and `closing`. -/
def between (opening : Parser Unit) (p : Parser α) (closing : Parser Unit) : Parser α := do
  opening
  let a ← p
  closing
  return a

/-- Reads the whole text with `p`. -/
def parseAll (p : Parser α) (s : List Char) : Option α :=
  match p s with
  | some (a, []) => some a
  | _            => none

@[simp] theorem char_cons (c : Char) (r : List Char) : char c (c :: r) = some ((), r) := by
  simp [char]

theorem char_eq_some_iff {c : Char} {s r : List Char} :
    char c s = some ((), r) ↔ s = c :: r := by
  cases s with
  | nil => simp [char]
  | cons d t => simp only [char]; split <;> simp_all

theorem tag_append (w r : List Char) : tag w (w ++ r) = some ((), r) := by
  induction w with
  | nil => rfl
  | cons c t ih =>
    simp only [tag, List.cons_append]
    show StateT.bind (char c) (fun _ => tag t) (c :: (t ++ r)) = _
    simp [StateT.bind, ih]

/-- A repetition goes on after an item that took a part of the text. -/
theorem many_cons {p : Parser α} {a : α} {s r : List Char} (h : p s = some (a, r))
    (hr : r.length < s.length) :
    many p s = (many p r).map fun x => (a :: x.1, x.2) := by
  simp only [many, Option.map_some]
  rw [collect]
  simp [h, hr]

/-- A repetition ends where no item comes. -/
theorem many_nil {p : Parser α} {s : List Char} (h : p s = none) : many p s = some ([], s) := by
  simp only [many]
  rw [collect]
  simp [h]

end Parser

end ApiCompiler
