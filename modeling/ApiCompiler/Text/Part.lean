/-!
# Text — parts of a text

* `containsPart`, `replaceAll`: occurrences of a pattern, from the left and without overlap.
* `splitAtFirst`: the parts before and after the first occurrence of a character.
-/

namespace ApiCompiler.Text

/-- Whether `pattern` occurs in the text. -/
def containsPart (pattern : List Char) : List Char → Bool
  | []     => pattern.isEmpty
  | c :: r => pattern.isPrefixOf (c :: r) || containsPart pattern r

/-- Replaces occurrences of `pattern`; the first `skip` characters belong to one just replaced. -/
def replaceAfter (pattern replacement : List Char) (skip : Nat) : List Char → List Char
  | []     => []
  | c :: r =>
    match skip with
    | n + 1 => replaceAfter pattern replacement n r
    | 0     =>
      if pattern.isPrefixOf (c :: r) then
        replacement ++ replaceAfter pattern replacement (pattern.length - 1) r
      else c :: replaceAfter pattern replacement 0 r

/-- The text with every occurrence of the non-empty `pattern` replaced, from the left. -/
def replaceAll (pattern replacement : List Char) (s : List Char) : List Char :=
  replaceAfter pattern replacement 0 s

/-- What stands before and after the first `mark`, where there is one. -/
def splitAtFirst (mark : Char) (s : List Char) : Option (List Char × List Char) :=
  match s.dropWhile (· != mark) with
  | []     => none
  | _ :: r => some (s.takeWhile (· != mark), r)

/-- The part in front of the first mark has no mark. -/
theorem splitAtFirst_append {mark : Char} {a : List Char} (h : mark ∉ a) (b : List Char) :
    splitAtFirst mark (a ++ mark :: b) = some (a, b) := by
  have plain : ∀ c ∈ a, (c != mark) = true := fun c hc => by
    rw [bne_iff_ne]
    rintro rfl
    exact h hc
  rw [splitAtFirst, List.dropWhile_append_of_pos plain, List.takeWhile_append_of_pos plain]
  simp

/-- The two parts and the mark between them are the text. -/
theorem append_of_splitAtFirst {mark : Char} {s a b : List Char}
    (h : splitAtFirst mark s = some (a, b)) : a ++ mark :: b = s := by
  have happ := List.takeWhile_append_dropWhile (p := (· != mark)) (l := s)
  unfold splitAtFirst at h
  split at h
  · cases h
  · next c r hd =>
    have hc : (c != mark) = false := by
      have := List.head?_dropWhile_not (· != mark) s
      simpa [hd] using this
    obtain ⟨rfl, rfl⟩ := Prod.mk.inj (Option.some.inj h)
    have hcm : c = mark := by simpa using hc
    rw [hd, hcm] at happ
    exact happ

end ApiCompiler.Text
