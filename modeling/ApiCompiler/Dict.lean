/-!
# Dictionaries — string keys in order

A dictionary binds each of its keys to one value and lists its bindings by rising key, so two
dictionaries with the same bindings are equal and every listing of one is sorted.

* `find?_insert`: a key that was just bound has its new value, every other key keeps its own.
* `contains_iff_find?`: a key is contained exactly when it has a value.
-/

namespace ApiCompiler

/-- Bindings of string keys, strictly rising. -/
structure Dict (α : Type) where
  toList : List (String × α)
  sorted : toList.Pairwise (fun a b => a.1 < b.1)
deriving DecidableEq

namespace Dict

variable {α β : Type}

theorem lt_or_eq_or_gt (a b : String) : a < b ∨ a = b ∨ b < a := by
  by_cases h : a < b
  · exact .inl h
  by_cases h' : b < a
  · exact .inr (.inr h')
  · exact .inr (.inl (String.le_antisymm (String.not_lt.1 h') (String.not_lt.1 h)))

/-- Where `k` belongs in a rising list: its binding is replaced, or a new one is put in place. -/
def insertList (k : String) (v : α) : List (String × α) → List (String × α)
  | []            => [(k, v)]
  | (l, w) :: rest =>
    if k < l then (k, v) :: (l, w) :: rest
    else if k = l then (k, v) :: rest
    else (l, w) :: insertList k v rest

theorem mem_insertList {k : String} {v : α} {xs : List (String × α)} {p : String × α}
    (h : p ∈ insertList k v xs) : p = (k, v) ∨ p ∈ xs := by
  induction xs with
  | nil => exact .inl (by simpa [insertList] using h)
  | cons x rest ih =>
    obtain ⟨l, w⟩ := x
    simp only [insertList] at h
    split at h
    · rcases List.mem_cons.1 h with h | h
      · exact .inl h
      · exact .inr h
    · split at h
      · rcases List.mem_cons.1 h with h | h
        · exact .inl h
        · exact .inr (List.mem_cons_of_mem _ h)
      · rcases List.mem_cons.1 h with h | h
        · exact .inr (h ▸ List.mem_cons_self)
        · rcases ih h with h | h
          · exact .inl h
          · exact .inr (List.mem_cons_of_mem _ h)

theorem sorted_insertList (k : String) (v : α) {xs : List (String × α)}
    (h : xs.Pairwise (fun a b => a.1 < b.1)) :
    (insertList k v xs).Pairwise (fun a b => a.1 < b.1) := by
  induction xs with
  | nil => simp [insertList]
  | cons x rest ih =>
    obtain ⟨l, w⟩ := x
    obtain ⟨hl, hr⟩ := List.pairwise_cons.1 h
    simp only [insertList]
    split
    · next hk =>
      refine List.pairwise_cons.2 ⟨fun p hp => ?_, h⟩
      rcases List.mem_cons.1 hp with rfl | hp
      · exact hk
      · exact String.lt_trans hk (hl p hp)
    · next hk =>
      split
      · next he =>
        subst he
        exact List.pairwise_cons.2 ⟨hl, hr⟩
      · next he =>
        refine List.pairwise_cons.2 ⟨fun p hp => ?_, ih hr⟩
        rcases mem_insertList hp with rfl | hp
        · rcases lt_or_eq_or_gt k l with h' | h' | h'
          · exact absurd h' hk
          · exact absurd h' he
          · exact h'
        · exact hl p hp

/-- The dictionary without bindings. -/
def empty : Dict α := ⟨[], .nil⟩

instance : EmptyCollection (Dict α) := ⟨empty⟩

instance : Inhabited (Dict α) := ⟨empty⟩

/-- Binds `k` to `v`, in place of any earlier value of `k`. -/
def insert (d : Dict α) (k : String) (v : α) : Dict α :=
  ⟨insertList k v d.toList, sorted_insertList k v d.sorted⟩

/-- The value of `k` in a list of bindings, the first if there are several. -/
def findList? (k : String) : List (String × α) → Option α
  | []             => none
  | (l, v) :: rest => if k = l then some v else findList? k rest

/-- The value bound to `k`. -/
def find? (d : Dict α) (k : String) : Option α := findList? k d.toList

/-- Whether `k` is bound. -/
def contains (d : Dict α) (k : String) : Bool := (d.find? k).isSome

/-- The keys, rising. -/
def keys (d : Dict α) : List String := d.toList.map (·.1)

/-- The values, by rising key. -/
def values (d : Dict α) : List α := d.toList.map (·.2)

/-- How many keys are bound. -/
def size (d : Dict α) : Nat := d.toList.length

/-- Whether no key is bound. -/
def isEmpty (d : Dict α) : Bool := d.toList.isEmpty

/-- Binds `k` to `f` of its value; a key without a value stays without one. -/
def modify (d : Dict α) (k : String) (f : α → α) : Dict α :=
  match d.find? k with
  | some v => d.insert k (f v)
  | none   => d

/-- Binds pairs from left to right, so that the last value of a repeated key stays. -/
def insertMany (d : Dict α) (pairs : List (String × α)) : Dict α :=
  pairs.foldl (fun d p => d.insert p.1 p.2) d

/-- The dictionary of a list of pairs, the last value of a repeated key. -/
def ofList (pairs : List (String × α)) : Dict α := empty.insertMany pairs

/-- Every value replaced by its image under `f`, which may use the key. -/
def mapValues (f : String → α → β) (d : Dict α) : Dict β where
  toList := d.toList.map fun p => (p.1, f p.1 p.2)
  sorted := List.pairwise_map.2 d.sorted

theorem findList?_insertList_self (k : String) (v : α) (xs : List (String × α)) :
    findList? k (insertList k v xs) = some v := by
  induction xs with
  | nil => simp [insertList, findList?]
  | cons x rest ih =>
    obtain ⟨l, w⟩ := x
    simp only [insertList]
    split
    · simp [findList?]
    · split
      · simp [findList?]
      · next he => simp [findList?, he, ih]

theorem findList?_insertList_of_ne {k l : String} (h : l ≠ k) (v : α) (xs : List (String × α)) :
    findList? l (insertList k v xs) = findList? l xs := by
  induction xs with
  | nil => simp [insertList, findList?, h]
  | cons x rest ih =>
    obtain ⟨m, w⟩ := x
    simp only [insertList]
    split
    · simp [findList?, h]
    · split
      · next he => subst he; simp [findList?, h]
      · by_cases hm : l = m
        · simp [findList?, hm]
        · simp [findList?, hm, ih]

/-- A key has the value it was last bound to, and other keys keep theirs. -/
theorem find?_insert (d : Dict α) (k l : String) (v : α) :
    (d.insert k v).find? l = if l = k then some v else d.find? l := by
  by_cases h : l = k
  · subst h
    simp [find?, insert, findList?_insertList_self]
  · simp [find?, insert, h, findList?_insertList_of_ne h]

theorem contains_iff_find? {d : Dict α} {k : String} :
    d.contains k = true ↔ ∃ v, d.find? k = some v := by
  simp [contains, Option.isSome_iff_exists]

theorem contains_insert (d : Dict α) (k l : String) (v : α) :
    (d.insert k v).contains l = (decide (l = k) || d.contains l) := by
  by_cases h : l = k <;> simp [contains, find?_insert, h]

end Dict

end ApiCompiler
