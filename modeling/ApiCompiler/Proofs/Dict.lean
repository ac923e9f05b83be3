import ApiCompiler.Dict

/-!
# Dictionaries — look-up and listing

* `mem_toList_iff`: the bindings that are listed are those that are found.
* `ext_find?`: two dictionaries in which the same is found are equal.
* `find?_insertMany`: of the pairs that are bound in turn, the last one of a key is found.
* `find?_ofList`, `ofList_toList`: a dictionary is the one of its bindings.
* `find?_mapValues`: what is found when every value is replaced.
* `restrict_congr`: what is left of two dictionaries in which the same is found at some keys.
-/

namespace ApiCompiler.Dict

variable {α β : Type}

/-- Where no key comes twice, what is listed under a key is found there. -/
theorem findList?_of_nodup {xs : List (String × α)} (h : (xs.map (·.1)).Nodup) {k : String}
    {v : α} (hm : (k, v) ∈ xs) : findList? k xs = some v := by
  induction xs with
  | nil => cases hm
  | cons x rest ih =>
    obtain ⟨l, w⟩ := x
    obtain ⟨hl, hr⟩ := List.nodup_cons.1 h
    rcases List.mem_cons.1 hm with he | hrest
    · cases he
      exact if_pos rfl
    · have hne : k ≠ l := by
        rintro rfl
        exact hl (List.mem_map.2 ⟨_, hrest, rfl⟩)
      rw [findList?, if_neg hne]
      exact ih hr hrest

theorem mem_of_findList? {xs : List (String × α)} {k : String} {v : α}
    (h : findList? k xs = some v) : (k, v) ∈ xs := by
  induction xs with
  | nil => cases h
  | cons x rest ih =>
    obtain ⟨l, w⟩ := x
    rw [findList?] at h
    split at h
    · next he =>
      cases h
      exact he ▸ List.mem_cons_self
    · exact List.mem_cons_of_mem _ (ih h)

@[simp] theorem findList?_append (k : String) (xs ys : List (String × α)) :
    findList? k (xs ++ ys) = (findList? k xs).or (findList? k ys) := by
  induction xs with
  | nil => rfl
  | cons x rest ih =>
    rw [List.cons_append, findList?, findList?]
    split
    · rfl
    · exact ih

/-- What is listed under a key first is what the first part that lists the key has there. -/
theorem findList?_flatMap (k : String) (f : β → List (String × α)) (xs : List β) :
    findList? k (xs.flatMap f) = xs.findSome? fun x => findList? k (f x) := by
  induction xs with
  | nil => rfl
  | cons x rest ih =>
    rw [List.flatMap_cons, findList?_append, ih, List.findSome?_cons]
    cases findList? k (f x) <;> rfl

theorem map_findList?_map {γ : Type} (k : String) (g : α → γ) (f : β → String × α) (xs : List β) :
    (findList? k (xs.map f)).map g
      = xs.findSome? fun x => if k = (f x).1 then some (g (f x).2) else none := by
  induction xs with
  | nil => rfl
  | cons x rest ih =>
    rw [List.map_cons, findList?, List.findSome?_cons]
    split
    · rfl
    · exact ih

theorem findList?_eq_none_iff {k : String} {xs : List (String × α)} :
    findList? k xs = none ↔ k ∉ xs.map (·.1) := by
  induction xs with
  | nil => simp [findList?]
  | cons x rest ih =>
    rw [findList?, List.map_cons, List.mem_cons, not_or]
    split
    · next he => exact iff_of_false (Option.some_ne_none _) fun h => h.1 he
    · next hne => rw [ih, and_iff_right hne]

/-- What a list has a key of is found. -/
theorem exists_findList? {k : String} {xs : List (String × α)} (h : k ∈ xs.map (·.1)) :
    ∃ v, findList? k xs = some v :=
  Option.ne_none_iff_exists'.1 fun hn => findList?_eq_none_iff.1 hn h

theorem sorted_keys (d : Dict α) : d.keys.Pairwise (· < ·) :=
  List.pairwise_map.2 d.sorted

theorem nodup_keys (d : Dict α) : d.keys.Nodup := by
  refine d.sorted_keys.imp fun {a b} hlt he => ?_
  subst he
  exact String.lt_irrefl a hlt

/-- What is listed under a key is what is found there. -/
theorem mem_toList_iff {d : Dict α} {k : String} {v : α} :
    (k, v) ∈ d.toList ↔ d.find? k = some v :=
  ⟨findList?_of_nodup d.nodup_keys, mem_of_findList?⟩

theorem mem_values_iff {d : Dict α} {v : α} : v ∈ d.values ↔ ∃ k, d.find? k = some v := by
  rw [values, List.mem_map]
  constructor
  · rintro ⟨⟨k, v⟩, hm, rfl⟩
    exact ⟨k, mem_toList_iff.1 hm⟩
  · rintro ⟨k, hk⟩
    exact ⟨(k, v), mem_toList_iff.2 hk, rfl⟩

theorem mem_keys_iff {d : Dict α} {k : String} : k ∈ d.keys ↔ d.contains k = true := by
  rw [keys, List.mem_map, contains_iff_find?]
  constructor
  · rintro ⟨⟨k, v⟩, hm, rfl⟩
    exact ⟨v, mem_toList_iff.1 hm⟩
  · rintro ⟨v, hv⟩
    exact ⟨(k, v), mem_toList_iff.2 hv, rfl⟩

/-- Two dictionaries in which the same is found are equal. -/
theorem ext_find? {d e : Dict α} (h : ∀ k, d.find? k = e.find? k) : d = e := by
  have hmem : ∀ p, p ∈ d.toList ↔ p ∈ e.toList := fun p => by
    rw [mem_toList_iff, mem_toList_iff, h]
  have nodup : ∀ f : Dict α, f.toList.Nodup := fun f => by
    refine f.sorted.imp fun {a b} hlt he => ?_
    subst he
    exact String.lt_irrefl _ hlt
  have hperm : d.toList.Perm e.toList := (List.perm_ext_iff_of_nodup (nodup d) (nodup e)).2 hmem
  have hlist : d.toList = e.toList :=
    hperm.eq_of_pairwise (fun a b _ _ hab hba => absurd (String.lt_trans hab hba)
      (String.lt_irrefl _)) d.sorted e.sorted
  cases d
  cases e
  cases hlist
  rfl

/-- To bind a key to the value that it has changes nothing. -/
theorem insert_eq_self {d : Dict α} {k : String} {v : α} (h : d.find? k = some v) :
    d.insert k v = d := by
  refine ext_find? fun l => ?_
  rw [find?_insert]
  split
  · next he => rw [he, h]
  · rfl

/-- The last value of a key in a list of pairs. -/
def lastIn? (k : String) (pairs : List (String × α)) : Option α :=
  ((pairs.filter (·.1 = k)).getLast?).map (·.2)

@[simp] theorem lastIn?_nil (k : String) : lastIn? k ([] : List (String × α)) = none := rfl

@[simp] theorem lastIn?_append (k : String) (xs ys : List (String × α)) :
    lastIn? k (xs ++ ys) = (lastIn? k ys).or (lastIn? k xs) := by
  rw [lastIn?, lastIn?, lastIn?, List.filter_append, List.getLast?_append, Option.map_or]

@[simp] theorem lastIn?_singleton (k : String) (p : String × α) :
    lastIn? k [p] = if p.1 = k then some p.2 else none := by
  by_cases h : p.1 = k <;> simp [lastIn?, h]

theorem lastIn?_eq_none_iff {k : String} {pairs : List (String × α)} :
    lastIn? k pairs = none ↔ k ∉ pairs.map (·.1) := by
  rw [lastIn?, Option.map_eq_none_iff, List.getLast?_eq_none_iff, List.filter_eq_nil_iff]
  simp only [decide_eq_true_eq, List.mem_map, not_exists, not_and]

theorem exists_lastIn? {k : String} {pairs : List (String × α)} (h : k ∈ pairs.map (·.1)) :
    ∃ v, lastIn? k pairs = some v :=
  Option.ne_none_iff_exists'.1 fun hn => lastIn?_eq_none_iff.1 hn h

/-- Of the pairs that are bound in turn, the last one of a key is found. -/
theorem find?_insertMany (d : Dict α) (pairs : List (String × α)) (k : String) :
    (d.insertMany pairs).find? k = (lastIn? k pairs).or (d.find? k) := by
  induction pairs generalizing d with
  | nil => rfl
  | cons p pairs ih =>
    have hcons : p :: pairs = [p] ++ pairs := rfl
    rw [hcons, lastIn?_append, lastIn?_singleton]
    change ((d.insert p.1 p.2).insertMany pairs).find? k = _
    rw [ih, find?_insert, Option.or_assoc]
    by_cases h : k = p.1
    · rw [if_pos h, if_pos h.symm, Option.some_or]
    · rw [if_neg h, if_neg fun he => h he.symm, Option.none_or]

theorem mem_of_lastIn? {k : String} {v : α} {pairs : List (String × α)}
    (h : lastIn? k pairs = some v) : (k, v) ∈ pairs := by
  obtain ⟨⟨l, w⟩, hp, rfl⟩ := Option.map_eq_some_iff.1 h
  obtain ⟨hm, hl⟩ := List.mem_filter.1 (List.mem_of_getLast? hp)
  exact of_decide_eq_true hl ▸ hm

/-- What is found in the dictionary of a list of pairs is the last value of the key. -/
theorem find?_ofList (pairs : List (String × α)) (k : String) :
    (ofList pairs).find? k = lastIn? k pairs :=
  (find?_insertMany empty pairs k).trans Option.or_none

theorem mem_of_mem_ofList {pairs : List (String × α)} {p : String × α}
    (h : p ∈ (ofList pairs).toList) : p ∈ pairs :=
  mem_of_lastIn? ((find?_ofList pairs p.1).symm.trans (mem_toList_iff.1 h))

/-- A dictionary is the one of its bindings. -/
theorem ofList_toList (d : Dict α) : ofList d.toList = d := by
  refine ext_find? fun k => ?_
  rw [find?_ofList]
  cases h : lastIn? k d.toList with
  | some v => exact (mem_toList_iff.1 (mem_of_lastIn? h)).symm
  | none =>
    cases hk : d.find? k with
    | none => rfl
    | some v =>
      have hkey : k ∈ d.toList.map (·.1) := List.mem_map_of_mem (mem_toList_iff.2 hk)
      exact absurd hkey (lastIn?_eq_none_iff.1 h)

/-- The keys of the dictionary of a list of pairs are theirs. -/
theorem mem_keys_ofList {pairs : List (String × α)} {k : String} :
    k ∈ (ofList pairs).keys ↔ k ∈ pairs.map (·.1) := by
  rw [mem_keys_iff, contains, find?_ofList, Option.isSome_iff_ne_none, ne_eq, lastIn?_eq_none_iff,
    Decidable.not_not]

theorem find?_mapValues (f : String → α → β) (d : Dict α) (k : String) :
    (d.mapValues f).find? k = (d.find? k).map (f k) := by
  change findList? k (d.toList.map fun p => (p.1, f p.1 p.2)) = (findList? k d.toList).map (f k)
  induction d.toList with
  | nil => rfl
  | cons p rest ih =>
    rw [List.map_cons, findList?, findList?]
    split
    · next he => rw [he, Option.map_some]
    · exact ih

theorem contains_mapValues (f : String → α → β) (d : Dict α) (k : String) :
    (d.mapValues f).contains k = d.contains k := by
  rw [contains, contains, find?_mapValues, Option.isSome_map]

theorem mapValues_id (d : Dict α) : (d.mapValues fun _ v => v) = d := by
  refine ext_find? fun k => ?_
  rw [find?_mapValues]
  exact Option.map_id'

theorem mapValues_insert (f : String → α → β) (d : Dict α) (k : String) (v : α) :
    (d.insert k v).mapValues f = (d.mapValues f).insert k (f k v) := by
  refine ext_find? fun l => ?_
  rw [find?_mapValues, find?_insert, find?_insert, find?_mapValues]
  split
  · next he => rw [he, Option.map_some]
  · rfl

/-! ### Some of the keys -/

theorem findList?_filter (q : String → Bool) (k : String) (xs : List (String × α)) :
    findList? k (xs.filter fun p => q p.1) = if q k then findList? k xs else none := by
  induction xs with
  | nil => exact (ite_self none).symm
  | cons p rest ih =>
    rw [List.filter_cons]
    by_cases hk : k = p.1
    · subst hk
      by_cases hq : q p.1
      · rw [if_pos hq, if_pos hq, findList?, if_pos rfl, findList?, if_pos rfl]
      · rw [if_neg hq, ih, if_neg hq, if_neg hq]
    · split
      · rw [findList?, if_neg hk, ih, findList?, if_neg hk]
      · rw [ih, findList?, if_neg hk]

/-- The bindings of some of the keys. -/
def restrict (q : String → Bool) (d : Dict α) : Dict α :=
  ⟨d.toList.filter fun p => q p.1, d.sorted.filter _⟩

theorem find?_restrict (q : String → Bool) (d : Dict α) (k : String) :
    (d.restrict q).find? k = if q k then d.find? k else none := findList?_filter q k d.toList

theorem restrict_congr {q : String → Bool} {d e : Dict α}
    (h : ∀ k, q k = true → d.find? k = e.find? k) : d.restrict q = e.restrict q := by
  refine ext_find? fun k => ?_
  rw [find?_restrict, find?_restrict]
  split
  · next hq => exact h k hq
  · rfl

end ApiCompiler.Dict
