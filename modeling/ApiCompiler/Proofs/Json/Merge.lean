import ApiCompiler.Proofs.Json.Ordered
import ApiCompiler.Schema.Arguments

/-!
# JSON — one value laid over another

What a value that is laid over another one leaves at the end of each path of keys.

* `at?`: the value at the end of a path.
* `at?_merge`: a path that leads through objects only ends at the two values that it leads to, one
  laid over the other.
* `merge_merge`: to lay a value over another one again changes nothing.
* `mergeShallow_eq_merge`: where no key has an object in both, the fields may be replaced as a
  whole.
* `merge_exact`: all of it for two objects.
-/

namespace ApiCompiler.Json

/-! ### Paths -/

/-- The value at the end of a path of keys; a key leads into an object only. -/
def at? : (path : List String) → Json → Option Json
  | [],        j => some j
  | k :: path, j => (j.get? k).bind (at? path)

theorem at?_append (front back : List String) (j : Json) :
    at? (front ++ back) j = (at? front j).bind (at? back) := by
  induction front generalizing j with
  | nil => rfl
  | cons k front ih =>
    rw [List.cons_append, at?, at?, Option.bind_assoc]
    exact congrArg _ (funext ih)

theorem isObj_of_get? {k : String} {j v : Json} (h : j.get? k = some v) : j.isObj = true := by
  cases j with
  | obj fields => rfl
  | _ => cases h

/-- Whether a path leads through objects only, as far as it leads. -/
def LeadsThroughObjects (path : List String) (j : Json) : Prop :=
  ∀ front v, front <+: path → front ≠ path → at? front j = some v → v.isObj = true

theorem LeadsThroughObjects.tail {k : String} {path : List String} {j v : Json}
    (h : LeadsThroughObjects (k :: path) j) (hv : j.get? k = some v) :
    LeadsThroughObjects path v := by
  intro front u hfront hne hu
  refine h (k :: front) u (List.cons_prefix_cons.2 ⟨rfl, hfront⟩) (fun he => ?_) ?_
  · exact hne (List.cons.inj he).2
  · rw [at?, hv, Option.bind_some, hu]

/-- A path that leads to a value leads through objects. -/
theorem leadsThroughObjects_of_at? {path : List String} {j v : Json} (h : at? path j = some v) :
    LeadsThroughObjects path j := by
  rintro front u ⟨back, rfl⟩ hne hu
  rw [at?_append, hu, Option.bind_some] at h
  cases back with
  | nil => exact absurd (List.append_nil front).symm hne
  | cons k back =>
    obtain ⟨w, hw, -⟩ := Option.bind_eq_some_iff.1 h
    exact isObj_of_get? hw

/-! ### Values with rising keys -/

theorem isOrdered_obj {fields : List (String × Json)} :
    (obj fields).isOrdered = true ↔
      fields.Pairwise (fun a b => a.1 < b.1) ∧ ∀ p ∈ fields, p.2.isOrdered = true := by
  rw [isOrdered, Bool.and_eq_true, decide_eq_true_eq, areOrderedFields_iff]

theorem isOrdered_of_get? {k : String} {j v : Json} (h : j.isOrdered = true)
    (hv : j.get? k = some v) : v.isOrdered = true := by
  cases j with
  | obj fields => exact (isOrdered_obj.1 h).2 _ (Dict.mem_of_findList? hv)
  | _ => cases hv

theorem isOrdered_of_at? {path : List String} {j v : Json} (h : j.isOrdered = true)
    (hv : at? path j = some v) : v.isOrdered = true := by
  induction path generalizing j with
  | nil =>
    cases hv
    exact h
  | cons k path ih =>
    obtain ⟨u, hu, hv⟩ := Option.bind_eq_some_iff.1 hv
    exact ih (isOrdered_of_get? h hu) hv

/-! ### One value over another -/

@[simp] theorem merge_null (v : Json) : merge null v = v := by
  cases v <;> rfl

/-- Only an object that is laid over an object leaves something of it. -/
theorem merge_of_not_both {below above : Json} (h : ¬(below.isObj = true ∧ above.isObj = true)) :
    merge below above = above := by
  cases above with
  | obj fields =>
    cases below with
    | obj fields' => exact absurd ⟨rfl, rfl⟩ h
    | _ => rfl
  | _ => exact merge_of_not_obj rfl below

/-- A value, where there is one, laid over another one. -/
def merge? (below : Option Json) : (above : Option Json) → Option Json
  | none   => below
  | some v => some (merge (below.getD null) v)

theorem merge?_eq_none_iff {below above : Option Json} :
    merge? below above = none ↔ below = none ∧ above = none := by
  cases above <;> simp [merge?]

theorem mergeFields_cons (below : List (String × Json)) (k : String) (v : Json)
    (rest : List (String × Json)) :
    mergeFields below ((k, v) :: rest) =
      mergeFields (Dict.insertList k (merge ((Dict.findList? k below).getD null) v) below)
        rest := by
  rw [mergeFields]
  split
  · next w hw => rw [hw, Option.getD_some]
  · next hnone => rw [hnone, Option.getD_none, merge_null]

/-- Where no key comes twice, each field is laid over the one of its key. -/
theorem findList?_mergeFields {fields : List (String × Json)} (h : (fields.map (·.1)).Nodup)
    (below : List (String × Json)) (k : String) :
    Dict.findList? k (mergeFields below fields)
      = merge? (Dict.findList? k below) (Dict.findList? k fields) := by
  induction fields generalizing below with
  | nil => rw [mergeFields, Dict.findList?, merge?]
  | cons p rest ih =>
    obtain ⟨l, v⟩ := p
    obtain ⟨hl, hrest⟩ := List.nodup_cons.1 h
    rw [mergeFields_cons, ih hrest, Dict.findList?]
    by_cases hk : k = l
    · subst hk
      rw [if_pos rfl, Dict.findList?_insertList_self, Dict.findList?_eq_none_iff.2 hl, merge?,
        merge?]
    · rw [if_neg hk, Dict.findList?_insertList_of_ne hk]

theorem nodup_of_isOrdered {fields : List (String × Json)} (h : (obj fields).isOrdered = true) :
    (fields.map (·.1)).Nodup :=
  Dict.nodup_keys ⟨fields, (isOrdered_obj.1 h).1⟩

/-- **One step of a path**: under a key stands what both values have there, one laid over the
other. -/
theorem get?_merge {fields : List (String × Json)} (h : (obj fields).isOrdered = true)
    (below : Json) (k : String) :
    (merge below (obj fields)).get? k = merge? (below.get? k) ((obj fields).get? k) := by
  cases below with
  | obj fields' => exact findList?_mergeFields (nodup_of_isOrdered h) fields' k
  | _ =>
    show (obj fields).get? k = merge? none ((obj fields).get? k)
    cases (obj fields).get? k with
    | none => rfl
    | some v => rw [merge?, Option.getD_none, merge_null]

/-- A path that leads nowhere leads nowhere in null either. -/
theorem getD_at?_null (path : List String) : (at? path null).getD null = null := by
  cases path <;> rfl

/-- **A path that leads through objects only ends at the two values that it leads to, one laid over
the other.** -/
theorem at?_merge {path : List String} {below above : Json} (h : above.isOrdered = true)
    (hpath : LeadsThroughObjects path above) :
    at? path (merge below above) = merge? (at? path below) (at? path above) := by
  induction path generalizing below above with
  | nil => rfl
  | cons k path ih =>
    have hobj : above.isObj = true :=
      hpath [] above List.nil_prefix (List.cons_ne_nil k path).symm rfl
    obtain ⟨fields, rfl⟩ : ∃ fields, above = obj fields := by
      cases above with
      | obj fields => exact ⟨fields, rfl⟩
      | _ => cases hobj
    rw [at?, get?_merge h, at?, at?]
    cases hv : (obj fields).get? k with
    | none => rfl
    | some v =>
      have hrest : ∀ b, at? path (merge b v) = merge? (at? path b) (at? path v) := fun b =>
        ih (isOrdered_of_get? h hv) (hpath.tail hv)
      rw [merge?, Option.bind_some, Option.bind_some, hrest]
      cases below.get? k with
      | some w => rfl
      | none =>
        -- a key that is missing below is as good as a null there
        rw [Option.getD_none, Option.bind_none]
        cases hu : at? path v with
        | some u => rw [merge?, merge?, getD_at?_null, Option.getD_none]
        | none =>
          cases path with
          | nil => cases hu
          | cons l path => rfl

/-! ### Laying over twice -/

theorem sorted_mergeFields {below : List (String × Json)}
    (h : below.Pairwise fun a b => a.1 < b.1) (fields : List (String × Json)) :
    (mergeFields below fields).Pairwise fun a b => a.1 < b.1 := by
  induction fields generalizing below with
  | nil =>
    rw [mergeFields]
    exact h
  | cons p rest ih =>
    obtain ⟨k, v⟩ := p
    rw [mergeFields_cons]
    exact ih (Dict.sorted_insertList k _ h)

/-- Fields that leave every field below as it is leave them all. -/
theorem mergeFields_eq_self {below fields : List (String × Json)}
    (hbelow : below.Pairwise fun a b => a.1 < b.1)
    (h : ∀ p ∈ fields, ∃ w, Dict.findList? p.1 below = some w ∧ merge w p.2 = w) :
    mergeFields below fields = below := by
  induction fields with
  | nil => rw [mergeFields]
  | cons p rest ih =>
    obtain ⟨⟨w, hw, heq⟩, hrest⟩ := List.forall_mem_cons.1 h
    have hsame : Dict.insertList p.1 w below = below :=
      congrArg Dict.toList (Dict.insert_eq_self (d := ⟨below, hbelow⟩) hw)
    rw [mergeFields_cons, hw, Option.getD_some, heq, hsame, ih hrest]

/-- **To lay a value over another one again changes nothing.** -/
theorem merge_merge {above : Json} (h : above.isOrdered = true) {below : Json}
    (hbelow : below.isOrdered = true) : merge (merge below above) above = merge below above := by
  induction above using inductionOn generalizing below with
  | null | bool | int | float | str | arr => rw [merge_of_not_obj rfl, merge_of_not_obj rfl]
  | obj fields ih =>
    obtain ⟨hsorted, hfields⟩ := isOrdered_obj.1 h
    obtain ⟨merged, hmerged, hmsorted⟩ : ∃ merged, merge below (obj fields) = obj merged
        ∧ merged.Pairwise fun a b => a.1 < b.1 := by
      cases below with
      | obj fields' => exact ⟨_, rfl, sorted_mergeFields (isOrdered_obj.1 hbelow).1 fields⟩
      | _ => exact ⟨fields, rfl, hsorted⟩
    rw [hmerged]
    refine congrArg obj (mergeFields_eq_self hmsorted fun p hp => ?_)
    have hget : (obj fields).get? p.1 = some p.2 :=
      Dict.findList?_of_nodup (nodup_of_isOrdered h) hp
    have hnow := get?_merge h below p.1
    rw [hmerged, hget] at hnow
    refine ⟨_, hnow, ih p hp (hfields p hp) ?_⟩
    cases hb : below.get? p.1 with
    | none => rfl
    | some w => exact isOrdered_of_get? hbelow hb

/-! ### Laying over as a whole -/

/-- No key has an object in both values. -/
def ObjectsApart (below above : Json) : Prop :=
  ∀ k v w, below.get? k = some v → above.get? k = some w → ¬(v.isObj = true ∧ w.isObj = true)

/-- Where no key has an object in both, the fields may be replaced as a whole. -/
theorem mergeShallow_eq_merge {below fields : List (String × Json)}
    (hnodup : (fields.map (·.1)).Nodup) (h : ObjectsApart (obj below) (obj fields)) :
    mergeShallow (obj below) (obj fields) = merge (obj below) (obj fields) := by
  refine congrArg obj ?_
  -- along the fields, of which each leaves the keys of those behind it as they are
  have along : ∀ p ∈ fields, ∀ v, Dict.findList? p.1 below = some v →
      ¬(v.isObj = true ∧ p.2.isObj = true) := fun p hp v hv =>
    h p.1 v p.2 hv (Dict.findList?_of_nodup hnodup hp)
  clear h
  induction fields generalizing below with
  | nil => rw [mergeFields, List.foldl_nil]
  | cons p rest ih =>
    obtain ⟨hp, hrest⟩ := List.nodup_cons.1 hnodup
    obtain ⟨hfirst, hothers⟩ := List.forall_mem_cons.1 along
    have hwhole : merge ((Dict.findList? p.1 below).getD null) p.2 = p.2 := by
      cases hv : Dict.findList? p.1 below with
      | none => exact merge_null p.2
      | some v => exact merge_of_not_both (hfirst v hv)
    rw [mergeFields_cons, hwhole, List.foldl_cons]
    refine ih hrest fun q hq v hv => hothers q hq v ?_
    have hne : q.1 ≠ p.1 := fun he => hp (List.mem_map.2 ⟨q, hq, he⟩)
    rwa [Dict.findList?_insertList_of_ne hne] at hv

/-! ### Two objects -/

/-- What stands at the end of every path where the right-biased union of `below` and `above`, key by
key through the objects of both, is `merged`. -/
structure Union (below above merged : Json) : Prop where
  /-- What is no object above stands as it is. -/
  leaf : ∀ path v, at? path above = some v → v.isObj = false → at? path merged = some v
  /-- Where both have an object, one with the keys of both stands. -/
  both : ∀ path b a, at? path below = some (obj b) → at? path above = some (obj a) →
    ∃ m, at? path merged = some (obj m)
      ∧ ∀ k, k ∈ m.map (·.1) ↔ k ∈ b.map (·.1) ∨ k ∈ a.map (·.1)
  /-- An object above stands as it is where none is below. -/
  object : ∀ path a, at? path above = some (obj a) →
    (∀ v, at? path below = some v → v.isObj = false) → at? path merged = some (obj a)
  /-- What is below stands, or nothing does, where nothing above is in the way. -/
  absent : ∀ path, at? path above = none →
    (∀ front v, front ≠ [] → front <+: path → front ≠ path → at? front above = some v →
      v.isObj = true) → at? path merged = at? path below

theorem mem_keys_iff {fields : List (String × Json)} {k : String} :
    k ∈ fields.map (·.1) ↔ (obj fields).get? k ≠ none := by
  rw [get?, ne_eq, Dict.findList?_eq_none_iff, Decidable.not_not]

/-- An object laid over a value is the union of both. -/
theorem union_merge {fields : List (String × Json)} (h : (obj fields).isOrdered = true)
    (below : Json) : Union below (obj fields) (merge below (obj fields)) where
  leaf path v hv hleaf := by
    rw [at?_merge h (leadsThroughObjects_of_at? hv), hv, merge?, merge_of_not_obj hleaf]
  both path b a hb ha := by
    refine ⟨mergeFields b a, ?_, fun k => ?_⟩
    · rw [at?_merge h (leadsThroughObjects_of_at? ha), ha, hb, merge?, Option.getD_some, merge]
    · have hget := get?_merge (isOrdered_of_at? h ha) (obj b) k
      rw [merge] at hget
      rw [mem_keys_iff, mem_keys_iff, mem_keys_iff, hget, ne_eq, merge?_eq_none_iff,
        Classical.not_and_iff_not_or_not]
  object path a ha hb := by
    rw [at?_merge h (leadsThroughObjects_of_at? ha), ha, merge?, merge_of_not_both]
    rintro ⟨hobj, -⟩
    cases hv : at? path below with
    | none =>
      rw [hv] at hobj
      cases hobj
    | some v =>
      rw [hv, Option.getD_some, hb v hv] at hobj
      cases hobj
  absent path ha hpath := by
    rw [at?_merge h, ha, merge?]
    intro front v hfront hne hv
    cases front with
    | nil =>
      cases hv
      rfl
    | cons k front => exact hpath _ v (List.cons_ne_nil k front) hfront hne hv

/-- The arguments of a directive are an object in which no key comes twice, so they too may be
replaced as a whole. -/
theorem argumentsOver_false {below : List (String × Json)} {d : Directive}
    (h : ObjectsApart (obj below) d.argumentsJson) :
    d.argumentsOver (obj below) false = d.argumentsOver (obj below) true :=
  mergeShallow_eq_merge (Dict.nodup_keys (Dict.ofList (Value.toJsonFields d.arguments))) h

/-- **Arguments over defaults**: one object laid over another is their right-biased union, which
takes in nothing when it is done again. Where no key has an object in both, the fields may be
replaced as a whole, and so may the arguments of a directive that are laid over defaults. -/
theorem merge_exact {below above : List (String × Json)} (hbelow : (obj below).isOrdered = true)
    (habove : (obj above).isOrdered = true) :
    Union (obj below) (obj above) (merge (obj below) (obj above))
      ∧ merge (merge (obj below) (obj above)) (obj above) = merge (obj below) (obj above)
      ∧ (ObjectsApart (obj below) (obj above) →
          mergeShallow (obj below) (obj above) = merge (obj below) (obj above))
      ∧ ∀ d : Directive, ObjectsApart (obj below) d.argumentsJson →
          d.argumentsOver (obj below) false = d.argumentsOver (obj below) true :=
  ⟨union_merge habove _, merge_merge habove hbelow,
    mergeShallow_eq_merge (nodup_of_isOrdered habove), fun _ => argumentsOver_false⟩

/-- Defaults of an index. -/
def indexDefaults : List (String × Json) :=
  [("name", null), ("options", obj [("page", obj [("size", int 20)]), ("ttl", int 5)]),
    ("sortKeyFields", arr [])]

/-- Arguments of an index. -/
def indexArguments : List (String × Json) :=
  [("name", str "byOwner"), ("options", obj [("page", null), ("projection", obj [])])]

/-- The time that is only in the defaults stays, and the page that is null in the arguments is
null. -/
theorem merge_exact_index :
    (obj indexDefaults).isOrdered = true ∧ (obj indexArguments).isOrdered = true
      ∧ at? ["options", "ttl"] (merge (obj indexDefaults) (obj indexArguments)) = some (int 5)
      ∧ at? ["options", "page"] (merge (obj indexDefaults) (obj indexArguments)) = some null := by
  have hdefaults : (obj indexDefaults).isOrdered = true := by decide
  have harguments : (obj indexArguments).isOrdered = true := by decide
  have hunion := (merge_exact hdefaults harguments).1
  refine ⟨hdefaults, harguments, ?_, hunion.leaf ["options", "page"] null rfl rfl⟩
  refine (hunion.absent ["options", "ttl"] rfl fun front v hne hfront hproper hv => ?_).trans rfl
  obtain rfl : front = ["options"] := by
    rcases front with _ | ⟨k, _ | ⟨l, front⟩⟩
    · exact absurd rfl hne
    · rw [(List.cons_prefix_cons.1 hfront).1]
    · exact absurd (hfront.eq_of_length_le (by simp)) hproper
  cases hv
  rfl

end ApiCompiler.Json
