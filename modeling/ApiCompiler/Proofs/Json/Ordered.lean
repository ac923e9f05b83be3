import ApiCompiler.Json.Basic
import ApiCompiler.Proofs.Dict

/-!
# JSON — values with rising keys

A value that is held in memory has rising keys in every object, which is what the canonical form of
any value has.

* `isOrdered`: whether the keys of every object rise.
* `isOrdered_canonical`, `canonical_eq_self_iff`: the values with rising keys are the canonical
  ones.
-/

namespace ApiCompiler

namespace Json

/-- What holds of a value when it holds of all that is in it, holds of every value. -/
theorem inductionOn {P : Json → Prop} (j : Json) (null : P null) (bool : ∀ b, P (bool b))
    (int : ∀ n, P (int n)) (float : ∀ x, P (float x)) (str : ∀ s, P (str s))
    (arr : ∀ items, (∀ v ∈ items, P v) → P (arr items))
    (obj : ∀ fields, (∀ p ∈ fields, P p.2) → P (obj fields)) : P j := by
  match j with
  | .null       => exact null
  | .bool b     => exact bool b
  | .int n      => exact int n
  | .float x    => exact float x
  | .str s      => exact str s
  | .arr items  => exact arr items fun v _ => inductionOn v null bool int float str arr obj
  | .obj fields =>
    refine obj fields fun p hp => ?_
    have hsize : sizeOf p.2 < sizeOf p := by
      cases p
      simp only [Prod.mk.sizeOf_spec]
      omega
    have hmem : sizeOf p < sizeOf fields := List.sizeOf_lt_of_mem hp
    exact inductionOn p.2 null bool int float str arr obj
termination_by sizeOf j

mutual

/-- Whether the keys of every object in a value rise. -/
def isOrdered : Json → Bool
  | arr items  => areOrdered items
  | obj fields => decide (fields.Pairwise fun a b => a.1 < b.1) && areOrderedFields fields
  | _          => true

/-- Whether the keys of every object in the items of an array rise. -/
def areOrdered : List Json → Bool
  | []      => true
  | v :: vs => v.isOrdered && areOrdered vs

/-- Whether the keys of every object in the values of fields rise. -/
def areOrderedFields : List (String × Json) → Bool
  | []             => true
  | (_, v) :: rest => v.isOrdered && areOrderedFields rest

end

theorem areOrdered_iff {vs : List Json} : areOrdered vs = true ↔ ∀ v ∈ vs, v.isOrdered = true := by
  induction vs with
  | nil => simp [areOrdered]
  | cons v vs ih => rw [areOrdered, Bool.and_eq_true, ih, List.forall_mem_cons]

theorem areOrderedFields_iff {fields : List (String × Json)} :
    areOrderedFields fields = true ↔ ∀ p ∈ fields, p.2.isOrdered = true := by
  induction fields with
  | nil => simp [areOrderedFields]
  | cons p rest ih => rw [areOrderedFields, Bool.and_eq_true, ih, List.forall_mem_cons]

theorem canonicalItems_eq (vs : List Json) : canonicalItems vs = vs.map canonical := by
  induction vs with
  | nil => rfl
  | cons v vs ih => rw [canonicalItems, ih, List.map_cons]

theorem canonicalFields_eq (fields : List (String × Json)) :
    canonicalFields fields = fields.map fun p => (p.1, p.2.canonical) := by
  induction fields with
  | nil => rfl
  | cons p rest ih => rw [canonicalFields, ih, List.map_cons]

/-- The canonical form of a value has rising keys. -/
theorem isOrdered_canonical (j : Json) : j.canonical.isOrdered = true := by
  induction j using inductionOn with
  | null | bool | int | float | str => rfl
  | arr items ih =>
    rw [canonical, canonicalItems_eq, isOrdered, areOrdered_iff]
    exact List.forall_mem_map.2 ih
  | obj fields ih =>
    rw [canonical, canonicalFields_eq, mkObj, ofDict, isOrdered, Bool.and_eq_true,
      decide_eq_true_eq, areOrderedFields_iff]
    refine ⟨Dict.sorted _, fun p hp => ?_⟩
    obtain ⟨q, hq, rfl⟩ := List.mem_map.1 (Dict.mem_of_mem_ofList hp)
    exact ih q hq

/-- A value with rising keys is canonical. -/
theorem canonical_of_isOrdered {j : Json} (h : j.isOrdered = true) : j.canonical = j := by
  induction j using inductionOn with
  | null | bool | int | float | str => rfl
  | arr items ih =>
    rw [isOrdered, areOrdered_iff] at h
    rw [canonical, canonicalItems_eq, List.map_congr_left fun v hv => ih v hv (h v hv),
      List.map_id']
  | obj fields ih =>
    rw [isOrdered, Bool.and_eq_true, decide_eq_true_eq, areOrderedFields_iff] at h
    have hvalues : ∀ p ∈ fields, (p.1, p.2.canonical) = p := fun p hp => by
      rw [ih p hp (h.2 p hp)]
    rw [canonical, canonicalFields_eq, List.map_congr_left hvalues, List.map_id', mkObj]
    exact congrArg ofDict (Dict.ofList_toList ⟨fields, h.1⟩)

/-- **The values with rising keys are the canonical ones.** -/
theorem canonical_eq_self_iff {j : Json} : j.canonical = j ↔ j.isOrdered = true :=
  ⟨fun h => h ▸ isOrdered_canonical j, canonical_of_isOrdered⟩

end Json

end ApiCompiler
