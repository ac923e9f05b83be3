import ApiCompiler.Proofs.Dict
import ApiCompiler.Resource.Graph

/-!
# Resources — properties, and graphs by id

* `Resource.set_set`, `Resource.set_comm`: properties that are set one after the other.
* `OwnIds`: every resource stands under its own id, as in every graph that is built by adding
  resources.
* `OwnIds.mem_toList_iff`, `OwnIds.nodup_ids`: then a resource is listed where it is there, and no
  id is listed twice.
* `AllOf`: what every resource of a kind has.
-/

namespace ApiCompiler

namespace Resource

variable {r s : Resource}

/-- Two resources of the same id, kind and stack are equal where their properties are. -/
theorem ext_get? (hid : r.id = s.id) (hkind : r.kind = s.kind) (hstack : r.stack = s.stack)
    (h : ∀ key, r.get? key = s.get? key) : r = s := by
  have hproperties : r.properties = s.properties := Dict.ext_find? h
  cases r
  cases s
  cases hid
  cases hkind
  cases hstack
  cases hproperties
  rfl

theorem set_set (r : Resource) (key : String) (v w : Json) :
    (r.set key v).set key w = r.set key w := by
  refine ext_get? rfl rfl rfl fun other => ?_
  rw [get?_set, get?_set, get?_set]
  split <;> rfl

theorem set_comm (r : Resource) {key other : String} (h : key ≠ other) (v w : Json) :
    (r.set key v).set other w = (r.set other w).set key v := by
  refine ext_get? rfl rfl rfl fun k => ?_
  simp only [get?_set]
  split
  · next he => rw [if_neg (he ▸ h.symm)]
  · rfl

theorem set_eq_self {key : String} {v : Json} (h : r.get? key = some v) : r.set key v = r := by
  rw [set, Dict.insert_eq_self h]

end Resource

namespace ResourceGraph

/-- A graph in which every resource stands under its own id. -/
def OwnIds (g : ResourceGraph) : Prop := ∀ id r, g.get? id = some r → r.id = id

variable {g : ResourceGraph}

theorem ownIds_empty : OwnIds {} := fun _ _ h => nomatch h

theorem OwnIds.add (h : g.OwnIds) (r : Resource) : (g.add r).OwnIds := by
  intro id s hs
  rw [get?_add] at hs
  split at hs
  · next he =>
    cases hs
    exact he.symm
  · exact h id s hs

theorem ownIds_ofList (resources : List Resource) : (ofList resources).OwnIds :=
  List.foldlRecOn (motive := OwnIds) resources add ownIds_empty fun _ h r _ => h.add r

theorem OwnIds.mem_toList_iff (h : g.OwnIds) {r : Resource} :
    r ∈ g.toList ↔ g.get? r.id = some r := by
  rw [toList, Dict.mem_values_iff]
  constructor
  · rintro ⟨id, hr⟩
    rwa [h id r hr]
  · exact fun hr => ⟨r.id, hr⟩

theorem OwnIds.contains_iff (h : g.OwnIds) {id : String} :
    g.contains id = true ↔ ∃ r ∈ g.toList, r.id = id := by
  rw [contains_iff_get?]
  constructor
  · rintro ⟨r, hr⟩
    have hid := h id r hr
    exact ⟨r, h.mem_toList_iff.2 (hid ▸ hr), hid⟩
  · rintro ⟨r, hr, rfl⟩
    exact ⟨r, h.mem_toList_iff.1 hr⟩

theorem OwnIds.map_id_toList (h : g.OwnIds) : g.toList.map (·.id) = g.byId.keys := by
  rw [toList, Dict.values, Dict.keys, List.map_map]
  exact List.map_congr_left fun p hp => h p.1 p.2 (Dict.mem_toList_iff.1 hp)

/-- No id is listed twice. -/
theorem OwnIds.nodup_ids (h : g.OwnIds) : (g.toList.map (·.id)).Nodup :=
  h.map_id_toList ▸ g.byId.nodup_keys

/-! ### Resources of a kind -/

/-- Every resource of a kind has what `P` says of it and of the id that it stands under. -/
def AllOf (kind : ResourceKind) (P : String → Resource → Prop) (g : ResourceGraph) : Prop :=
  ∀ id r, g.get? id = some r → r.kind = kind → P id r

namespace AllOf

variable {kind : ResourceKind} {P Q : String → Resource → Prop}

theorem empty : AllOf kind P {} := fun _ _ h => nomatch h

theorem mono (h : g.AllOf kind P) (hPQ : ∀ id r, P id r → Q id r) : g.AllOf kind Q :=
  fun id r hr hk => hPQ id r (h id r hr hk)

theorem add (h : g.AllOf kind P) {r : Resource} (hr : r.kind = kind → P r.id r) :
    (g.add r).AllOf kind P := by
  intro id q hq hk
  rw [get?_add] at hq
  split at hq
  · next he =>
    cases hq
    exact he ▸ hr hk
  · exact h id q hq hk

theorem ensure (h : g.AllOf kind P) {r : Resource} (hr : r.kind = kind → P r.id r) :
    (g.ensure r).AllOf kind P := by
  unfold ResourceGraph.ensure
  split
  · exact h
  · exact h.add hr

theorem modify (h : g.AllOf kind P) (id : String) {f : Resource → Resource}
    (hkind : ∀ r, (f r).kind = r.kind) (hf : ∀ r, P id r → P id (f r)) :
    (g.modify id f).AllOf kind P := by
  intro other q hq hk
  rw [get?_modify] at hq
  split at hq
  · next he =>
    obtain ⟨r, hr, rfl⟩ := Option.map_eq_some_iff.1 hq
    exact he ▸ hf r (h id r hr ((hkind r).symm.trans hk))
  · exact h other q hq hk

end AllOf

end ResourceGraph

end ApiCompiler
