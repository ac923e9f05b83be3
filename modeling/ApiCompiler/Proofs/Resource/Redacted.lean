import ApiCompiler.Config.Datasource
import ApiCompiler.Proofs.Resource.Graph

/-!
# Resources — without the secrets of some models

The datasource of a relational model holds the secrets of its connection. Two graphs that differ in
nothing but the secrets of some models are the same once these are blanked out.

* `Resource.redact`, `ResourceGraph.redact`: resources with the secrets of some models blanked out.
* `Resource.Overt`: a function on resources that neither reads nor sets secrets.
* `Resource.SameBut`, `ResourceGraph.SameBut`: what differs at most in the secrets of some models.
* `sameBut_of_redact_eq`: so does what is the same once they are blanked out.
-/

namespace ApiCompiler

/-! ### Secrets by model -/

namespace ConnectionSecrets

/-- What stands in place of secrets. -/
def blank : ConnectionSecrets := ⟨"", "", "", "", ""⟩

/-- Secrets by model, with those of some models blanked out. -/
def redact (models : List String) (d : Dict ConnectionSecrets) : Dict ConnectionSecrets :=
  d.mapValues fun model secrets => if model ∈ models then blank else secrets

/-- The models whose secrets are not the same. -/
def differing (d e : Dict ConnectionSecrets) : List String :=
  d.keys.filter fun model => d.find? model != e.find? model

theorem ne_of_mem_differing {d e : Dict ConnectionSecrets} {model : String}
    (h : model ∈ differing d e) : d.find? model ≠ e.find? model :=
  bne_iff_ne.1 (List.mem_filter.1 h).2

/-- Secrets of the same models are the same once those are blanked out that differ. -/
theorem redact_differing {d e : Dict ConnectionSecrets} (h : d.keys = e.keys) :
    redact (differing d e) d = redact (differing d e) e := by
  refine Dict.ext_find? fun model => ?_
  rw [redact, redact, Dict.find?_mapValues, Dict.find?_mapValues]
  have hkeys : model ∈ d.keys ↔ model ∈ e.keys := by rw [h]
  rw [Dict.mem_keys_iff, Dict.mem_keys_iff, Dict.contains, Dict.contains] at hkeys
  by_cases heq : d.find? model = e.find? model
  · rw [heq]
  · cases hd : d.find? model with
    | none =>
      cases he : e.find? model with
      | none => rfl
      | some _ =>
        rw [hd, he] at hkeys
        exact absurd (hkeys.2 rfl) Bool.false_ne_true
    | some secrets =>
      cases he : e.find? model with
      | none =>
        rw [hd, he] at hkeys
        exact absurd (hkeys.1 rfl) Bool.false_ne_true
      | some _ =>
        have hmem : model ∈ d.keys :=
          Dict.mem_keys_iff.2 (Dict.contains_iff_find?.2 ⟨secrets, hd⟩)
        have hm : model ∈ differing d e := List.mem_filter.2 ⟨hmem, bne_iff_ne.2 heq⟩
        rw [Option.map_some, Option.map_some, if_pos hm, if_pos hm]

end ConnectionSecrets

/-! ### Resources -/

namespace Resource

/-- Whether a resource holds the secrets of one of some models. -/
def HoldsSecrets (models : List String) (r : Resource) : Prop :=
  r.id ∈ models.map datasourceId ∧ (r.get? "secrets").isSome = true

instance (models : List String) (r : Resource) : Decidable (r.HoldsSecrets models) :=
  inferInstanceAs (Decidable (_ ∧ _))

/-- The resource with the secrets of some models blanked out. -/
def redact (models : List String) (r : Resource) : Resource :=
  if r.HoldsSecrets models then r.set "secrets" ConnectionSecrets.blank.encode else r

variable {models : List String} {r s : Resource}

@[simp] theorem id_redact (models : List String) (r : Resource) : (r.redact models).id = r.id := by
  rw [redact]
  split <;> rfl

@[simp] theorem kind_redact (models : List String) (r : Resource) :
    (r.redact models).kind = r.kind := by
  rw [redact]
  split <;> rfl

@[simp] theorem stack_redact (models : List String) (r : Resource) :
    (r.redact models).stack = r.stack := by
  rw [redact]
  split <;> rfl

theorem get?_redact (models : List String) (r : Resource) {key : String} (h : key ≠ "secrets") :
    (r.redact models).get? key = r.get? key := by
  rw [redact]
  split
  · rw [get?_set, if_neg h]
  · rfl

theorem redact_of_get?_none (h : r.get? "secrets" = none) : r.redact models = r := by
  rw [redact, if_neg]
  rintro ⟨-, hs⟩
  rw [h] at hs
  cases hs

theorem holdsSecrets_set {key : String} (h : key ≠ "secrets") (value : Json) :
    (r.set key value).HoldsSecrets models ↔ r.HoldsSecrets models := by
  rw [HoldsSecrets, HoldsSecrets, get?_set, if_neg h.symm]
  rfl

theorem redact_set {key : String} (h : key ≠ "secrets") (r : Resource) (value : Json) :
    (r.set key value).redact models = (r.redact models).set key value := by
  simp only [redact, holdsSecrets_set h]
  split
  · exact set_comm r h _ _
  · rfl

/-- A function that takes no notice of secrets. -/
def Overt (models : List String) (f : Resource → Resource) : Prop :=
  ∀ r, f (r.redact models) = (f r).redact models

namespace Overt

variable {f g : Resource → Resource} {key : String}

theorem refl : Overt models fun r => r := fun _ => rfl

theorem comp (hg : Overt models g) (hf : Overt models f) : Overt models fun r => g (f r) :=
  fun r => (congrArg g (hf r)).trans (hg (f r))

theorem set (h : key ≠ "secrets") (value : Json) : Overt models (·.set key value) :=
  fun r => (redact_set h r value).symm

theorem push (h : key ≠ "secrets") (value : Json) : Overt models (·.push key value) := by
  intro r
  have hget := get?_redact models r h
  rw [get?, get?] at hget
  simp only [Resource.push, hget]
  split <;> exact (redact_set h r _).symm

theorem foldl_set {properties : List (String × Json)} (h : ∀ p ∈ properties, p.1 ≠ "secrets") :
    Overt models fun r => properties.foldl (fun r p => r.set p.1 p.2) r := by
  induction properties with
  | nil => exact refl
  | cons p ps ih =>
    exact comp (ih fun q hq => h q (List.mem_cons_of_mem p hq)) (set (h p List.mem_cons_self) p.2)

end Overt

/-- A resource that differs from another one at most in the secrets of a model of which `differ`
holds. -/
def SameBut (differ : String → Prop) (r s : Resource) : Prop :=
  s = r ∨ ∃ model secrets, differ model ∧ r.id = datasourceId model
    ∧ (r.get? "secrets").isSome = true ∧ s = r.set "secrets" secrets

variable {differ : String → Prop}

/-- Resources that are the same without the secrets of some models differ at most in these. -/
theorem sameBut_of_redact_eq (hd : ∀ model ∈ models, differ model)
    (h : r.redact models = s.redact models) : SameBut differ r s := by
  have hid : r.id = s.id := by rw [← id_redact models r, h, id_redact]
  by_cases hr : r.HoldsSecrets models <;> by_cases hs : s.HoldsSecrets models
  · rw [redact, if_pos hr, redact, if_pos hs] at h
    obtain ⟨hmem, hsome⟩ := hr
    obtain ⟨model, hm, he⟩ := List.mem_map.1 hmem
    obtain ⟨v, hv⟩ := Option.isSome_iff_exists.1 hs.2
    refine .inr ⟨model, v, hd model hm, he.symm, hsome, ?_⟩
    rw [← set_set r "secrets" ConnectionSecrets.blank.encode, h, set_set, set_eq_self hv]
  · rw [redact, if_pos hr, redact, if_neg hs] at h
    refine absurd ⟨hid ▸ hr.1, ?_⟩ hs
    rw [← h, get?_set, if_pos rfl]
    rfl
  · rw [redact, if_neg hr, redact, if_pos hs] at h
    refine absurd ⟨hid ▸ hs.1, ?_⟩ hr
    rw [h, get?_set, if_pos rfl]
    rfl
  · rw [redact, if_neg hr, redact, if_neg hs] at h
    exact .inl h.symm

end Resource

/-! ### Graphs -/

namespace ResourceGraph

/-- The graph with the secrets of some models blanked out. -/
def redact (models : List String) (g : ResourceGraph) : ResourceGraph :=
  ⟨g.byId.mapValues fun _ => Resource.redact models⟩

variable {models : List String} {g g' : ResourceGraph}

theorem ext_get? (h : ∀ id, g.get? id = g'.get? id) : g = g' := by
  have hid : g.byId = g'.byId := Dict.ext_find? h
  cases g
  cases g'
  cases hid
  rfl

theorem get?_redact (models : List String) (g : ResourceGraph) (id : String) :
    (g.redact models).get? id = (g.get? id).map (Resource.redact models) :=
  Dict.find?_mapValues _ _ _

theorem contains_redact (models : List String) (g : ResourceGraph) (id : String) :
    (g.redact models).contains id = g.contains id :=
  Dict.contains_mapValues _ _ _

theorem toList_redact (models : List String) (g : ResourceGraph) :
    (g.redact models).toList = g.toList.map (Resource.redact models) := by
  rw [toList, toList, Dict.values, Dict.values, List.map_map]
  exact List.map_map

theorem size_redact (models : List String) (g : ResourceGraph) :
    (g.redact models).size = g.size :=
  List.length_map _

theorem redact_add (g : ResourceGraph) (r : Resource) :
    (g.add r).redact models = (g.redact models).add (r.redact models) := by
  rw [add, add, redact, Dict.mapValues_insert, Resource.id_redact]
  rfl

theorem redact_ensure (g : ResourceGraph) (r : Resource) :
    (g.ensure r).redact models = (g.redact models).ensure (r.redact models) := by
  rw [ensure, ensure, Resource.id_redact, contains_redact]
  split
  · rfl
  · exact redact_add g r

theorem redact_modify {f : Resource → Resource} (hf : Resource.Overt models f) (g : ResourceGraph)
    (id : String) : (g.modify id f).redact models = (g.redact models).modify id f := by
  refine ext_get? fun other => ?_
  rw [get?_redact, get?_modify, get?_modify]
  split
  · rw [get?_redact, Option.map_map, Option.map_map]
    exact congrArg (fun k => (g.get? id).map k) (funext fun r => (hf r).symm)
  · rw [get?_redact]

/-- The ids of resources that are told by what is no secret. -/
theorem ids_filter_redact {p : Resource → Bool} (hp : ∀ r, p (r.redact models) = p r)
    (g : ResourceGraph) :
    ((g.redact models).toList.filter p).map (·.id) = (g.toList.filter p).map (·.id) := by
  rw [toList_redact, List.filter_map, List.map_map]
  have hcomp : p ∘ Resource.redact models = p := funext hp
  rw [hcomp]
  exact List.map_congr_left fun r _ => Resource.id_redact models r

/-- A graph that has the resources of another one, up to the secrets of models of which `differ`
holds. -/
def SameBut (differ : String → Prop) (g g' : ResourceGraph) : Prop :=
  ∀ id, Option.Rel (Resource.SameBut differ) (g.get? id) (g'.get? id)

theorem sameBut_of_redact_eq {differ : String → Prop} (hd : ∀ model ∈ models, differ model)
    (h : g.redact models = g'.redact models) : SameBut differ g g' := by
  intro id
  have hid : (g.redact models).get? id = (g'.redact models).get? id := by rw [h]
  rw [get?_redact, get?_redact] at hid
  cases hg : g.get? id <;> cases hg' : g'.get? id <;> rw [hg, hg'] at hid
  · exact .none
  · cases hid
  · cases hid
  · exact .some (Resource.sameBut_of_redact_eq hd (Option.some.inj hid))

end ResourceGraph

end ApiCompiler
