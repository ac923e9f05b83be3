import ApiCompiler.Proofs.Pass.Join
import ApiCompiler.Proofs.Pass.Properties
import ApiCompiler.Proofs.Resource.Operations

/-!
# Resources — the default values of fields

The resolver that makes the records of a model has the default values of its fields in one object.
A text that is read as a float need not denote a number, and has no value but null then; and of
several fields with one name, in one definition or in many, the last one gives the value.

* `IsValueOf`: the values of a type.
* `isValueOf_iff_of_coerce`: a text gets a value of the type that it is read for, except for a float
  that is no number.
* `default?_foldl_attach`, `default?_of_apply`: the value of a field is that of the last field of
  its names.
* `typed_iff_of_apply`: where a field gets a value of its type.
-/

namespace ApiCompiler

open PassAction

/-- The text that a field gives as its default value. -/
def FieldDefinition.defaultText? (f : FieldDefinition) : Option String :=
  ((f.directive? "default").bind (·.argument? "value")).bind Value.asString?

namespace ResourceGraph

/-- The default values that the resolver has which makes the records of a model. -/
def defaults? (g : ResourceGraph) (model : String) : Option Json :=
  g.property? (resolverId "Mutation" ("create" ++ model)) "defaults"

/-- The default value of a field. -/
def default? (g : ResourceGraph) (model field : String) : Option Json :=
  (g.defaults? model).bind (·.get? field)

/-- A model has no default values yet, or has them in an object. -/
def TakesDefaults (g : ResourceGraph) (model : String) : Prop :=
  ∀ v, g.defaults? model = some v → v.isObj = true

/-- What has a default value has an object for it. -/
theorem takesDefaults_of_default? {g : ResourceGraph} {model field : String} {v : Json}
    (h : g.default? model field = some v) : g.TakesDefaults model := by
  intro w hw
  rw [default?, hw, Option.bind_some] at h
  cases w with
  | obj fields => rfl
  | _ => cases h

end ResourceGraph

namespace DefaultPass

/-! ### The values of a type -/

/-- The scalars that need no declaration. -/
def builtinScalars : List String := ["Int", "Float", "Boolean"] ++ textScalars

/-- The values of a type, where a text is the only one of a type of texts. -/
inductive IsValueOf (schema : Document) (text : String) : (type : String) → Json → Prop
  | integer (n : Int) : IsValueOf schema text "Int" (.int n)
  | whole (n : Int) : IsValueOf schema text "Float" (.int n)
  | float {x : Binary64} (h : x.isFinite = true) : IsValueOf schema text "Float" (.float x)
  | truth (b : Bool) : IsValueOf schema text "Boolean" (.bool b)
  | text {type : String} (h : type ∈ textScalars) : IsValueOf schema text type (.str text)
  | custom {type : String} {t : TypeDefinition} (hb : type ∉ builtinScalars)
      (ht : schema.getType? type = some t) (hk : t.kind = .scalar) :
      IsValueOf schema text type (.str text)
  | member {type m : String} {t : TypeDefinition} (hb : type ∉ builtinScalars)
      (ht : schema.getType? type = some t) (hk : t.kind = .enumeration) (hm : m ∈ t.members) :
      IsValueOf schema text type (.str m)

/-- A text denotes a number that is finite. -/
def DenotesFinite (text : String) : Prop :=
  ∃ x, Number.readFloat? text.toList = some x ∧ x.isFinite = true

variable {schema : Document} {type text : String} {v : Json}

theorem IsValueOf.ne_null (h : IsValueOf schema text type v) : v ≠ .null := by
  rintro rfl
  cases h

theorem valueOf_eq_ok {scalar : String} {read : Option Json} :
    valueOf text scalar read = .ok v ↔ read = some v := by
  cases read with
  | none => simp [valueOf]
  | some j => simp [valueOf]

theorem isValueOf_of_coerceDeclared (hb : type ∉ builtinScalars)
    (h : coerceDeclared schema type text = .ok v) : IsValueOf schema text type v := by
  unfold coerceDeclared at h
  split at h
  · next t ht =>
    split at h
    · next hk =>
      split at h
      · next hm =>
        cases h
        exact .member hb ht hk hm
      · cases h
    · next hk =>
      cases h
      exact .custom hb ht hk
    · cases h
  · cases h

/-- A value for a float is null where the text denotes no finite number. -/
theorem coerce_float_eq_ok (h : coerce schema "Float" text = .ok v) :
    (∃ x, v = .float x ∧ x.isFinite = true ∧ DenotesFinite text) ∨
      (v = .null ∧ ¬ DenotesFinite text) := by
  rw [coerce, if_neg (by decide), if_pos rfl, valueOf_eq_ok, Option.map_eq_some_iff] at h
  obtain ⟨x, hx, rfl⟩ := h
  by_cases hfinite : x.isFinite = true
  · exact .inl ⟨x, if_pos hfinite, hfinite, x, hx, hfinite⟩
  · refine .inr ⟨if_neg hfinite, ?_⟩
    rintro ⟨y, hy, hyfinite⟩
    cases hx.symm.trans hy
    exact hfinite hyfinite

/-- **A text gets a value of the type that it is read for**, except that one which is read for a
float has to denote a finite number. -/
theorem isValueOf_iff_of_coerce (h : coerce schema type text = .ok v) :
    IsValueOf schema text type v ↔ (type = "Float" → DenotesFinite text) := by
  by_cases hfloat : type = "Float"
  · subst hfloat
    rcases coerce_float_eq_ok h with ⟨x, rfl, hx, hfinite⟩ | ⟨rfl, hinfinite⟩
    · exact iff_of_true (.float hx) fun _ => hfinite
    · exact iff_of_false (fun hv => hv.ne_null rfl) fun hfinite => hinfinite (hfinite rfl)
  · refine iff_of_true ?_ fun he => absurd he hfloat
    unfold coerce at h
    split at h
    · next hint =>
      obtain ⟨n, -, rfl⟩ := Option.map_eq_some_iff.1 (valueOf_eq_ok.1 h)
      exact hint ▸ .integer n
    · split at h
      · next hboolean =>
        obtain ⟨b, -, rfl⟩ := Option.map_eq_some_iff.1 (valueOf_eq_ok.1 h)
        exact hboolean ▸ .truth b
      · next hboolean =>
        split at h
        · next htext =>
          cases h
          exact .text htext
        · next htext =>
          refine isValueOf_of_coerceDeclared ?_ h
          simp only [builtinScalars, List.mem_append, List.mem_cons, List.not_mem_nil, or_false]
          tauto

theorem denotesFinite_of_coerce (h : coerce schema type text = .ok v) (hv : v ≠ .null)
    (hfloat : type = "Float") : DenotesFinite text := by
  subst hfloat
  rcases coerce_float_eq_ok h with ⟨-, -, -, hfinite⟩ | ⟨hnull, -⟩
  · exact hfinite
  · exact absurd hnull hv

/-! ### One value after the other -/

/-- Default values with one more, where they are an object. -/
def withValue (field : String) (value : Json) : Json → Json
  | .obj fields => .obj (Dict.insertList field value fields)
  | other       => other

theorem get?_setDefault (field : String) (value : Json) (r : Resource) :
    (setDefault field value r).get? "defaults"
      = some (withValue field value ((r.get? "defaults").getD (.obj []))) := by
  unfold setDefault
  split
  · next fields hfields => rw [Resource.get?_set, if_pos rfl, hfields, withValue]
  · next hother =>
    cases hr : r.get? "defaults" with
    | none => exact absurd (by rw [hr]; rfl) (hother [])
    | some v =>
      cases v with
      | obj fields => exact absurd (by rw [hr]; rfl) (hother fields)
      | _ => rfl

theorem defaults?_attach (c : Context) (d : Default) (model : String) :
    (attach c d).resources.defaults? model
      = if model = d.model then
          some (withValue d.field d.value ((c.resources.defaults? model).getD (.obj [])))
        else c.resources.defaults? model := by
  rw [ResourceGraph.defaults?, ResourceGraph.defaults?, attach, ResourceGraph.property?,
    ResourceGraph.property?, Context.get?_addResolver]
  by_cases hm : model = d.model
  · subst hm
    rw [if_pos rfl, if_pos rfl, Option.bind_some, get?_setDefault]
    cases c.resources.get? (resolverId "Mutation" ("create" ++ d.model)) with
    | none => rw [Option.getD_none, Context.get?_newResolver_eq_none _ _ _ _ _ (by decide),
        Option.bind_none]
    | some r => rfl
  · rw [if_neg hm, if_neg fun he => hm ((String.append_right_inj _).1 (fieldName_inj he))]

theorem takesDefaults_attach (c : Context) (d : Default) (model : String) :
    (attach c d).resources.TakesDefaults model ↔ c.resources.TakesDefaults model := by
  unfold ResourceGraph.TakesDefaults
  rw [defaults?_attach]
  split
  · cases c.resources.defaults? model with
    | none => simp [withValue, Json.isObj]
    | some v => cases v <;> simp [withValue, Json.isObj]
  · rfl

/-- A field gets its value, and every other field keeps the one that it has. -/
theorem default?_attach {c : Context} (d : Default) {model : String}
    (h : c.resources.TakesDefaults model) (field : String) :
    (attach c d).resources.default? model field
      = if d.model = model ∧ d.field = field then some d.value
        else c.resources.default? model field := by
  rw [ResourceGraph.default?, ResourceGraph.default?, defaults?_attach]
  by_cases hm : model = d.model
  · subst hm
    have inserted : ∀ fields, Dict.findList? field (Dict.insertList d.field d.value fields)
        = if d.field = field then some d.value else Dict.findList? field fields := fun fields => by
      split
      · next he => rw [he, Dict.findList?_insertList_self]
      · next hne => rw [Dict.findList?_insertList_of_ne (Ne.symm hne)]
    rw [if_pos rfl, Option.bind_some]
    cases hv : c.resources.defaults? d.model with
    | none => simpa [withValue, Json.get?, Dict.findList?] using inserted []
    | some v =>
      cases v with
      | obj fields => simpa [withValue, Json.get?] using inserted fields
      | _ => cases h _ hv
  · rw [if_neg hm, if_neg fun he => hm he.1.symm]

/-! ### The fields of a schema -/

/-- The value of a field with a default value. -/
def value? (schema : Document) (f : FieldDefinition) : Option Json :=
  f.defaultText?.bind fun text => (coerce schema f.type.baseName text).toOption

theorem value?_eq_some_iff {f : FieldDefinition} : value? schema f = some v ↔
    ∃ text, f.defaultText? = some text ∧ coerce schema f.type.baseName text = .ok v := by
  rw [value?, Option.bind_eq_some_iff]
  refine exists_congr fun text => and_congr_right fun _ => ?_
  cases coerce schema f.type.baseName text with
  | ok w => simp [Except.toOption]
  | error e => simp [Except.toOption]

/-- A default value is that of a field of a type. -/
structure Reads (schema : Document) (p : TypeDefinition × FieldDefinition) (d : Default) :
    Prop where
  model : d.model = p.1.name
  field : d.field = p.2.name
  value : value? schema p.2 = some d.value

theorem reads_of_defaultOf {c : Context} {t : TypeDefinition} {f : FieldDefinition}
    {dir : Directive} {d : Default} (hdir : f.directive? "default" = some dir)
    (h : defaultOf c t f dir = .ok d) : Reads c.schema (t, f) d := by
  simp only [defaultOf] at h
  split at h
  · cases h
  · split at h
    · cases h
    · obtain ⟨text, htext, h⟩ := Except.bind_eq_ok h
      have given : f.defaultText? = some text := by
        rw [FieldDefinition.defaultText?, hdir, Option.bind_some,
          Directive.requiredString_eq_ok.1 htext]
      split at h
      · next v hv =>
        cases h
        exact ⟨rfl, rfl, value?_eq_some_iff.2 ⟨text, given, hv⟩⟩
      · cases h

/-- The default values of a schema are those of its fields, one by one. -/
theorem forall₂_of_defaults {c : Context} {ds : List Default} (h : defaults c = .ok ds) :
    List.Forall₂ (Reads c.schema) (c.schema.fieldsWith "default") ds := by
  rw [← map_directedFields c "default", List.forall₂_map_left_iff]
  exact Except.forall₂_of_mapM h fun ⟨t, f, dir⟩ hmem _ hd =>
    reads_of_defaultOf (mem_directedFields hmem).2.2 hd

theorem exists_value? {fields : List (TypeDefinition × FieldDefinition)} {ds : List Default}
    (hreads : List.Forall₂ (Reads schema) fields ds) {p : TypeDefinition × FieldDefinition}
    (hp : p ∈ fields) : ∃ v, value? schema p.2 = some v := by
  induction hreads with
  | nil => cases hp
  | cons hd _ ih =>
    rcases List.mem_cons.1 hp with rfl | hp
    · exact ⟨_, hd.value⟩
    · exact ih hp

/-- The last field of a name in the types of a name. -/
def lastNamed? (fields : List (TypeDefinition × FieldDefinition)) (type field : String) :
    Option FieldDefinition :=
  ((fields.filter fun p => p.1.name = type ∧ p.2.name = field).getLast?).map (·.2)

theorem lastNamed?_cons (p : TypeDefinition × FieldDefinition)
    (fields : List (TypeDefinition × FieldDefinition)) (type field : String) :
    lastNamed? (p :: fields) type field = (lastNamed? fields type field).or
      (if p.1.name = type ∧ p.2.name = field then some p.2 else none) := by
  unfold lastNamed?
  rw [List.filter_cons]
  by_cases hp : p.1.name = type ∧ p.2.name = field
  · rw [if_pos (decide_eq_true hp), if_pos hp, List.getLast?_cons]
    cases (fields.filter fun p => p.1.name = type ∧ p.2.name = field).getLast? <;> rfl
  · rw [if_neg (by simpa using hp), if_neg hp, Option.or_none]

theorem exists_lastNamed? {fields : List (TypeDefinition × FieldDefinition)} {t : TypeDefinition}
    {f : FieldDefinition} (h : (t, f) ∈ fields) :
    ∃ g, lastNamed? fields t.name f.name = some g := by
  have hne : (fields.filter fun p => p.1.name = t.name ∧ p.2.name = f.name) ≠ [] :=
    List.ne_nil_of_mem (List.mem_filter.2 ⟨h, by simp⟩)
  exact ⟨_, by rw [lastNamed?, List.getLast?_eq_some_getLast hne, Option.map_some]⟩

theorem mem_of_lastNamed? {fields : List (TypeDefinition × FieldDefinition)} {type field : String}
    {g : FieldDefinition} (h : lastNamed? fields type field = some g) :
    ∃ p ∈ fields, p.2 = g := by
  obtain ⟨p, hp, rfl⟩ := Option.map_eq_some_iff.1 h
  exact ⟨p, (List.mem_filter.1 (List.mem_of_getLast? hp)).1, rfl⟩

/-- The value of a field is that of the last field of its names. -/
theorem default?_foldl_attach {fields : List (TypeDefinition × FieldDefinition)}
    {ds : List Default} (hreads : List.Forall₂ (Reads schema) fields ds) {c : Context}
    {model : String} (h : c.resources.TakesDefaults model) (field : String) :
    (ds.foldl attach c).resources.default? model field
      = ((lastNamed? fields model field).bind (value? schema)).or
        (c.resources.default? model field) := by
  induction hreads generalizing c with
  | nil => rfl
  | @cons p d fields ds hp hrest ih =>
    rw [List.foldl_cons, ih ((takesDefaults_attach c d model).2 h), default?_attach d h,
      lastNamed?_cons, hp.model, hp.field]
    cases hlast : lastNamed? fields model field with
    | some g =>
      obtain ⟨q, hq, rfl⟩ := mem_of_lastNamed? hlast
      obtain ⟨v, hv⟩ := exists_value? hrest hq
      rw [Option.some_or, Option.bind_some, hv, Option.some_or, Option.some_or]
    | none =>
      rw [Option.none_or, Option.bind_none, Option.none_or]
      split
      · rw [Option.bind_some, hp.value, Option.some_or]
      · rfl

theorem takesDefaults_foldl_attach (ds : List Default) (c : Context) (model : String) :
    (ds.foldl attach c).resources.TakesDefaults model ↔ c.resources.TakesDefaults model :=
  List.foldlRecOn (motive := fun d : Context =>
    d.resources.TakesDefaults model ↔ c.resources.TakesDefaults model) ds attach Iff.rfl
    fun d hd a _ => (takesDefaults_attach d a model).trans hd

/-! ### A run of the pass -/

/-- A field has a default value of its type, which is not null. -/
def Typed (schema : Document) (g : ResourceGraph) (t : TypeDefinition) (f : FieldDefinition) :
    Prop :=
  ∃ text v, f.defaultText? = some text ∧ g.default? t.name f.name = some v
    ∧ IsValueOf schema text f.type.baseName v ∧ v ≠ .null

/-- A field is given a value that is of its type: its model takes default values, the last field of
its names denotes a number if it is a float, and where that is another field, its value is one for
this field too. -/
structure Settled (schema : Document) (g : ResourceGraph) (t : TypeDefinition)
    (f : FieldDefinition) : Prop where
  takes  : g.TakesDefaults t.name
  finite : ∀ h text, lastNamed? (schema.fieldsWith "default") t.name f.name = some h →
    h.defaultText? = some text → h.type.baseName = "Float" → DenotesFinite text
  alike  : ∀ h text v, lastNamed? (schema.fieldsWith "default") t.name f.name = some h → h ≠ f →
    f.defaultText? = some text → value? schema h = some v →
      IsValueOf schema text f.type.baseName v

variable {s t : PassState} {u : TypeDefinition} {f : FieldDefinition}

theorem exists_of_apply (h : apply.on s = (.ok (), t)) :
    ∃ ds, List.Forall₂ (Reads s.context.schema) (s.context.schema.fieldsWith "default") ds
      ∧ t.context.resources = (ds.foldl attach s.context).resources := by
  rw [apply, on_examine_bind] at h
  split at h
  · next ds hds =>
    cases h
    exact ⟨ds, forall₂_of_defaults hds, rfl⟩
  · cases (Prod.mk.inj h).1

theorem takesDefaults_of_apply (h : apply.on s = (.ok (), t)) (model : String) :
    t.context.resources.TakesDefaults model ↔ s.context.resources.TakesDefaults model := by
  obtain ⟨ds, -, hresources⟩ := exists_of_apply h
  rw [hresources, takesDefaults_foldl_attach]

theorem exists_value?_of_apply (h : apply.on s = (.ok (), t)) {p : TypeDefinition × FieldDefinition}
    (hp : p ∈ s.context.schema.fieldsWith "default") :
    ∃ v, value? s.context.schema p.2 = some v := by
  obtain ⟨ds, hreads, -⟩ := exists_of_apply h
  exact exists_value? hreads hp

/-- What is there after the pass is the value of the last field, or else what was there before. -/
theorem default?_of_apply (h : apply.on s = (.ok (), t)) {model : String}
    (htakes : s.context.resources.TakesDefaults model) (field : String) :
    t.context.resources.default? model field
      = ((lastNamed? (s.context.schema.fieldsWith "default") model field).bind
          (value? s.context.schema)).or (s.context.resources.default? model field) := by
  obtain ⟨ds, hreads, hresources⟩ := exists_of_apply h
  rw [hresources, default?_foldl_attach hreads htakes]

/-- **Where a default value is one of the field's type**: wherever the pass ends well, a field with
`@default` has a default value of its type exactly where it is given such a value. -/
theorem typed_iff_of_apply (h : apply.on s = (.ok (), t))
    (hf : (u, f) ∈ s.context.schema.fieldsWith "default") :
    Typed s.context.schema t.context.resources u f
      ↔ Settled s.context.schema s.context.resources u f := by
  obtain ⟨g, hlast⟩ := exists_lastNamed? hf
  obtain ⟨p, hp, rfl⟩ := mem_of_lastNamed? hlast
  obtain ⟨v, hv⟩ := exists_value?_of_apply h hp
  obtain ⟨own, hown⟩ := exists_value?_of_apply h hf
  obtain ⟨text, htext, hcoerce⟩ := value?_eq_some_iff.1 hown
  obtain ⟨text', htext', hcoerce'⟩ := value?_eq_some_iff.1 hv
  have given : s.context.resources.TakesDefaults u.name →
      t.context.resources.default? u.name f.name = some v := fun htakes => by
    rw [default?_of_apply h htakes, hlast, Option.bind_some, hv, Option.some_or]
  constructor
  · rintro ⟨text₁, v₁, htext₁, hdefault, hvalue, hnull⟩
    have htakes := (takesDefaults_of_apply h u.name).1
      (ResourceGraph.takesDefaults_of_default? hdefault)
    cases (given htakes).symm.trans hdefault
    refine ⟨htakes, fun g text₂ hg htext₂ hfloat => ?_, fun g text₂ v₂ hg _ htext₂ hv₂ => ?_⟩
    · cases hlast.symm.trans hg
      cases htext'.symm.trans htext₂
      exact denotesFinite_of_coerce hcoerce' hnull hfloat
    · cases hlast.symm.trans hg
      cases htext₁.symm.trans htext₂
      cases hv.symm.trans hv₂
      exact hvalue
  · rintro ⟨htakes, hfinite, halike⟩
    have hvalue : IsValueOf s.context.schema text f.type.baseName v := by
      by_cases he : p.2 = f
      · cases he
        cases hown.symm.trans hv
        exact (isValueOf_iff_of_coerce hcoerce).2 (hfinite _ text hlast htext)
      · exact halike _ text v hlast he htext hv
    exact ⟨text, v, htext, given htakes, hvalue, hvalue.ne_null⟩

/-- A rating of posts, which is given as a text. -/
def rating (text : String) : FieldDefinition where
  name       := "rating"
  type       := .named "Float"
  directives := [⟨"default", [("value", .string text)]⟩]

/-- Posts that are rated. -/
def ratedPost (text : String) : TypeDefinition where
  kind       := .object
  name       := "Post"
  directives := [⟨"model", []⟩]
  fields     := [rating text]

/-- A table of posts that are rated. -/
def ratedPosts (text : String) : PassState where
  context :=
    { schema    := ⟨[ratedPost text]⟩
      resources := .ofList ([⟨tableId "Post", .table, ∅, none⟩]) }

theorem typed_iff_ratedPosts : ∃ t, apply.on (ratedPosts "2.5") = (.ok (), t)
    ∧ (ratedPost "2.5", rating "2.5") ∈ (ratedPosts "2.5").context.schema.fieldsWith "default"
    ∧ Typed (ratedPosts "2.5").context.schema t.context.resources (ratedPost "2.5")
      (rating "2.5") := by
  have ends := Action.on_eq_of_isOk (x := apply) (s := ratedPosts "2.5") (by decide +kernel)
  have listed : (ratedPost "2.5", rating "2.5")
      ∈ (ratedPosts "2.5").context.schema.fieldsWith "default" := by decide
  refine ⟨_, ends, listed, (typed_iff_of_apply ends listed).2 ⟨?_, ?_, ?_⟩⟩
  · intro v hv
    cases hv
  · intro h text hlast htext _
    cases hlast
    cases htext
    exact ⟨.ofDecimal false 25 (-1), by decide +kernel⟩
  · intro h text v hlast hne
    cases hlast
    exact absurd rfl hne

/-- The text for the undefined number is taken for a float, and its value is null. -/
theorem not_typed_ratedPosts :
    ∃ t, apply.on (ModelPass.leftOf { schema := ⟨[ratedPost "NaN"]⟩ }) = (.ok (), t)
      ∧ ∃ p ∈ (ModelPass.leftOf { schema := ⟨[ratedPost "NaN"]⟩ }).context.schema.fieldsWith
          "default",
        p.2.type.isList = false ∧ ¬ Typed
          (ModelPass.leftOf { schema := ⟨[ratedPost "NaN"]⟩ }).context.schema
          t.context.resources p.1 p.2 := by
  have ends := Action.on_eq_of_isOk (x := apply)
    (s := ModelPass.leftOf { schema := ⟨[ratedPost "NaN"]⟩ }) (by decide +kernel)
  refine ⟨_, ends, ?_⟩
  obtain ⟨p, hp, hlist, hnull⟩ : ∃ p ∈
      (ModelPass.leftOf { schema := ⟨[ratedPost "NaN"]⟩ }).context.schema.fieldsWith "default",
      p.2.type.isList = false ∧ (apply.on (ModelPass.leftOf { schema := ⟨[ratedPost "NaN"]⟩ })
        ).2.context.resources.default? p.1.name p.2.name = some .null := by decide +kernel
  refine ⟨p, hp, hlist, ?_⟩
  rintro ⟨_, v, -, hv, -, hne⟩
  exact hne (Option.some.inj (hv.symm.trans hnull))

end DefaultPass

end ApiCompiler
