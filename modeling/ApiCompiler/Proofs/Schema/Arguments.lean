import ApiCompiler.Proofs.Dict
import ApiCompiler.Proofs.Schema.Fragments
import ApiCompiler.Proofs.Schema.RoundTrip

/-!
# Schema — arguments that are given twice

An argument of a directive is looked up alone, or in the object of all arguments. The first of its
values is found alone and the last one in the object. Nothing keeps a text from giving an argument
twice.

* `lastIn?_eq_some_iff`, `findList?_eq_some_iff`: the last and the first value of a key.
* `Directive.get?_argumentsJson`: what the object of all arguments has under a name.
* `Directive.readsAlike_exact`: where both readings agree, and that every list of arguments is read
  off a text.
-/

namespace ApiCompiler

namespace Dict

variable {α β : Type}

/-- The first value of a key in a list of pairs. -/
theorem findList?_eq_some_iff {k : String} {v : α} {pairs : List (String × α)} :
    findList? k pairs = some v ↔
      ∃ front back, pairs = front ++ (k, v) :: back ∧ k ∉ front.map (·.1) := by
  constructor
  · intro h
    induction pairs with
    | nil => cases h
    | cons p rest ih =>
      obtain ⟨l, w⟩ := p
      rw [findList?] at h
      split at h
      · next he =>
        cases h
        exact ⟨[], rest, he ▸ rfl, List.not_mem_nil⟩
      · next hne =>
        obtain ⟨front, back, rfl, hfront⟩ := ih h
        exact ⟨(l, w) :: front, back, rfl, fun hmem => (List.mem_cons.1 hmem).elim hne hfront⟩
  · rintro ⟨front, back, rfl, hfront⟩
    rw [findList?_append, findList?_eq_none_iff.2 hfront, Option.none_or, findList?, if_pos rfl]

theorem lastIn?_cons (k : String) (p : String × α) (rest : List (String × α)) :
    lastIn? k (p :: rest) = (lastIn? k rest).or (if p.1 = k then some p.2 else none) := by
  rw [← lastIn?_singleton, ← lastIn?_append, List.singleton_append]

/-- The last value of a key in a list of pairs. -/
theorem lastIn?_eq_some_iff {k : String} {v : α} {pairs : List (String × α)} :
    lastIn? k pairs = some v ↔
      ∃ front back, pairs = front ++ (k, v) :: back ∧ k ∉ back.map (·.1) := by
  constructor
  · intro h
    induction pairs with
    | nil => cases h
    | cons p rest ih =>
      rw [lastIn?_cons] at h
      cases hrest : lastIn? k rest with
      | some w =>
        rw [hrest, Option.some_or] at h
        obtain ⟨front, back, rfl, hback⟩ := ih (hrest.trans h)
        exact ⟨p :: front, back, rfl, hback⟩
      | none =>
        rw [hrest, Option.none_or, Option.ite_none_right_eq_some] at h
        obtain ⟨rfl, hv⟩ := h
        cases hv
        exact ⟨[], rest, rfl, lastIn?_eq_none_iff.1 hrest⟩
  · rintro ⟨front, back, rfl, hback⟩
    rw [lastIn?_append, lastIn?_cons, lastIn?_eq_none_iff.2 hback, if_pos rfl]
    rfl

theorem lastIn?_map (f : α → β) (k : String) (pairs : List (String × α)) :
    lastIn? k (pairs.map fun p => (p.1, f p.2)) = (lastIn? k pairs).map f := by
  induction pairs with
  | nil => rfl
  | cons p rest ih =>
    rw [List.map_cons, lastIn?_cons, lastIn?_cons, ih, Option.map_or]
    congr 1
    split <;> rfl

end Dict

theorem Value.toJsonFields_eq (fields : List (String × Value)) :
    toJsonFields fields = fields.map fun p => (p.1, p.2.toJson) := by
  induction fields with
  | nil => rfl
  | cons p rest ih => rw [toJsonFields, ih, List.map_cons]

namespace Directive

/-- Whether an argument that is looked up alone is what the object of all arguments has there, both
being absent together. -/
def ReadsAlike (d : Directive) (name : String) : Prop :=
  (d.argument? name).map Value.toJson = d.argumentsJson.get? name

/-- Whether `v` is the first value that an argument is given. -/
def GivesFirst (d : Directive) (name : String) (v : Value) : Prop :=
  ∃ front back, d.arguments = front ++ (name, v) :: back ∧ name ∉ front.map (·.1)

/-- Whether `v` is the last value that an argument is given. -/
def GivesLast (d : Directive) (name : String) (v : Value) : Prop :=
  ∃ front back, d.arguments = front ++ (name, v) :: back ∧ name ∉ back.map (·.1)

theorem argument?_eq_some_iff {d : Directive} {name : String} {v : Value} :
    d.argument? name = some v ↔ d.GivesFirst name v := Dict.findList?_eq_some_iff

/-- The object of all arguments has the last value of each. -/
theorem get?_argumentsJson (d : Directive) (name : String) :
    d.argumentsJson.get? name = (Dict.lastIn? name d.arguments).map Value.toJson := by
  show (Dict.ofList (Value.toJsonFields d.arguments)).find? name = _
  rw [Dict.find?_ofList, Value.toJsonFields_eq, Dict.lastIn?_map]

/-- Both readings agree on an argument where its first and its last value have one JSON form. -/
theorem readsAlike_iff (d : Directive) (name : String) :
    d.ReadsAlike name ↔
      ∀ v w, d.GivesFirst name v → d.GivesLast name w → v.toJson = w.toJson := by
  rw [ReadsAlike, get?_argumentsJson]
  constructor
  · intro h v w hv hw
    rw [argument?_eq_some_iff.2 hv, Dict.lastIn?_eq_some_iff.2 hw] at h
    exact Option.some.inj h
  · intro h
    cases hv : d.argument? name with
    | none =>
      have hnone : name ∉ d.arguments.map (·.1) := Dict.findList?_eq_none_iff.1 hv
      rw [Dict.lastIn?_eq_none_iff.2 hnone, Option.map_none]
    | some v =>
      have hmem : name ∈ d.arguments.map (·.1) :=
        List.mem_map.2 ⟨_, Dict.mem_of_findList? hv, rfl⟩
      obtain ⟨w, hw⟩ := Dict.exists_lastIn? hmem
      rw [hw, Option.map_some, Option.map_some,
        h v w (argument?_eq_some_iff.1 hv) (Dict.lastIn?_eq_some_iff.1 hw)]

/-- A directive whose text says what it is stands in a text that is accepted. -/
theorem exists_parse {d : Directive} (hw : d.isWellFormed = true) (hr : d.isReadable = true) :
    ∃ text doc, Document.parse text = .ok doc ∧ d ∈ doc.directives := by
  let marked : TypeDefinition := { kind := .scalar, name := "Marked", directives := [d] }
  have hname : Schema.isName "Marked" = true := by decide
  refine ⟨_, ⟨[marked]⟩, Document.parse_of_isReadable ?_ ?_, ?_⟩
  · simp [Document.isWellFormed, TypeDefinition.isWellFormed, TypeDefinition.fitsKind, marked, hw,
      hname, TypeKind.hasMembers]
  · simp [Document.isReadable, TypeDefinition.isReadable, marked, hr]
  · simp [Document.directives, marked]

/-- **Where the two readings of a directive agree**: on each argument whose first and last value
have one JSON form. Accepted texts have every directive whose text says what it is, those that give
an argument twice among them. -/
theorem readsAlike_exact (d : Directive) :
    (∀ name, d.ReadsAlike name ↔
        ∀ v w, d.GivesFirst name v → d.GivesLast name w → v.toJson = w.toJson)
      ∧ (d.isWellFormed = true → d.isReadable = true →
          ∃ text doc, Document.parse text = .ok doc ∧ d ∈ doc.directives) :=
  ⟨d.readsAlike_iff, exists_parse⟩

/-- An index that is given two names. -/
def twiceNamed : Directive :=
  ⟨"index", [("name", .string "byTitle"), ("name", .string "byText")]⟩

/-- The two readings of its name differ, and it stands in a text that is accepted. -/
theorem readsAlike_exact_twiceNamed :
    ¬ twiceNamed.ReadsAlike "name"
      ∧ ∃ text doc, Document.parse text = .ok doc ∧ twiceNamed ∈ doc.directives := by
  obtain ⟨halike, hread⟩ := readsAlike_exact twiceNamed
  refine ⟨fun h => ?_, hread (by decide) (by decide)⟩
  have hsame := (halike "name").1 h (.string "byTitle") (.string "byText")
    ⟨[], _, rfl, by decide⟩ ⟨[_], [], rfl, by decide⟩
  exact absurd hsame (by decide)

/-- A text with such an index. -/
def twiceNamedText : String :=
  "type Post @model \x7b title: String @index(name: \"byTitle\", name: \"byText\") \x7d"

/-- The type with that index. -/
def twiceNamedType : TypeDefinition where
  kind := .object
  name := "Post"
  directives := [⟨"model", []⟩]
  fields := [{ name := "title", type := .named "String", directives := [twiceNamed] }]

/-- The first name is found alone, and the second one in the object of all arguments. -/
theorem not_readsAlike_twiceNamed :
    ¬(∀ text doc, Document.parse text = .ok doc → ∀ d ∈ doc.directives, ∀ name, d.ReadsAlike name)
      ∧ (twiceNamed.argument? "name").map Value.toJson = some (.str "byTitle")
      ∧ twiceNamed.argumentsJson.get? "name" = some (.str "byText") := by
  refine ⟨fun h => ?_, by decide, by decide⟩
  have hparse : Document.parse twiceNamedText = .ok ⟨[twiceNamedType]⟩ :=
    Document.parse_eq_ok_iff.2 (by decide +kernel)
  have hboth := h _ _ hparse twiceNamed (by decide) "name"
  revert hboth
  unfold ReadsAlike
  decide

end Directive

end ApiCompiler
