import ApiCompiler.Schema.Basic
import ApiCompiler.Text.Case
import Mathlib.Data.List.Forall2

/-!
# Schema — documents that grow

Passes change a schema by adding to it: definitions behind those that are there, fields behind those
of a definition, `@model` on the type of a join. Only a field that links to many records gets
another type.

* `HasField`: what some field of a type has, in any of its definitions.
* `GrownTo`: what such changes leave of a document; `GrownTo.trans` reads several of them off the
  first document alone.
* `HasField.mono`, `HasField.of_grownTo`: directives come from the first document, and stay.
* `NamesOnce`: no name is declared twice, which such changes keep.
-/

namespace ApiCompiler

/-! ### Lists that grow -/

section Lists

variable {α : Type} {R S T : α → α → Prop} {P : α → Prop} {p : α → Bool} {xs ys zs : List α}

/-- `ys` has the items of `xs`, in their order and each changed by `R`, and behind them further ones
that have the property `P`. -/
def GrownBy (R : α → α → Prop) (P : α → Prop) (xs ys : List α) : Prop :=
  ∃ kept added, ys = kept ++ added ∧ List.Forall₂ R xs kept ∧ ∀ a ∈ added, P a

theorem exists_of_mem_forall₂ {β γ : Type} {Q : β → γ → Prop} {bs : List β} {cs : List γ}
    (h : List.Forall₂ Q bs cs) {b : β} (hb : b ∈ bs) : ∃ c ∈ cs, Q b c := by
  induction h with
  | nil => cases hb
  | cons hq _ ih =>
    rcases List.mem_cons.1 hb with rfl | hb
    · exact ⟨_, List.mem_cons_self, hq⟩
    · obtain ⟨c, hc, hbc⟩ := ih hb
      exact ⟨c, List.mem_cons_of_mem _ hc, hbc⟩

theorem forall₂_comp {β γ δ : Type} {Q : β → γ → Prop} {Q' : γ → δ → Prop} {Q'' : β → δ → Prop}
    {bs : List β} {cs : List γ} {ds : List δ} (comp : ∀ a b c, Q a b → Q' b c → Q'' a c)
    (h : List.Forall₂ Q bs cs) (h' : List.Forall₂ Q' cs ds) : List.Forall₂ Q'' bs ds := by
  induction h generalizing ds with
  | nil =>
    cases h'
    exact .nil
  | cons hr _ ih =>
    cases h' with
    | cons hs hrest => exact .cons (comp _ _ _ hr hs) (ih hrest)

/-- The first item of a kind is of that kind. -/
theorem of_findIdx? {k : Nat} {a : α} (hk : xs.findIdx? p = some k) (ha : xs[k]? = some a) :
    p a = true := by
  obtain ⟨hlt, hp, -⟩ := List.findIdx?_eq_some_iff_getElem.1 hk
  rw [List.getElem?_eq_getElem hlt] at ha
  rwa [Option.some.inj ha] at hp

theorem getElem?_of_forall₂ {β γ : Type} {Q : β → γ → Prop} {bs : List β} {cs : List γ}
    (h : List.Forall₂ Q bs cs) {k : Nat} {b : β} (hb : bs[k]? = some b) :
    ∃ c, cs[k]? = some c ∧ Q b c := by
  induction h generalizing k with
  | nil => cases hb
  | cons hq _ ih =>
    cases k with
    | zero =>
      cases hb
      exact ⟨_, rfl, hq⟩
    | succ k => exact ih hb

namespace GrownBy

theorem append (hR : ∀ a, R a a) {added : List α} (h : ∀ a ∈ added, P a) :
    GrownBy R P xs (xs ++ added) :=
  ⟨xs, added, rfl, List.forall₂_same.2 fun a _ => hR a, h⟩

theorem refl (hR : ∀ a, R a a) (xs : List α) : GrownBy R P xs xs :=
  ⟨xs, [], (List.append_nil xs).symm, List.forall₂_same.2 fun a _ => hR a, nofun⟩

theorem modifyFirst (hR : ∀ a, R a a) {p : α → Bool} {f : α → α}
    (h : ∀ a ∈ xs, p a = true → R a (f a)) : GrownBy R P xs (modifyFirst p f xs) := by
  refine ⟨_, [], (List.append_nil _).symm, ?_, nofun⟩
  induction xs with
  | nil => exact .nil
  | cons a as ih =>
    by_cases hp : p a = true
    · rw [ApiCompiler.modifyFirst, if_pos hp]
      exact .cons (h a List.mem_cons_self hp) (List.forall₂_same.2 fun a _ => hR a)
    · rw [ApiCompiler.modifyFirst, if_neg hp]
      exact .cons (hR a) (ih fun b hb => h b (List.mem_cons_of_mem a hb))

/-- Changes one after the other. -/
theorem trans (h : GrownBy R P xs ys) (h' : GrownBy S P ys zs)
    (comp : ∀ a b c, R a b → S b c → T a c) (keep : ∀ a b, P a → S a b → P b) :
    GrownBy T P xs zs := by
  obtain ⟨kept, added, rfl, hk, ha⟩ := h
  obtain ⟨kept', added', rfl, hk', ha'⟩ := h'
  refine ⟨kept'.take kept.length, kept'.drop kept.length ++ added', ?_, ?_, fun b hb => ?_⟩
  · rw [← List.append_assoc, List.take_append_drop]
  · have htake := List.forall₂_take kept.length hk'
    rw [List.take_left] at htake
    exact forall₂_comp comp hk htake
  · rcases List.mem_append.1 hb with hb | hb
    · have hdrop := List.forall₂_drop kept.length hk'
      rw [List.drop_left] at hdrop
      obtain ⟨a, hmem, hs⟩ := exists_of_mem_forall₂ hdrop.flip hb
      exact keep a b (ha a hmem) hs
    · exact ha' b hb

/-- Every item is kept, changed. -/
theorem exists_of_mem (h : GrownBy R P xs ys) {a : α} (ha : a ∈ xs) : ∃ b ∈ ys, R a b := by
  obtain ⟨kept, added, rfl, hk, -⟩ := h
  obtain ⟨b, hb, hr⟩ := exists_of_mem_forall₂ hk ha
  exact ⟨b, List.mem_append_left added hb, hr⟩

/-- An item is a further one, or one that is kept. -/
theorem exists_of_mem' (h : GrownBy R P xs ys) {b : α} (hb : b ∈ ys) :
    P b ∨ ∃ a ∈ xs, R a b := by
  obtain ⟨kept, added, rfl, hk, ha⟩ := h
  rcases List.mem_append.1 hb with hb | hb
  · exact .inr (exists_of_mem_forall₂ (Q := flip R) hk.flip hb)
  · exact .inl (ha b hb)

theorem imp {Q : α → Prop} (h : GrownBy R P xs ys) (hR : ∀ a b, R a b → S a b)
    (hP : ∀ a, P a → Q a) : GrownBy S Q xs ys := by
  obtain ⟨kept, added, he, hkept, hadded⟩ := h
  exact ⟨kept, added, he, hkept.imp hR, fun a ha => hP a (hadded a ha)⟩

/-- The first item of a kind stays the first, where no item changes its kind. -/
theorem find? {p : α → Bool} (h : GrownBy R P xs ys) (hp : ∀ a b, R a b → p b = p a) {a : α}
    (ha : xs.find? p = some a) : ∃ b, ys.find? p = some b ∧ R a b := by
  obtain ⟨kept, added, rfl, hkept, -⟩ := h
  suffices found : ∃ b, kept.find? p = some b ∧ R a b by
    obtain ⟨b, hb, hr⟩ := found
    exact ⟨b, by rw [List.find?_append, hb, Option.some_or], hr⟩
  induction hkept with
  | nil => cases ha
  | cons hr _ ih =>
    rw [List.find?_cons] at ha ⊢
    rw [hp _ _ hr]
    split at ha
    · cases ha
      exact ⟨_, rfl, hr⟩
    · exact ih ha

/-- The items that were there keep their numbers. -/
theorem exists_getElem? (h : GrownBy R P xs ys) {k : Nat} {a : α} (ha : xs[k]? = some a) :
    ∃ b, ys[k]? = some b ∧ R a b := by
  obtain ⟨kept, added, rfl, hkept, -⟩ := h
  obtain ⟨b, hb, hr⟩ := getElem?_of_forall₂ hkept ha
  obtain ⟨hlt, -⟩ := List.getElem?_eq_some_iff.1 hb
  exact ⟨b, (List.getElem?_append_left hlt).trans hb, hr⟩

/-- What has a number is one of these items, or a further one. -/
theorem getElem?_cases (h : GrownBy R P xs ys) {k : Nat} {b : α} (hb : ys[k]? = some b) :
    P b ∨ ∃ a, xs[k]? = some a ∧ R a b := by
  obtain ⟨kept, added, rfl, hkept, hadded⟩ := h
  rw [List.getElem?_append] at hb
  split at hb
  · exact .inr (getElem?_of_forall₂ (Q := flip R) hkept.flip hb)
  · exact .inl (hadded b (List.mem_of_getElem? hb))

/-- The first item of a kind keeps its number, where no item changes its kind. -/
theorem findIdx?_iff (h : GrownBy R P xs ys) (hp : ∀ a b, R a b → p b = p a) {k : Nat}
    (hk : k < xs.length) : ys.findIdx? p = some k ↔ xs.findIdx? p = some k := by
  obtain ⟨kept, added, rfl, hkept, -⟩ := h
  have same : kept.findIdx? p = xs.findIdx? p := by
    clear hk
    induction hkept with
    | nil => rfl
    | cons hr _ ih => rw [List.findIdx?_cons, List.findIdx?_cons, hp _ _ hr, ih]
  rw [List.findIdx?_append, same]
  cases xs.findIdx? p with
  | some i => rw [Option.some_or]
  | none =>
    -- the numbers of further items are greater
    rw [Option.none_or, Option.map_eq_some_iff, ← hkept.length_eq]
    exact iff_of_false (fun ⟨i, _, he⟩ => by omega) nofun

end GrownBy

end Lists

/-! ### Fields of a type -/

namespace Document

/-- A field of a type, in any of its definitions, has a name and directives with a property. -/
def HasField (d : Document) (type : String) (p : String → List Directive → Prop) : Prop :=
  ∃ t ∈ d.definitions, t.name = type ∧ ∃ f ∈ t.fields, p f.name f.directives

/-- A type has a field. -/
def Declares (d : Document) (type field : String) : Prop :=
  d.HasField type fun name _ => name = field

/-- A type has the fields of a key. -/
def HasKey (d : Document) (type partitionKey : String) (sortKeys : List String) : Prop :=
  ∀ field ∈ partitionKey :: sortKeys, d.Declares type field

/-- A field of a type links to many records. -/
def LinksToMany (d : Document) (type field : String) : Prop :=
  d.HasField type fun name directives => name = field
    ∧ ((findDirective? "hasMany" directives).isSome = true
      ∨ (findDirective? "manyToMany" directives).isSome = true)

/-- A type is the one that a relation between many records is joined by. -/
def IsJoin (d : Document) (name : String) : Prop :=
  ∃ type, d.HasField type fun _ directives => ∃ m relation,
    findDirective? "manyToMany" directives = some m
      ∧ (m.argument? "relationName").bind Value.asString? = some relation
      ∧ name = Text.capitalize relation

/-- A type has a field that declares its key. -/
def DeclaresKey (d : Document) (type : String) : Prop :=
  d.HasField type fun _ directives => (findDirective? "primaryKey" directives).isSome = true

/-- A type has a base definition. -/
def IsTyped (d : Document) (type : String) : Prop := ∃ t ∈ d.definitions, isBase type t = true

end Document

/-! ### Documents that grow -/

/-- A field that keeps all but its type, and that too unless it may be another one. -/
structure FieldDefinition.KeptAs (retyped : Prop) (f f' : FieldDefinition) : Prop where
  name       : f'.name = f.name
  arguments  : f'.arguments = f.arguments
  directives : f'.directives = f.directives
  type       : f'.type = f.type ∨ retyped

/-- A definition of a document that may have become a model, if it is the type of a join, and may
have got further fields. -/
structure TypeDefinition.GrownTo (d : Document) (t t' : TypeDefinition) : Prop where
  kind       : t'.kind = t.kind
  name       : t'.name = t.name
  extends?   : t'.extends? = t.extends?
  implements : t'.implements = t.implements
  members    : t'.members = t.members
  directives : t'.directives = t.directives
    ∨ t'.directives = t.directives ++ [{ name := "model" }] ∧ t.hasDirective "model" = false
      ∧ d.IsJoin t.name
  fields     : GrownBy (fun f f' => f.KeptAs (d.LinksToMany t.name f.name) f')
    (fun f => f.directives = []) t.fields t'.fields

/-- A document whose definitions may have grown, and that may have got further ones. -/
def Document.GrownTo (d d' : Document) : Prop :=
  GrownBy (TypeDefinition.GrownTo d) (fun t => ∀ f ∈ t.fields, f.directives = [])
    d.definitions d'.definitions

namespace FieldDefinition.KeptAs

variable {retyped retyped' : Prop} {f g h : FieldDefinition}

theorem refl (f : FieldDefinition) : f.KeptAs retyped f := ⟨rfl, rfl, rfl, .inl rfl⟩

theorem trans (hf : f.KeptAs retyped g) (hg : g.KeptAs retyped' h) (hr : retyped' → retyped) :
    f.KeptAs retyped h where
  name := hg.name.trans hf.name
  arguments := hg.arguments.trans hf.arguments
  directives := hg.directives.trans hf.directives
  type := by
    rcases hg.type with ht | ht
    · exact hf.type.imp_left ht.trans
    · exact .inr (hr ht)

end FieldDefinition.KeptAs

theorem TypeDefinition.GrownTo.refl (d : Document) (t : TypeDefinition) : t.GrownTo d t :=
  ⟨rfl, rfl, rfl, rfl, rfl, .inl rfl, .refl (fun f => .refl f) _⟩

/-- The first directive of a name stays the first. -/
theorem TypeDefinition.GrownTo.directive?_eq_some {d : Document} {t t' : TypeDefinition}
    (h : t.GrownTo d t') {name : String} {i : Directive} (hi : t.directive? name = some i) :
    t'.directive? name = some i := by
  rw [TypeDefinition.directive?, findDirective?] at hi ⊢
  rcases h.directives with he | ⟨he, -, -⟩
  · rwa [he]
  · rw [he, List.find?_append, hi, Option.some_or]

namespace Document

variable {d d' d'' : Document} {type : String} {p q : String → List Directive → Prop}

theorem GrownTo.refl (d : Document) : d.GrownTo d := GrownBy.refl (.refl d) _

theorem HasField.imp (h : d.HasField type p) (hpq : ∀ name ds, p name ds → q name ds) :
    d.HasField type q := by
  obtain ⟨t, ht, hname, f, hf, hp⟩ := h
  exact ⟨t, ht, hname, f, hf, hpq _ _ hp⟩

/-- What a field has it keeps. -/
theorem HasField.mono (h : d.HasField type p) (hd : d.GrownTo d') : d'.HasField type p := by
  obtain ⟨t, ht, rfl, f, hf, hp⟩ := h
  obtain ⟨t', ht', hgrown⟩ := hd.exists_of_mem ht
  obtain ⟨f', hf', hkept⟩ := hgrown.fields.exists_of_mem hf
  exact ⟨t', ht', hgrown.name, f', hf', by rwa [hkept.name, hkept.directives]⟩

/-- A field that has directives has been there before. -/
theorem HasField.of_grownTo (h : d'.HasField type p) (hd : d.GrownTo d')
    (hp : ∀ name, ¬ p name []) : d.HasField type p := by
  obtain ⟨t', ht', rfl, f', hf', hpf⟩ := h
  have hdirected : f'.directives ≠ [] := fun he => hp f'.name (he ▸ hpf)
  rcases hd.exists_of_mem' ht' with hnew | ⟨t, ht, hgrown⟩
  · exact absurd (hnew f' hf') hdirected
  · rcases hgrown.fields.exists_of_mem' hf' with hnew | ⟨f, hf, hkept⟩
    · exact absurd hnew hdirected
    · exact ⟨t, ht, hgrown.name.symm, f, hf, by rwa [← hkept.name, ← hkept.directives]⟩

theorem LinksToMany.of_grownTo {field : String} (h : d'.LinksToMany type field)
    (hd : d.GrownTo d') : d.LinksToMany type field :=
  HasField.of_grownTo h hd fun _ hp => hp.2.elim nofun nofun

theorem IsJoin.of_grownTo {name : String} (h : d'.IsJoin name) (hd : d.GrownTo d') :
    d.IsJoin name :=
  h.imp fun _ hf => hf.of_grownTo hd fun _ ⟨_, _, hm, _⟩ => nomatch hm

theorem IsJoin.mono {name : String} (h : d.IsJoin name) (hd : d.GrownTo d') : d'.IsJoin name :=
  h.imp fun _ hf => hf.mono hd

theorem IsTyped.mono (h : d.IsTyped type) (hd : d.GrownTo d') : d'.IsTyped type := by
  obtain ⟨t, ht, hbase⟩ := h
  obtain ⟨t', ht', hgrown⟩ := hd.exists_of_mem ht
  exact ⟨t', ht', by rwa [isBase, hgrown.name, hgrown.extends?]⟩

/-- A definition keeps its directives. -/
theorem exists_mem_typesWith {directive : String} {t : TypeDefinition}
    (h : t ∈ d.typesWith directive) (hd : d.GrownTo d') :
    ∃ t' ∈ d'.typesWith directive, t'.name = t.name
      ∧ t'.directive? directive = t.directive? directive := by
  obtain ⟨ht, hp⟩ := List.mem_filter.1 h
  obtain ⟨t', ht', hgrown⟩ := hd.exists_of_mem ht
  rw [Bool.and_eq_true] at hp
  obtain ⟨i, hi⟩ := Option.isSome_iff_exists.1 hp.2
  have hi' := hgrown.directive?_eq_some hi
  refine ⟨t', List.mem_filter.2 ⟨ht', ?_⟩, hgrown.name, hi'.trans hi.symm⟩
  rw [Bool.and_eq_true, hgrown.kind]
  exact ⟨hp.1, Option.isSome_iff_exists.2 ⟨i, hi'⟩⟩

theorem HasKey.mono {partitionKey : String} {sortKeys : List String}
    (h : d.HasKey type partitionKey sortKeys) (hd : d.GrownTo d') :
    d'.HasKey type partitionKey sortKeys :=
  fun field hf => (h field hf).mono hd

theorem isTyped_of_getType? {t : TypeDefinition} (h : d.getType? type = some t) :
    d.IsTyped type :=
  ⟨t, List.mem_of_find?_eq_some h, List.find?_some h⟩

end Document

/-- Changes of a definition one after the other, where those of the second kind are read off a
document that has grown. -/
theorem TypeDefinition.GrownTo.trans {d d' : Document} {t u v : TypeDefinition}
    (hd : d.GrownTo d') (h : t.GrownTo d u) (h' : u.GrownTo d' v) : t.GrownTo d v where
  kind := h'.kind.trans h.kind
  name := h'.name.trans h.name
  extends? := h'.extends?.trans h.extends?
  implements := h'.implements.trans h.implements
  members := h'.members.trans h.members
  directives := by
    rcases h.directives with hu | ⟨hu, hlacks, hjoin⟩
    · rcases h'.directives with hv | ⟨hv, hlacks, hjoin⟩
      · exact .inl (hv.trans hu)
      · rw [h.name] at hjoin
        rw [hasDirective, directive?, hu] at hlacks
        exact .inr ⟨hu ▸ hv, hlacks, hjoin.of_grownTo hd⟩
    · rcases h'.directives with hv | ⟨-, hmarked, -⟩
      · exact .inr ⟨hv.trans hu, hlacks, hjoin⟩
      · -- a type is marked but once
        rw [hasDirective, directive?, hu, findDirective?, List.find?_append] at hmarked
        simp at hmarked
  fields := by
    refine h.fields.trans h'.fields (fun f g k hf hg => hf.trans hg fun hl => ?_)
      fun f g hf hg => ?_
    · rw [h.name, hf.name] at hl
      exact hl.of_grownTo hd
    · exact hg.directives.trans hf

/-- **Documents that grow one after the other** grow from the first to the last. -/
theorem Document.GrownTo.trans {d d' d'' : Document} (h : d.GrownTo d') (h' : d'.GrownTo d'') :
    d.GrownTo d'' := by
  refine GrownBy.trans h h' (fun t u v ht hu => ht.trans h hu) fun t u ht hu f hf => ?_
  rcases hu.fields.exists_of_mem' hf with hnew | ⟨g, hg, hkept⟩
  · exact hnew
  · exact hkept.directives.trans (ht g hg)

/-! ### Changes of a definition -/

namespace TypeDefinition

variable {d : Document} {t : TypeDefinition}

theorem isSome_field?_iff {name : String} :
    (t.field? name).isSome = true ↔ ∃ f ∈ t.fields, f.name = name := by
  simp only [field?, List.find?_isSome, beq_iff_eq]

theorem name_ensureField (t : TypeDefinition) (f : FieldDefinition) :
    (t.ensureField f).name = t.name := by
  unfold ensureField
  split <;> rfl

theorem extends?_ensureField (t : TypeDefinition) (f : FieldDefinition) :
    (t.ensureField f).extends? = t.extends? := by
  unfold ensureField
  split <;> rfl

theorem grownTo_ensureField (d : Document) (t : TypeDefinition) {f : FieldDefinition}
    (hf : f.directives = []) : t.GrownTo d (t.ensureField f) := by
  unfold ensureField
  split
  · exact .refl d t
  · refine ⟨rfl, rfl, rfl, rfl, rfl, .inl rfl, .append (fun f => .refl f) fun g hg => ?_⟩
    rw [List.mem_singleton.1 hg, hf]

theorem grownTo_addModel (hl : t.hasDirective "model" = false) (hj : d.IsJoin t.name) :
    t.GrownTo d (t.addDirective { name := "model" }) :=
  ⟨rfl, rfl, rfl, rfl, rfl, .inr ⟨rfl, hl, hj⟩, .refl (fun f => .refl f) _⟩

theorem grownTo_retype {field : String} (h : d.LinksToMany t.name field) (type : TypeRef) :
    t.GrownTo d (t.modifyField field fun f => { f with type }) := by
  refine ⟨rfl, rfl, rfl, rfl, rfl, .inl rfl, .modifyFirst (fun f => .refl f) fun f _ hp => ?_⟩
  rw [← eq_of_beq hp] at h
  exact ⟨rfl, rfl, rfl, .inr h⟩

theorem nodup_ensureField (h : (t.fields.map (·.name)).Nodup) (f : FieldDefinition) :
    ((t.ensureField f).fields.map (·.name)).Nodup := by
  unfold ensureField
  split
  · exact h
  · next hnone =>
    rw [List.map_append, List.nodup_append]
    refine ⟨h, List.pairwise_singleton _ _, fun m hm n hn he => hnone ?_⟩
    obtain ⟨g, hg, rfl⟩ := List.mem_map.1 hm
    rw [List.map_singleton, List.mem_singleton] at hn
    exact isSome_field?_iff.2 ⟨g, hg, he.trans hn⟩

theorem map_name_modifyField (t : TypeDefinition) (field : String) (type : TypeRef) :
    (t.modifyField field fun f => { f with type }).fields.map (·.name) = t.fields.map (·.name) := by
  have same : ∀ (p : FieldDefinition → Bool) (fs : List FieldDefinition),
      (modifyFirst p (fun f => { f with type }) fs).map (·.name) = fs.map (·.name) := by
    intro p fs
    induction fs with
    | nil => rfl
    | cons f fs ih =>
      rw [modifyFirst]
      split
      · rfl
      · rw [List.map_cons, ih, List.map_cons]
  exact same _ _

end TypeDefinition

/-! ### Fields with directives -/

namespace Document

variable {d : Document} {directive : String} {t : TypeDefinition} {f : FieldDefinition}

theorem mem_fieldsWith : (t, f) ∈ d.fieldsWith directive ↔
    t ∈ d.definitions ∧ f ∈ t.fields ∧ f.hasDirective directive = true := by
  simp only [fieldsWith, List.mem_flatMap, List.mem_map, List.mem_filter]
  constructor
  · rintro ⟨u, hu, g, ⟨hg, hp⟩, he⟩
    cases he
    exact ⟨hu, hg, hp⟩
  · rintro ⟨ht, hf, hp⟩
    exact ⟨t, ht, f, ⟨hf, hp⟩, rfl⟩

end Document

/-! ### Changes of a document -/

theorem mem_modifyFirst {α : Type} {p : α → Bool} {f : α → α} {xs : List α} {b : α}
    (hb : b ∈ modifyFirst p f xs) : b ∈ xs ∨ ∃ a ∈ xs, p a = true ∧ b = f a := by
  induction xs with
  | nil => cases hb
  | cons a as ih =>
    rw [modifyFirst] at hb
    split at hb
    · next hp =>
      rcases List.mem_cons.1 hb with rfl | hb
      · exact .inr ⟨a, List.mem_cons_self, hp, rfl⟩
      · exact .inl (List.mem_cons_of_mem a hb)
    · rcases List.mem_cons.1 hb with rfl | hb
      · exact .inl List.mem_cons_self
      · rcases ih hb with hb | ⟨c, hc, hrest⟩
        · exact .inl (List.mem_cons_of_mem a hb)
        · exact .inr ⟨c, List.mem_cons_of_mem a hc, hrest⟩

theorem getElem?_modifyFirst {α : Type} (p : α → Bool) (f : α → α) (xs : List α) (k : Nat) :
    (modifyFirst p f xs)[k]? = if xs.findIdx? p = some k then xs[k]?.map f else xs[k]? := by
  induction xs generalizing k with
  | nil => rfl
  | cons a as ih =>
    rw [modifyFirst, List.findIdx?_cons]
    split
    · cases k <;> simp
    · cases k <;> simp [ih]

theorem exists_mem_modifyFirst {α : Type} {p : α → Bool} (f : α → α) {xs : List α}
    (h : ∃ a ∈ xs, p a = true) : ∃ a, p a = true ∧ f a ∈ modifyFirst p f xs := by
  induction xs with
  | nil =>
    obtain ⟨a, ha, -⟩ := h
    cases ha
  | cons a as ih =>
    rw [modifyFirst]
    split
    · next hp => exact ⟨a, hp, List.mem_cons_self⟩
    · next hp =>
      obtain ⟨b, hb, hpb⟩ := h
      rcases List.mem_cons.1 hb with rfl | hb
      · exact absurd hpb hp
      · obtain ⟨c, hc, hmem⟩ := ih ⟨b, hb, hpb⟩
        exact ⟨c, hc, List.mem_cons_of_mem a hmem⟩

namespace Document

variable {d : Document} {type : String} {f : TypeDefinition → TypeDefinition}

theorem grownTo_ensureObject (d : Document) (name : String) : d.GrownTo (d.ensureObject name) := by
  unfold ensureObject
  split
  · exact .refl d
  · refine GrownBy.append (TypeDefinition.GrownTo.refl d) fun t ht => ?_
    rw [List.mem_singleton.1 ht]
    exact nofun

theorem grownTo_modifyType (h : ∀ t : TypeDefinition, t.name = type → t.GrownTo d (f t)) :
    d.GrownTo (d.modifyType type f) := by
  refine GrownBy.modifyFirst (TypeDefinition.GrownTo.refl d) fun t _ hb => h t ?_
  rw [isBase, Bool.and_eq_true, beq_iff_eq] at hb
  exact hb.1

theorem isTyped_ensureObject (d : Document) (name : String) :
    (d.ensureObject name).IsTyped name := by
  obtain ⟨t, ht⟩ := Option.isSome_iff_exists.1 (getType?_ensureObject d name)
  exact isTyped_of_getType? ht

/-- A type that gets a field is there. -/
theorem isTyped_ensureObjectField (d : Document) (type : String) {field : FieldDefinition}
    (hf : field.directives = []) : (d.ensureObjectField type field).IsTyped type :=
  (isTyped_ensureObject d type).mono
    (grownTo_modifyType fun t _ => t.grownTo_ensureField _ hf)

/-- A change of a base definition needs one. -/
theorem isTyped_of_modifyType (h : (d.modifyType type f).IsTyped type) : d.IsTyped type := by
  obtain ⟨t, ht, hbase⟩ := h
  rcases mem_modifyFirst ht with ht | ⟨u, hu, hub, -⟩
  · exact ⟨t, ht, hbase⟩
  · exact ⟨u, hu, hub⟩

/-- A field that was ensured on a type is there. -/
theorem declares_ensureField (h : d.IsTyped type) (field : FieldDefinition) :
    (d.modifyType type (·.ensureField field)).Declares type field.name := by
  obtain ⟨t, hb, hmem⟩ := exists_mem_modifyFirst (·.ensureField field) h
  obtain ⟨g, hg, hname⟩ :=
    TypeDefinition.isSome_field?_iff.1 (TypeDefinition.field?_ensureField t field)
  rw [isBase, Bool.and_eq_true, beq_iff_eq] at hb
  exact ⟨_, hmem, (TypeDefinition.name_ensureField t field).trans hb.1, g, hg, hname⟩

/-- A document in which no type has two base definitions, and no definition two fields of one
name. -/
structure NamesOnce (d : Document) : Prop where
  bases  : ((d.definitions.filter fun t => !t.extends?).map (·.name)).Nodup
  fields : ∀ t ∈ d.definitions, (t.fields.map (·.name)).Nodup

theorem NamesOnce.ensureObject (h : d.NamesOnce) (name : String) :
    (d.ensureObject name).NamesOnce := by
  unfold Document.ensureObject
  split
  · exact h
  · next hnone =>
    constructor
    · rw [List.filter_append, List.map_append, List.nodup_append]
      refine ⟨h.bases, List.pairwise_singleton _ _, fun m hm n hn he => hnone ?_⟩
      obtain ⟨t, ht, rfl⟩ := List.mem_map.1 hm
      obtain ⟨hmem, hbase⟩ := List.mem_filter.1 ht
      rw [getType?, List.find?_isSome]
      refine ⟨t, hmem, ?_⟩
      rw [isBase, he, List.mem_singleton.1 hn, hbase, beq_self_eq_true, Bool.and_self]
    · intro t ht
      rcases List.mem_append.1 ht with ht | ht
      · exact h.fields t ht
      · rw [List.mem_singleton.1 ht]
        exact List.nodup_nil

theorem NamesOnce.modifyType (h : d.NamesOnce) (hname : ∀ t, (f t).name = t.name)
    (hextends : ∀ t, (f t).extends? = t.extends?)
    (hfields : ∀ t, (t.fields.map (·.name)).Nodup → ((f t).fields.map (·.name)).Nodup)
    (type : String) : (d.modifyType type f).NamesOnce := by
  constructor
  · have same : ∀ (p : TypeDefinition → Bool) (ts : List TypeDefinition),
        ((modifyFirst p f ts).filter fun t => !t.extends?).map (·.name)
          = (ts.filter fun t => !t.extends?).map (·.name) := by
      intro p ts
      induction ts with
      | nil => rfl
      | cons t ts ih =>
        rw [modifyFirst]
        split
        · simp only [List.filter_cons, hextends]
          split <;> simp [hname]
        · simp only [List.filter_cons]
          split <;> simp [ih]
    exact (same _ _).symm ▸ h.bases
  · intro t ht
    rcases mem_modifyFirst ht with ht | ⟨u, hu, -, rfl⟩
    · exact h.fields t ht
    · exact hfields u (h.fields u hu)

theorem NamesOnce.retype (h : d.NamesOnce) (type field : String) (target : TypeRef) :
    (d.modifyType type (·.modifyField field fun f => { f with type := target })).NamesOnce :=
  h.modifyType (f := (·.modifyField field fun f => { f with type := target })) (fun _ => rfl)
    (fun _ => rfl) (fun t ht => by rwa [TypeDefinition.map_name_modifyField]) type

end Document

end ApiCompiler
