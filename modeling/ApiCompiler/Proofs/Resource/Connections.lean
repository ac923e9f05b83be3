import ApiCompiler.Proofs.Resource.Indexes
import ApiCompiler.Proofs.Resource.Operations

/-!
# Resources — the types of links to many records

A field with `@hasMany` gets the type that pages through the records which it links to. The pass
finds these fields wherever they stand, in base definitions and in extensions, and then looks each
of them up by the name of its type and its own, which leads to one place only.

* `Document.fieldAt?`, `Document.place?`: the field at a place, and the place that a lookup finds.
* `typeAt?_of_forEach`: the last link whose lookup leads to a place says what its type is.
* `Document.Connects`: each field with `@hasMany` gets its type, and no other field another one.
* `HasManyPass.connects_iff_of_apply`: so it is where each such field is found at its own place.
-/

namespace ApiCompiler

open PassAction

/-! ### Places of fields -/

namespace Document

/-- The field at a place, which is that of a number in the definition of a number. -/
def fieldAt? (d : Document) (i j : Nat) : Option (TypeDefinition × FieldDefinition) :=
  d.definitions[i]?.bind fun t => t.fields[j]?.map fun f => (t, f)

/-- The type of the field at a place. -/
def typeAt? (d : Document) (i j : Nat) : Option TypeRef := (d.fieldAt? i j).map (·.2.type)

/-- The place that a lookup leads to: that of the first field of a name in the base definition of a
type. -/
def place? (d : Document) (type field : String) : Option (Nat × Nat) :=
  (d.definitions.findIdx? (isBase type)).bind fun i =>
    d.definitions[i]?.bind fun t => (t.fields.findIdx? (·.name == field)).map fun j => (i, j)

variable {d d' : Document} {i j : Nat} {type field directive : String} {t : TypeDefinition}
  {f : FieldDefinition}

theorem fieldAt?_eq_some_iff :
    d.fieldAt? i j = some (t, f) ↔ d.definitions[i]? = some t ∧ t.fields[j]? = some f := by
  rw [fieldAt?, Option.bind_eq_some_iff]
  constructor
  · rintro ⟨t, ht, h⟩
    obtain ⟨f, hf, he⟩ := Option.map_eq_some_iff.1 h
    cases he
    exact ⟨ht, hf⟩
  · rintro ⟨ht, hf⟩
    exact ⟨t, ht, by rw [hf]; rfl⟩

theorem place?_eq_some_iff : d.place? type field = some (i, j) ↔
    d.definitions.findIdx? (isBase type) = some i
      ∧ ∃ t, d.definitions[i]? = some t ∧ t.fields.findIdx? (·.name == field) = some j := by
  rw [place?, Option.bind_eq_some_iff]
  constructor
  · rintro ⟨k, hk, h⟩
    obtain ⟨t, ht, h⟩ := Option.bind_eq_some_iff.1 h
    obtain ⟨l, hl, he⟩ := Option.map_eq_some_iff.1 h
    cases he
    exact ⟨hk, t, ht, hl⟩
  · rintro ⟨hi, t, ht, hj⟩
    exact ⟨i, hi, by rw [ht, Option.bind_some, hj]; rfl⟩

/-- A field that carries a directive has a place. -/
theorem exists_fieldAt? (h : (t, f) ∈ d.fieldsWith directive) :
    (∃ i j, d.fieldAt? i j = some (t, f)) ∧ f.hasDirective directive = true := by
  obtain ⟨ht, hf, hd⟩ := mem_fieldsWith.1 h
  obtain ⟨i, hi⟩ := List.mem_iff_getElem?.1 ht
  obtain ⟨j, hj⟩ := List.mem_iff_getElem?.1 hf
  exact ⟨⟨i, j, fieldAt?_eq_some_iff.2 ⟨hi, hj⟩⟩, hd⟩

theorem mem_fieldsWith_of_fieldAt? (h : d.fieldAt? i j = some (t, f))
    (hd : f.hasDirective directive = true) : (t, f) ∈ d.fieldsWith directive := by
  obtain ⟨ht, hf⟩ := fieldAt?_eq_some_iff.1 h
  exact mem_fieldsWith.2 ⟨List.mem_of_getElem? ht, List.mem_of_getElem? hf, hd⟩

/-- A lookup leads to a field of its names. -/
theorem names_of_place? (h : d.place? type field = some (i, j))
    (hf : d.fieldAt? i j = some (t, f)) : t.name = type ∧ f.name = field := by
  obtain ⟨hi, u, hu, hj⟩ := place?_eq_some_iff.1 h
  obtain ⟨ht, hf⟩ := fieldAt?_eq_some_iff.1 hf
  cases ht.symm.trans hu
  have hbase := of_findIdx? hi ht
  rw [isBase, Bool.and_eq_true, beq_iff_eq] at hbase
  exact ⟨hbase.1, eq_of_beq (of_findIdx? (p := (·.name == field)) hj hf)⟩

theorem typeAt?_of_fieldAt? (h : d.fieldAt? i j = some (t, f)) : d.typeAt? i j = some f.type := by
  rw [typeAt?, h]
  rfl

/-- A field that is added stands behind those that are there. -/
theorem typeAt?_ensureField (h : d.fieldAt? i j = some (t, f)) (type : String)
    (g : FieldDefinition) :
    (d.modifyType type (·.ensureField g)).typeAt? i j = some f.type := by
  obtain ⟨ht, hf⟩ := fieldAt?_eq_some_iff.1 h
  have kept : (t.ensureField g).fields[j]? = some f := by
    unfold TypeDefinition.ensureField
    split
    · exact hf
    · obtain ⟨hlt, -⟩ := List.getElem?_eq_some_iff.1 hf
      exact (List.getElem?_append_left hlt).trans hf
  have found : ∃ u, (d.modifyType type (·.ensureField g)).definitions[i]? = some u
      ∧ u.fields[j]? = some f := by
    rw [modifyType, getElem?_modifyFirst, ht]
    split
    · exact ⟨_, rfl, kept⟩
    · exact ⟨_, rfl, hf⟩
  obtain ⟨u, hu, hf⟩ := found
  exact typeAt?_of_fieldAt? (fieldAt?_eq_some_iff.2 ⟨hu, hf⟩)

/-- A field that is looked up gets another type at its place. -/
theorem typeAt?_retype (h : d.fieldAt? i j = some (t, f)) (type field : String) (target : TypeRef) :
    (d.modifyType type (·.modifyField field fun f => { f with type := target })).typeAt? i j
      = if d.place? type field = some (i, j) then some target else some f.type := by
  obtain ⟨ht, hf⟩ := fieldAt?_eq_some_iff.1 h
  have fields : ((t.modifyField field fun f => { f with type := target }).fields[j]?).map (·.type)
      = if t.fields.findIdx? (·.name == field) = some j then some target else some f.type := by
    rw [TypeDefinition.modifyField, getElem?_modifyFirst, hf]
    split <;> rfl
  have looked : d.place? type field = some (i, j) ↔ d.definitions.findIdx? (isBase type) = some i
      ∧ t.fields.findIdx? (·.name == field) = some j := by
    rw [place?_eq_some_iff]
    refine and_congr_right fun _ => ⟨?_, fun hj => ⟨t, ht, hj⟩⟩
    rintro ⟨u, hu, hj⟩
    rwa [Option.some.inj (ht.symm.trans hu)]
  rw [typeAt?, fieldAt?, modifyType, getElem?_modifyFirst, ht, if_congr looked rfl rfl]
  split
  · next hi => simpa [hi, Function.comp_def] using fields
  · next hi => simp [hi, hf]

/-- In a document that has grown, fields keep their places. -/
theorem GrownTo.fieldAt? (h : d.GrownTo d') (hf : d.fieldAt? i j = some (t, f)) :
    ∃ t' f', d'.fieldAt? i j = some (t', f') ∧ t.GrownTo d t' ∧ f'.name = f.name
      ∧ f'.arguments = f.arguments ∧ f'.directives = f.directives := by
  obtain ⟨ht, hf⟩ := fieldAt?_eq_some_iff.1 hf
  obtain ⟨t', ht', hgrown⟩ := h.exists_getElem? ht
  obtain ⟨f', hf', hkept⟩ := hgrown.fields.exists_getElem? hf
  exact ⟨t', f', fieldAt?_eq_some_iff.2 ⟨ht', hf'⟩, hgrown, hkept.name, hkept.arguments,
    hkept.directives⟩

/-- Fields that carry directives have been at their places before. -/
theorem GrownTo.fieldAt?_of_directed (h : d.GrownTo d') (hf : d'.fieldAt? i j = some (t, f))
    (hd : f.directives ≠ []) : ∃ p, d.fieldAt? i j = some p := by
  obtain ⟨ht, hf⟩ := fieldAt?_eq_some_iff.1 hf
  rcases h.getElem?_cases ht with hnew | ⟨u, hu, hgrown⟩
  · exact absurd (hnew f (List.mem_of_getElem? hf)) hd
  · rcases hgrown.fields.getElem?_cases hf with hnew | ⟨g, hg, -⟩
    · exact absurd hnew hd
    · exact ⟨(u, g), fieldAt?_eq_some_iff.2 ⟨hu, hg⟩⟩

/-- In a document that has grown, a lookup leads to a place that was there as it did before. -/
theorem GrownTo.place?_iff (h : d.GrownTo d') (hf : d.fieldAt? i j = some (t, f)) :
    d'.place? type field = some (i, j) ↔ d.place? type field = some (i, j) := by
  obtain ⟨ht, hf⟩ := fieldAt?_eq_some_iff.1 hf
  obtain ⟨t', ht', hgrown⟩ := h.exists_getElem? ht
  have base := h.findIdx?_iff (p := isBase type)
    (fun _ _ hu => by rw [isBase, isBase, hu.name, hu.extends?])
    (List.getElem?_eq_some_iff.1 ht).1
  have named := hgrown.fields.findIdx?_iff (p := (·.name == field))
    (fun _ _ hk => by rw [hk.name]) (List.getElem?_eq_some_iff.1 hf).1
  simp only [place?_eq_some_iff, ht, ht', Option.some.injEq, exists_eq_left', base, named]

end Document

/-! ### Links to many records -/

/-- A document in which each field of another one that has `@hasMany` has the type that pages
through the records which it links to, and each other field the type that it had. -/
structure Document.Connects (d d' : Document) : Prop where
  fields : ∀ i j t f, d.fieldAt? i j = some (t, f) → ∃ t' f', d'.fieldAt? i j = some (t', f')
    ∧ t'.name = t.name ∧ t'.extends? = t.extends? ∧ f'.name = f.name ∧ f'.directives = f.directives
    ∧ f'.type = if f.hasDirective "hasMany" then .named (connectionName f.type.baseName) else f.type
  others : ∀ i j t' f', d'.fieldAt? i j = some (t', f') → f'.hasDirective "hasMany" = true →
    ∃ p, d.fieldAt? i j = some p

namespace HasManyPass

variable {s t : PassState} {i j : Nat} {type : TypeDefinition} {f : FieldDefinition}

/-- The type that a link gives to its field, where a lookup of it leads to a place. -/
def connectionAt? (d : Document) (i j : Nat) (l : Link) : Option TypeRef :=
  if d.place? l.source l.field = some (i, j) then some (.named (connectionName l.target)) else none

theorem typeAt?_attach {c : Context} (h : c.schema.fieldAt? i j = some (type, f)) (l : Link) :
    (attach c l).schema.typeAt? i j = (connectionAt? c.schema i j l).or (some f.type) := by
  have keyed : c.schema.GrownTo (ensureForeignKey c l.target l.foreignKey).schema :=
    Document.grownTo_modifyType fun t _ => t.grownTo_ensureField _ rfl
  obtain ⟨_, g, hg, -⟩ := keyed.fieldAt? h
  have htype := Document.typeAt?_ensureField h l.target
    { name := l.foreignKey, type := .named "ID" }
  have same : g.type = f.type :=
    Option.some.inj ((Document.typeAt?_of_fieldAt? hg).symm.trans htype)
  refine (Document.typeAt?_retype hg l.source l.field _).trans ?_
  rw [if_congr (keyed.place?_iff h) rfl rfl, same, connectionAt?]
  split <;> rfl

/-- The last link whose lookup leads to a place gives the type of the field there. -/
theorem typeAt?_of_forEach {ls : List Link}
    (hl : ∀ l ∈ ls, s.context.isModel l.target = true ∧ l.IsDirected "hasMany" s.context.schema)
    (h : (Action.forEach link ls).on s = (.ok (), t))
    (hf : s.context.schema.fieldAt? i j = some (type, f)) : t.context.schema.typeAt? i j
      = (ls.reverse.findSome? (connectionAt? s.context.schema i j)).or (some f.type) := by
  have edited : ∀ l ∈ ls, ∀ u v, (link l).on u = (.ok (), v) →
      Context.Edits Context.AnyName Context.AnyTime s.context u.context →
      Context.Edits Context.AnyName Context.AnyTime u.context v.context := by
    intro l hmem u v hv hu
    obtain ⟨hm, hdir⟩ := hl l hmem
    have many : u.context.schema.LinksToMany l.source l.field :=
      (hdir.mono hu.grownTo).imp fun _ _ hp => ⟨hp.1, .inl hp.2⟩
    exact (link_edits (hu.isModel hm) trivial many).of_ok hv
  rw [← Document.typeAt?_of_fieldAt? hf]
  refine Action.forEach_latest (v := fun u : PassState => u.context.schema.typeAt? i j)
    (I := fun u => Context.Edits Context.AnyName Context.AnyTime s.context u.context)
    (fun l hmem u v hv hu => ⟨hu.trans (edited l hmem u v hv hu), ?_⟩) h .refl
  obtain ⟨-, rfl⟩ := link_ok hv
  obtain ⟨_, g, hg, -⟩ := hu.grownTo.fieldAt? hf
  rw [typeAt?_attach hg, Document.typeAt?_of_fieldAt? hg, connectionAt?, connectionAt?,
    if_congr (hu.grownTo.place?_iff hf) rfl rfl]

/-- The links that are made are those of the fields with `@hasMany`, all of which are lists. -/
theorem exists_links_of_apply (h : apply.on s = (.ok (), t)) :
    ∃ ls, linkedFields s.context "hasMany" = .ok ls ∧ (Action.forEach link ls).on s = (.ok (), t)
      ∧ (∀ l ∈ ls, l.isList = true) := by
  rw [apply, on_examine_bind] at h
  split at h
  · next ls hls =>
    refine ⟨ls, hls, h, fun l hl => ?_⟩
    obtain ⟨xs, ys, rfl⟩ := List.append_of_mem hl
    obtain ⟨u, -, h⟩ := Action.forEach_append_ok.1 h
    obtain ⟨v, hv, -⟩ := Action.forEach_cons_ok.1 h
    exact (link_ok hv).1
  · cases (Prod.mk.inj h).1

/-- The link of a field, where its models are there. -/
theorem linkOf_eq_ok {c : Context} {directive : String} {l : Link}
    (h : linkOf c directive type f = .ok l) :
    l = ⟨type.name, f.name, f.type.baseName, f.type.isList, f.type.isNonNull⟩ := by
  simp only [linkOf] at h
  split at h
  · cases h
  · exact (Except.ok.inj h).symm

/-- A link is that of a field with `@hasMany`, at its place. -/
theorem exists_field {ls : List Link} (h : linkedFields s.context "hasMany" = .ok ls) {l : Link}
    (hl : l ∈ ls) : ∃ i j type f, s.context.schema.fieldAt? i j = some (type, f)
      ∧ f.hasDirective "hasMany" = true ∧ linkOf s.context "hasMany" type f = .ok l := by
  obtain ⟨⟨type, f⟩, hmem, hof⟩ := Except.mem_of_mapM h hl
  obtain ⟨⟨i, j, hf⟩, hd⟩ := Document.exists_fieldAt? hmem
  exact ⟨i, j, type, f, hf, hd, hof⟩

/-- A field with `@hasMany` that a lookup leads to has a link. -/
theorem exists_link {ls : List Link} (h : linkedFields s.context "hasMany" = .ok ls)
    (hf : s.context.schema.fieldAt? i j = some (type, f)) (hd : f.hasDirective "hasMany" = true) :
    ∃ l ∈ ls, linkOf s.context "hasMany" type f = .ok l :=
  Except.exists_of_mapM h (Document.mem_fieldsWith_of_fieldAt? hf hd)

/-- What the types of all fields are behind the pass. -/
theorem typeAt?_of_apply (h : apply.on s = (.ok (), t)) :
    ∃ ls, linkedFields s.context "hasMany" = .ok ls ∧ (∀ l ∈ ls, l.isList = true)
      ∧ ∀ i j type f, s.context.schema.fieldAt? i j = some (type, f) →
        t.context.schema.typeAt? i j
          = (ls.reverse.findSome? (connectionAt? s.context.schema i j)).or (some f.type) := by
  obtain ⟨ls, hls, hlinked, hlists⟩ := exists_links_of_apply h
  refine ⟨ls, hls, hlists, fun i j type f hf => typeAt?_of_forEach (fun l hl => ?_) hlinked hf⟩
  obtain ⟨hm, -, hdir⟩ := of_linkedFields hls hl
  exact ⟨hm, hdir⟩

/-- A field that gets its type is found at its place: its type is of a list before and of none
behind, so a lookup has led to it. -/
theorem place?_of_connects (h : apply.on s = (.ok (), t))
    (hc : s.context.schema.Connects t.context.schema)
    (hf : s.context.schema.fieldAt? i j = some (type, f)) (hd : f.hasDirective "hasMany" = true) :
    s.context.schema.place? type.name f.name = some (i, j) := by
  obtain ⟨ls, hls, hlists, htypes⟩ := typeAt?_of_apply h
  obtain ⟨type', f', hf', -, -, -, -, htype⟩ := hc.fields i j type f hf
  have last := htypes i j type f hf
  rw [Document.typeAt?_of_fieldAt? hf', htype, if_pos hd] at last
  cases hfound : ls.reverse.findSome? (connectionAt? s.context.schema i j) with
  | none =>
    obtain ⟨l, hl, hof⟩ := exists_link hls hf hd
    have hlist := hlists l hl
    rw [hfound, Option.none_or, Option.some.injEq] at last
    rw [linkOf_eq_ok hof, ← last] at hlist
    cases hlist
  | some target =>
    obtain ⟨l, -, hl⟩ := List.exists_of_findSome?_eq_some hfound
    rw [connectionAt?] at hl
    split at hl
    · next hplace =>
      obtain ⟨hsource, hfield⟩ := Document.names_of_place? hplace hf
      rwa [hsource, hfield]
    · cases hl

/-- Where each field with `@hasMany` is found at its place, only its own link leads there. -/
theorem type_of_place? (h : apply.on s = (.ok (), t))
    (hplace : ∀ i j type f, s.context.schema.fieldAt? i j = some (type, f) →
      f.hasDirective "hasMany" = true → s.context.schema.place? type.name f.name = some (i, j))
    (hf : s.context.schema.fieldAt? i j = some (type, f)) : t.context.schema.typeAt? i j
      = some (if f.hasDirective "hasMany" then .named (connectionName f.type.baseName)
        else f.type) := by
  obtain ⟨ls, hls, -, htypes⟩ := typeAt?_of_apply h
  have own : ∀ l ∈ ls, s.context.schema.place? l.source l.field = some (i, j) →
      f.hasDirective "hasMany" = true ∧ linkOf s.context "hasMany" type f = .ok l := by
    intro l hl hfound
    obtain ⟨i', j', type', f', hf', hd, hof⟩ := exists_field hls hl
    have hown := hplace i' j' type' f' hf' hd
    rw [linkOf_eq_ok hof] at hfound
    cases hown.symm.trans hfound
    cases hf.symm.trans hf'
    exact ⟨hd, hof⟩
  rw [htypes i j type f hf]
  cases hfound : ls.reverse.findSome? (connectionAt? s.context.schema i j) with
  | some target =>
    obtain ⟨l, hl, htarget⟩ := List.exists_of_findSome?_eq_some hfound
    rw [connectionAt?] at htarget
    split at htarget
    · next hfound =>
      obtain ⟨hd, hof⟩ := own l (List.mem_reverse.1 hl) hfound
      rw [if_pos hd, ← Option.some.inj htarget, linkOf_eq_ok hof, Option.some_or]
    · cases htarget
  | none =>
    rw [if_neg, Option.none_or]
    intro hd
    obtain ⟨l, hl, hof⟩ := exists_link hls hf hd
    have hnone := List.findSome?_eq_none_iff.1 hfound l (List.mem_reverse.2 hl)
    rw [connectionAt?, linkOf_eq_ok hof, if_pos (hplace i j type f hf hd)] at hnone
    cases hnone

/-- **Where fields with `@hasMany` get their types**: wherever the pass of `@hasMany` ends well,
each of these fields gets the type that pages through what it links to, and no other field another
type, exactly where a lookup of each of them leads to its own place: it stands in the base
definition of its type, the first if there are several, as the first field of its name. -/
theorem connects_iff_of_apply (h : apply.on s = (.ok (), t)) :
    s.context.schema.Connects t.context.schema ↔ ∀ i j type f,
      s.context.schema.fieldAt? i j = some (type, f) → f.hasDirective "hasMany" = true →
        s.context.schema.place? type.name f.name = some (i, j) := by
  have edits : Context.Edits Context.AnyName Context.AnyTime s.context t.context :=
    (apply_edits fun _ _ => trivial).of_ok h
  refine ⟨fun hc i j type f hf hd => place?_of_connects h hc hf hd, fun hplace =>
    ⟨fun i j type f hf => ?_, fun i j type' f' hf' hd => ?_⟩⟩
  · obtain ⟨type', f', hf', htype, hname, -, hdirectives⟩ := edits.grownTo.fieldAt? hf
    have last := type_of_place? h hplace hf
    rw [Document.typeAt?_of_fieldAt? hf', Option.some.injEq] at last
    exact ⟨type', f', hf', htype.name, htype.extends?, hname, hdirectives, last⟩
  · refine edits.grownTo.fieldAt?_of_directed hf' fun he => ?_
    rw [FieldDefinition.hasDirective, FieldDefinition.directive?, he] at hd
    cases hd

/-- A blog whose posts have a field for their comments. -/
def linkedPosts : PassState where
  context :=
    { schema := ⟨[{ kind := .object, name := "Post", fields :=
          [{ name := "comments", type := .list (.named "Comment"),
             directives := [{ name := "hasMany" }] }] },
        { kind := .object, name := "Comment" }]⟩
      resources := .ofList
        ([⟨tableId "Post", .table, ∅, none⟩, ⟨tableId "Comment", .table, ∅, none⟩]) }

theorem connects_iff_linkedPosts : ∃ t, apply.on linkedPosts = (.ok (), t)
    ∧ linkedPosts.context.schema.Connects t.context.schema := by
  refine ⟨_, rfl, (connects_iff_of_apply rfl).2 fun i j type f hf _ => ?_⟩
  obtain ⟨ht, hf⟩ := Document.fieldAt?_eq_some_iff.1 hf
  rcases i with _ | _ | i
  · cases ht
    rcases j with _ | j
    · cases hf
      decide
    · cases hf
  · cases ht
    cases hf
  · cases ht

/-- A post that is extended by a field for its comments. -/
def extendedPost : Document :=
  ⟨[{ kind := .object, name := "Post", directives := [{ name := "model" }],
      fields := [{ name := "title", type := .named "String" }] },
    { kind := .object, name := "Post", extends? := true, fields :=
        [{ name := "comments", type := .list (.named "Comment"),
           directives := [{ name := "hasMany" }] }] },
    { kind := .object, name := "Comment", directives := [{ name := "model" }],
      fields := [{ name := "text", type := .named "String" }] }]⟩

/-- The field of an extension keeps its type. -/
theorem not_connects_extendedPost :
    ∃ t, apply.on (ModelPass.leftOf { schema := extendedPost }) = (.ok (), t)
      ∧ ¬ (ModelPass.leftOf { schema := extendedPost }).context.schema.Connects
        t.context.schema := by
  have ends := Action.on_eq_of_isOk (x := apply)
    (s := ModelPass.leftOf { schema := extendedPost }) (by decide)
  refine ⟨_, ends, fun hc => ?_⟩
  have hplace := place?_of_connects ends hc (i := 1) (j := 0) rfl rfl
  exact absurd hplace (by decide)

end HasManyPass

end ApiCompiler
