import ApiCompiler.Proofs.Chain.Started
import ApiCompiler.Proofs.Schema.Reread
import ApiCompiler.Proofs.Schema.Spelled

/-!
# Chains — how a run spells the schema

* `Edit.isReadable`: no change brings a value that is not readable.
* `Edit.spelled`: what passes add is spelled with names, where the queries and the joins that the
  schema asks for are.
* `Completes.declares_query`, `Completes.isTyped_join`: a run that ends well has made those.
-/

namespace ApiCompiler

open PassAction Schema

theorem isName_connectionName {model : String} (h : isName model = true) :
    isName (connectionName model) = true :=
  isName_append (isName_append (by decide) h) (by decide)

theorem FieldDefinition.isWellFormed_of_isName {name : String} {type : TypeRef}
    (hn : isName name = true) (ht : type.isWellFormed = true) :
    FieldDefinition.isWellFormed { name, type } = true := by
  simp only [isWellFormed, hn, ht, List.all_nil, Bool.and_self]

theorem isName_defaultQuery {type field : String}
    (h : isName type = true ∧ isName field = true) :
    isName (IndexPass.defaultQuery type field) = true :=
  isName_append (isName_append (isName_lowerFirst (isName_plural h.1)) (by decide))
    (isName_capitalize h.2)

namespace Context

variable {known : String → Prop} {ready : Document → String → Prop} {c d : Context}

/-- The schema is spelled with names, and so is what it makes passes add. -/
structure Spelled (c : Context) : Prop where
  schema  : c.schema.isSpelled = true
  queries : ∀ q, c.NamesQuery q → isName q = true
  joins   : ∀ join, c.schema.IsJoin join → isName join = true

/-! ### What passes add -/

theorem Founds.isName {name : String} (h : c.Founds name) (hc : c.Spelled) :
    isName name = true := by
  cases h with
  | query | mutation => decide
  | connection h => exact isName_connectionName (Document.isName_of_isTyped hc.schema h)
  | join h => exact hc.joins _ h

theorem Gains.isReadable {type : String} {f : FieldDefinition} (h : c.Gains known type f) :
    f.isReadable = true := by
  obtain ⟨hdirectives, hdefault⟩ := h.isPlain
  have arguments : ∀ a ∈ f.arguments, a.isReadable = true := fun a ha => by
    rw [ArgumentDefinition.isReadable, hdefault a ha, Option.all_none]
  rw [FieldDefinition.isReadable, List.all_eq_true.2 arguments, hdirectives, List.all_nil,
    Bool.and_self]

/-- The fields that passes add are spelled with names. -/
theorem Gains.isWellFormed {type : String} {f : FieldDefinition} (h : c.Gains known type f)
    (hk : ∀ name, known name → isName name = true) (hc : c.Spelled) : f.isWellFormed = true := by
  have typed : ∀ {model}, c.schema.IsTyped model → isName model = true :=
    Document.isName_of_isTyped hc.schema
  cases h with
  | record _ hf =>
    have named : ∀ f ∈ ModelPass.idField :: ModelPass.timeFields ++ ModelPass.versionFields,
        f.isWellFormed = true := by decide
    exact named f hf
  | page h hf =>
    simp only [ModelPass.connectionFields, List.mem_cons, List.not_mem_nil, or_false] at hf
    rcases hf with rfl | rfl
    · exact FieldDefinition.isWellFormed_of_isName (by decide) (typed h)
    · decide
  | query h _ hf =>
    simp only [ModelPass.queryFields, List.mem_cons, List.not_mem_nil, or_false] at hf
    rcases hf with rfl | rfl
    · have name : isName ("get" ++ _) = true := isName_append (by decide) (typed h)
      have argument : ArgumentDefinition.isWellFormed { name := "id", type := .required "ID" }
          = true := by decide
      simp only [FieldDefinition.isWellFormed, TypeRef.isWellFormed, name, typed h, argument,
        List.all_cons, List.all_nil, Bool.and_self]
    · exact FieldDefinition.isWellFormed_of_isName
        (isName_append (by decide) (isName_plural (typed h))) (isName_connectionName (typed h))
  | mutation h hf =>
    obtain ⟨op, hop, rfl⟩ := List.mem_map.1 hf
    have verb : ∀ op ∈ ["create", "update", "delete"], isName op = true := by decide
    exact FieldDefinition.isWellFormed_of_isName (isName_append (verb op hop) (typed h)) (typed h)
  | index _ hd hn =>
    exact FieldDefinition.isWellFormed_of_isName (hc.queries _ hn)
      (isName_connectionName (Document.isName_of_declares hc.schema hd).1)
  | key hd hn =>
    obtain ⟨hsource, hfield⟩ := Document.isName_of_declares hc.schema hd
    refine FieldDefinition.isWellFormed_of_isName ?_ (by decide)
    rcases hn with rfl | rfl
    · exact isName_append (isName_append (isName_lowerFirst hsource) (isName_capitalize hfield))
        (by decide)
    · exact isName_append hfield (by decide)
  | link ha hb hf =>
    have key : ∀ m : ManyToManyPass.Member, known m.type → isName m.key = true :=
      fun m hm => isName_append (isName_lowerFirst (hk _ hm)) (by decide)
    have link : ∀ m : ManyToManyPass.Member, known m.type → isName m.link = true :=
      fun m hm => isName_lowerFirst (hk _ hm)
    simp only [ManyToManyPass.joinFields, List.mem_cons, List.not_mem_nil, or_false] at hf
    rcases hf with rfl | rfl | rfl | rfl | rfl
    · decide
    · exact FieldDefinition.isWellFormed_of_isName (key _ ha) (by decide)
    · exact FieldDefinition.isWellFormed_of_isName (key _ hb) (by decide)
    · exact FieldDefinition.isWellFormed_of_isName (link _ ha) (hk _ ha)
    · exact FieldDefinition.isWellFormed_of_isName (link _ hb) (hk _ hb)
  | search ht =>
    have name := Document.isName_of_mem hc.schema (List.mem_of_mem_filter ht)
    exact FieldDefinition.isWellFormed_of_isName
      (isName_append (by decide) (isName_plural name))
      (isName_append (isName_append (by decide) name) (by decide))

/-! ### Changes -/

/-- No change brings a value that is not readable, or takes one away. -/
theorem Edit.isReadable (h : Edit known ready c d) : d.schema.isReadable = c.schema.isReadable := by
  cases h with
  | log | supply | resolver | decorate | rename | key | index => rfl
  | object => exact Document.isReadable_ensureObject _ _
  | field h =>
    exact Document.isReadable_modifyType (fun t => t.isReadable_ensureField h.isReadable) _ _
  | mark =>
    refine Document.isReadable_modifyType (fun t => ?_) _ _
    unfold ModelPass.markModel
    split
    · rfl
    · exact t.isReadable_addDirective rfl
  | retype => exact Document.isReadable_modifyType (fun t => t.isReadable_retype _ _) _ _
  | store _ h => rcases ModelPass.addStore_eq h with rfl | ⟨_, _, rfl⟩ <;> rfl

/-- A change keeps the schema spelled with names. -/
theorem Edit.isSpelled (h : Edit known ready c d) (hk : ∀ name, known name → isName name = true)
    (hc : c.Spelled) : d.schema.isSpelled = true := by
  cases h with
  | log | supply | resolver | decorate | rename | key | index => exact hc.schema
  | object h => exact Document.isSpelled_ensureObject hc.schema (h.isName hc)
  | field h =>
    have field := h.isWellFormed hk hc
    exact Document.isSpelled_modifyType hc.schema
      (fun _ ht => TypeDefinition.isSpelled_ensureField ht field) _
  | mark =>
    refine Document.isSpelled_modifyType hc.schema (fun t ht => ?_) _
    unfold ModelPass.markModel
    split
    · exact ht
    · exact TypeDefinition.isSpelled_addDirective ht (by decide)
  | @retype type field model _ _ hn =>
    have page : (TypeRef.named (connectionName model)).isWellFormed = true :=
      isName_connectionName (hn.elim (hk _) (hc.joins _))
    exact Document.isSpelled_modifyType hc.schema
      (fun t ht => TypeDefinition.isSpelled_retype ht _ page) _
  | store _ h => rcases ModelPass.addStore_eq h with rfl | ⟨_, _, rfl⟩ <;> exact hc.schema

/-- A change makes the schema ask for no further queries and joins. -/
theorem Edit.spelled (h : Edit known ready c d) (hk : ∀ name, known name → isName name = true)
    (hc : c.Spelled) : d.Spelled where
  schema := h.isSpelled hk hc
  queries q hq := by
    cases hq with
    | given hq => exact hc.queries q (.given (hq.of_edit h))
    | default hq => exact isName_defaultQuery (Document.isName_of_declares (h.isSpelled hk hc) hq)
  joins join hj := hc.joins join (hj.of_grownTo h.grownTo)

theorem Edits.isReadable (h : Edits known ready c d) :
    d.schema.isReadable = c.schema.isReadable := by
  induction h with
  | refl => rfl
  | tail _ h ih => exact h.isReadable.trans ih

/-- **Changes keep the schema spelled with names**, where the names that are known are, and the
queries and joins that the schema asks for. -/
theorem Edits.spelled (h : Edits known ready c d) (hk : ∀ name, known name → isName name = true)
    (hc : c.Spelled) : d.Spelled := by
  induction h with
  | refl => exact hc
  | tail _ h ih => exact h.spelled hk ih

/-- What is asked for is all that need not be spelled with names. -/
theorem spelled_of_asks (hs : c.schema.isSpelled = true)
    (hq : ∀ q, c.AsksQuery q → isName q = true)
    (hj : ∀ join, c.schema.IsJoin join → isName join = true) : c.Spelled where
  schema := hs
  queries q h := by
    cases h with
    | given h => exact hq q h
    | default h => exact isName_defaultQuery (Document.isName_of_declares hs h)
  joins := hj

end Context

/-! ### Runs -/

namespace Chain

open Context

variable {args : FactoryArgs} {c : Context} {s : PassState}

/-- Each pass of a run that ends well ends well itself. -/
theorem Completes.exists_apply (h : Completes args c s) {e : Entry} (he : e ∈ builtin args)
    (hfree : e.checkFree = .ok ()) :
    ∃ t u, e.pass.apply.on t = (.ok (), u) ∧ Edits AnyName AnyTime c t.context
      ∧ Edits AnyName AnyTime u.context s.context := by
  have passes : ∀ e ∈ builtin args, ∀ t : PassState, Edits AnyName AnyTime c t.context →
      EditsAt AnyName AnyTime e.apply t := fun e he t _ =>
    (entry_edits (builtin_edits he fun _ _ => trivial)).mono fun _ _ _ => trivial
  obtain ⟨t, u, hu, before, behind⟩ := exists_of_forEach passes h he
  rw [on_apply_of_free hfree] at hu
  exact ⟨t, u, hu, before, behind⟩

/-- The queries that indexes ask for are there where a run ends well. -/
theorem Completes.declares_query (h : Completes args c s) {q : String} (hq : c.AsksQuery q) :
    s.context.schema.Declares "Query" q := by
  obtain ⟨t, u, hu, before, behind⟩ :=
    h.exists_apply (e := { pass := .index, role := some .index }) (by simp [builtin]) rfl
  exact (IndexPass.declares_of_apply hu (hq.mono before)).mono behind.grownTo

/-- So are the join models that relations ask for. -/
theorem Completes.isTyped_join (h : Completes args c s) {join : String}
    (hj : c.schema.IsJoin join) : s.context.schema.IsTyped join := by
  obtain ⟨t, u, hu, before, behind⟩ :=
    h.exists_apply (e := { pass := .manyToMany, role := some .manyToMany }) (by simp [builtin]) rfl
  exact (ManyToManyPass.isTyped_of_apply hu (hj.mono before.grownTo)).mono behind.grownTo

theorem Completes.spelled (h : Completes args c s) (hc : c.Spelled) : s.context.Spelled :=
  h.keeps (I := Context.Spelled) (fun _ _ hd hc => hd.spelled
    (fun _ hn => Document.isName_of_references hc.schema hn) hc) hc

/-- **The text of the schema that a run leaves is read back as that schema** exactly where the
schema that it started from is readable, the queries that its indexes ask for and the join models of
its relations have names, and no definition has got fields that its kind has no room for. -/
theorem parse_toText_iff_of_completes (h : Completes args c s)
    (hc : c.schema.isWellFormed = true) :
    Document.parse s.context.schema.toText = .ok s.context.schema ↔
      c.schema.isReadable = true ∧ (∀ q, c.AsksQuery q → isName q = true)
        ∧ (∀ join, c.schema.IsJoin join → isName join = true)
        ∧ ∀ t ∈ s.context.schema.definitions, t.fitsKind = true := by
  rw [Document.parse_toText_iff, h.edits.isReadable, Document.isWellFormed_iff]
  constructor
  · rintro ⟨⟨hs, hfits⟩, hreadable⟩
    exact ⟨hreadable, fun q hq => (Document.isName_of_declares hs (h.declares_query hq)).2,
      fun join hj => Document.isName_of_isTyped hs (h.isTyped_join hj), hfits⟩
  · rintro ⟨hreadable, hq, hj, hfits⟩
    have hs := (Document.isWellFormed_iff.1 hc).1
    exact ⟨⟨(h.spelled (spelled_of_asks hs hq hj)).schema, hfits⟩, hreadable⟩

end Chain

end ApiCompiler
