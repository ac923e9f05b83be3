import ApiCompiler.Pass.Key
import ApiCompiler.Proofs.Pass.Model
import ApiCompiler.Proofs.Result

/-!
# Passes — what the passes of keys do

A key or an index that the schema declares is of fields which its model has, and is set by changes
of the usual kinds.

* `keys_eq_ok`: every field that declares a key has one.
* `hasKey_of_keys`, `isDeclared_of_records`: keys and indexes name fields of their models.
* `apply_edits`, one for each pass.
-/

namespace ApiCompiler

open PassAction Context

variable {known : String → Prop} {ready : Document → String → Prop}

/-! ### Keys and indexes -/

/-- What is not missing from a definition is declared. -/
theorem declares_of_missingField? {d : Document} {t : TypeDefinition} (ht : t ∈ d.definitions)
    {names : List String} (h : missingField? t names = none) :
    ∀ name ∈ names, d.Declares t.name name := by
  intro name hname
  rw [missingField?, List.find?_eq_none] at h
  have hsome : (t.field? name).isSome = true := by
    have := h name hname
    rwa [Option.isNone_iff_eq_none, ← ne_eq, Option.ne_none_iff_isSome] at this
  obtain ⟨f, hf, hfield⟩ := TypeDefinition.isSome_field?_iff.1 hsome
  exact ⟨t, ht, rfl, f, hf, hfield⟩

/-- A field of a definition and some that are not missing from it may be a key. -/
theorem hasKey_of_missingField? {d : Document} {t : TypeDefinition} {f : FieldDefinition}
    (ht : t ∈ d.definitions) (hf : f ∈ t.fields) {names : List String}
    (h : missingField? t names = none) : d.HasKey t.name f.name names := by
  intro name hname
  rcases List.mem_cons.1 hname with rfl | hname
  · exact ⟨t, ht, rfl, f, hf, rfl⟩
  · exact declares_of_missingField? ht h name hname

namespace PrimaryKeyPass

/-- A key is that of a field which declares it. -/
def Key.IsOf (k : Key) (p : TypeDefinition × FieldDefinition) : Prop :=
  k.model = p.1.name ∧ k.partitionKey = p.2.name ∧ missingField? p.1 k.sortKeys = none

theorem keyOf_eq_ok {c : Context} {ks ks' : List Key} {t : TypeDefinition} {f : FieldDefinition}
    (h : keyOf c ks t f = .ok ks') : ∃ k, ks' = ks ++ [k] ∧ k.IsOf (t, f) := by
  simp only [keyOf] at h
  split at h
  · cases h
  · split at h
    · cases h
    · split at h
      · cases h
      · split at h
        · cases h
        · next hnone =>
          cases h
          exact ⟨_, rfl, rfl, rfl, hnone⟩

theorem keysOf_eq_ok {c : Context} {ps : List (TypeDefinition × FieldDefinition)}
    {ks ks' : List Key} (h : ps.foldlM (fun keys (t, f) => keyOf c keys t f) ks = .ok ks') :
    ∃ new, ks' = ks ++ new ∧ List.Forall₂ (fun p k => Key.IsOf k p) ps new := by
  induction ps generalizing ks with
  | nil =>
    cases h
    exact ⟨[], (List.append_nil _).symm, .nil⟩
  | cons p ps ih =>
    obtain ⟨t, f⟩ := p
    rw [List.foldlM_cons] at h
    obtain ⟨ks₁, hk, h⟩ := Except.bind_eq_ok h
    obtain ⟨k, rfl, hof⟩ := keyOf_eq_ok hk
    obtain ⟨new, rfl, hnew⟩ := ih h
    exact ⟨k :: new, List.append_assoc ks [k] new, .cons hof hnew⟩

/-- Every field that declares a key has one. -/
theorem keys_eq_ok {c : Context} {ks : List Key} (h : keys c = .ok ks) :
    List.Forall₂ (fun p k => Key.IsOf k p) (c.schema.fieldsWith "primaryKey") ks := by
  obtain ⟨new, rfl, hnew⟩ := keysOf_eq_ok h
  exact hnew

/-- A key names fields of its model. -/
theorem hasKey_of_keys {c : Context} {ks : List Key} (h : keys c = .ok ks) {k : Key}
    (hk : k ∈ ks) : c.schema.HasKey k.model k.partitionKey k.sortKeys := by
  obtain ⟨⟨t, f⟩, hp, hmodel, hpartition, hnone⟩ :=
    exists_of_mem_forall₂ (Q := flip _) (keys_eq_ok h).flip hk
  obtain ⟨ht, hf, -⟩ := Document.mem_fieldsWith.1 hp
  rw [hmodel, hpartition]
  exact hasKey_of_missingField? ht hf hnone

/-- A model whose schema declares a key has one. -/
theorem exists_key_of_declaresKey {c : Context} {ks : List Key} (h : keys c = .ok ks)
    {model : String} (hd : c.schema.DeclaresKey model) : ∃ k ∈ ks, k.model = model := by
  obtain ⟨t, ht, rfl, f, hf, hp⟩ := hd
  obtain ⟨k, hk, hof⟩ := exists_of_mem_forall₂ (keys_eq_ok h)
    (Document.mem_fieldsWith.2 ⟨ht, hf, hp⟩)
  exact ⟨k, hk, hof.1⟩

theorem setKey_edits {c : Context} {k : Key}
    (h : c.schema.HasKey k.model k.partitionKey k.sortKeys) : Edits known ready c (setKey c k) := by
  unfold setKey
  dsimp only
  split
  · exact (Edits.of (.key h)).tail (.log _ _)
  · exact .refl

theorem apply_edits (s : PassState) : EditsAt known ready apply s := by
  unfold apply
  exact editsAt_examine_bind fun ks hks => editsAt_onContext
    (Edits.foldl fun k hk d hd => setKey_edits ((hasKey_of_keys hks hk).mono hd.grownTo))

end PrimaryKeyPass

/-- An index is of fields of its model, and has its query named by the schema if it has one. -/
structure IndexRecord.IsDeclared (r : IndexRecord) (c : Context) : Prop where
  keys  : c.schema.HasKey r.model r.partitionKey r.sortKeys
  query : ∀ q, r.queryField = some q → c.NamesQuery q

theorem IndexRecord.IsDeclared.mono {r : IndexRecord} {c d : Context} (h : r.IsDeclared c)
    (hd : Edits known ready c d) : r.IsDeclared d where
  keys := h.keys.mono hd.grownTo
  query q hq := (h.query q hq).mono hd

namespace IndexPass

theorem addQuery_edits {c : Context} {r : IndexRecord} (h : c.isModel r.model = true)
    (hr : r.IsDeclared c) : Edits known ready c (addQuery c r) := by
  unfold addQuery
  split
  · exact .refl
  · next q hq =>
    exact Edits.addOperation (by simp) (reaches_of_isModel h)
      (.index h (hr.keys _ List.mem_cons_self) (hr.query q hq)) _ (.set (by decide) _)

theorem listedUnder_mem (c : Context) : listedUnder c ∈ indexLists := by
  unfold listedUnder
  split <;> decide

theorem attach_edits {c : Context} {r : IndexRecord} (h : c.isModel r.model = true)
    (hr : r.IsDeclared c) : Edits known ready c (attach c r) := by
  have listed : Edits known ready c (c.modifyResource (tableId r.model)
      (·.push (listedUnder c) (entry r.name r.partitionKey r.sortKeys))) :=
    .of (.index r.name (listedUnder_mem c) fun _ => hr.keys)
  exact listed.trans (addQuery_edits (listed.isModel h) (hr.mono listed))

/-- An index is refused where it is on no model or has the name of another one of the model. -/
theorem on_addIndex (r : IndexRecord) (s : PassState) :
    (addIndex r).on s =
      if !s.context.isModel r.model then
        (.error (.invalidDirective "index" ("index '" ++ r.name ++ "' targets '" ++ r.model
          ++ "', which is not a @model")), s)
      else if (s.memory.indexesOn r.model).any (·.name == r.name) then
        (.error (.invalidDirective "index"
          ("duplicate index '" ++ r.name ++ "' on '" ++ r.model ++ "'")), s)
      else
        (.ok (), { s with
          context := (attach s.context r).log .debug
            ("Registered index " ++ r.name ++ " on " ++ r.model)
          memory  := { s.memory with indexes := s.memory.indexes ++ [r] } }) := by
  rw [addIndex, on_context_bind]
  refine (on_guard _ _ _ s).trans ?_
  split
  · rfl
  · rw [on_memory_bind]
    refine (on_guard _ _ _ s).trans ?_
    split
    · rfl
    · rw [on_onContext_bind, on_log_bind, on_onMemory]

theorem addIndex_edits {r : IndexRecord} {s : PassState} (hr : r.IsDeclared s.context) :
    EditsAt known ready (addIndex r) s := by
  have hon := on_addIndex r s
  split at hon
  · exact editsAt_of_error hon .refl
  · next hm =>
    split at hon
    · exact editsAt_of_error hon .refl
    · rw [Bool.not_eq_true', Bool.not_eq_false] at hm
      exact editsAt_of_ok hon ((attach_edits hm hr).tail (.log _ _))

/-- An index that the schema declares is of fields of its model. -/
theorem isDeclared_of_records {c : Context} {rs : List IndexRecord} (h : records c = .ok rs)
    {r : IndexRecord} (hr : r ∈ rs) : r.IsDeclared c := by
  obtain ⟨⟨t, f, dir⟩, hp, hof⟩ := Except.mem_of_mapM h hr
  obtain ⟨⟨u, g⟩, hfield, hdir⟩ := List.mem_flatMap.1 hp
  obtain ⟨dir', hmem, he⟩ := List.mem_map.1 hdir
  cases he
  obtain ⟨ht, hf, -⟩ := Document.mem_fieldsWith.1 hfield
  obtain ⟨hi, hname⟩ := List.mem_filter.1 hmem
  obtain ⟨args, hargs, hof⟩ := Except.bind_eq_ok hof
  split at hof
  · cases hof
  · next hnone =>
    cases hof
    refine ⟨hasKey_of_missingField? ht hf hnone, fun q hq => ?_⟩
    -- the query is named by the directive, and else by the field if that is asked for
    cases hg : args.queryField with
    | some given =>
      rw [hg] at hq
      cases hq
      exact .given ⟨t.name, t, ht, rfl, f, hf, dir, hi, eq_of_beq hname, args, hargs, hg⟩
    | none =>
      rw [hg] at hq
      split at hq
      · cases hq
        exact .default ⟨t, ht, rfl, f, hf, rfl⟩
      · cases hq

theorem apply_edits (s : PassState) : EditsAt known ready apply s := by
  unfold apply
  exact editsAt_examine_bind fun rs hrs => editsAt_forEach fun r hr t ht =>
    addIndex_edits ((isDeclared_of_records hrs hr).mono ht)

/-! ### Queries of indexes -/

/-- An index that asks for a query has it. -/
theorem exists_record {c : Context} {rs : List IndexRecord} (h : records c = .ok rs)
    {t : TypeDefinition} {f : FieldDefinition} {i : Directive} {args : Arguments} {q : String}
    (ht : t ∈ c.schema.definitions) (hf : f ∈ t.fields) (hi : i ∈ f.directives)
    (hname : i.name = "index")
    (hargs : i.decodeArguments decode defaults c.parameters.shouldDeepMergeDirectiveConfigDefaults
      = .ok args) (hq : args.queryField = some q) : ∃ r ∈ rs, r.queryField = some q := by
  have directed : f.hasDirective "index" = true :=
    List.find?_isSome.2 ⟨i, hi, beq_iff_eq.2 hname⟩
  have listed : (t, f, i) ∈ (c.schema.fieldsWith "index").flatMap fun (t, f) =>
      (f.directives.filter (·.name == "index")).map fun d => (t, f, d) :=
    List.mem_flatMap.2 ⟨(t, f), Document.mem_fieldsWith.2 ⟨ht, hf, directed⟩,
      List.mem_map.2 ⟨i, List.mem_filter.2 ⟨hi, beq_iff_eq.2 hname⟩, rfl⟩⟩
  obtain ⟨r, hr, hof⟩ := Except.exists_of_mapM h listed
  obtain ⟨args', hargs', hof⟩ := Except.bind_eq_ok hof
  rw [hargs] at hargs'
  cases hargs'
  split at hof
  · cases hof
  · cases hof
    refine ⟨_, hr, ?_⟩
    rw [hq]
    rfl

/-- An index with a query that was added has put it into the schema. -/
theorem declares_of_addIndex {r : IndexRecord} {q : String} (hq : r.queryField = some q)
    {s t : PassState} (h : (addIndex r).on s = (.ok (), t)) :
    t.context.schema.Declares "Query" q := by
  rw [on_addIndex] at h
  split at h
  · exact nomatch (Prod.mk.inj h).1
  · split at h
    · exact nomatch (Prod.mk.inj h).1
    · obtain rfl := (Prod.mk.inj h).2
      have schema : (addQuery (s.context.modifyResource (tableId r.model)
          (·.push (listedUnder s.context) (entry r.name r.partitionKey r.sortKeys))) r).schema
          = s.context.schema.ensureObjectField "Query"
            { name := q, type := .named (connectionName r.model) } := by
        rw [addQuery, hq]
        rfl
      show (attach s.context r).schema.Declares "Query" q
      rw [attach, schema]
      exact Document.declares_ensureField (Document.isTyped_ensureObject _ _) _

/-- The queries that indexes ask for are there where the pass ends well. -/
theorem declares_of_apply {s t : PassState} (h : apply.on s = (.ok (), t)) {q : String}
    (hq : s.context.AsksQuery q) : t.context.schema.Declares "Query" q := by
  rw [apply, on_examine_bind] at h
  split at h
  · next rs hrs =>
    obtain ⟨_, u, hu, rfl, f, hf, i, hi, hname, args, hargs, hgiven⟩ := hq
    obtain ⟨r, hr, hasks⟩ := exists_record hrs hu hf hi hname hargs hgiven
    have added : ∀ r ∈ rs, ∀ u, Edits AnyName AnyTime s.context u.context →
        EditsAt AnyName AnyTime (addIndex r) u :=
      fun r hr u hu => addIndex_edits ((isDeclared_of_records hrs hr).mono hu)
    obtain ⟨u, v, hv, -, behind⟩ := exists_of_forEach added h hr
    exact (declares_of_addIndex hasks hv).mono behind.grownTo
  · exact nomatch (Prod.mk.inj h).1

end IndexPass

end ApiCompiler
