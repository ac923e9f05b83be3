import ApiCompiler.Proofs.Pass.Footprint
import ApiCompiler.Proofs.Schema.Ends

/-!
# Passes — what the pass of many to many ends with

* `LinkedBy`: what the step for a relation checked and did where it ended well.
* `ends_of_groups`: the ends that the pass finds are those that the schema had from the first.
* `Joins`: what a join model has in all that passes remember, and in the schema.
* `LinkedBy.joins`, `Joins.mono`: it has all that when it is made, and keeps it.
-/

namespace ApiCompiler

open PassAction

namespace Context

variable {known : String → Prop} {ready : Document → String → Prop} {c d : Context}

/-- **No change makes a list** of a field that was none. -/
theorem Edit.settles (h : Edit known ready c d) : c.schema.Settles d.schema := by
  cases h with
  | log | supply | resolver | decorate | rename | key | index => exact .refl _
  | object => exact Document.settles_ensureObject _ _
  | field h => exact Document.settles_modifyType fun t => t.settles_ensureField h.isPlain.1
  | mark =>
    refine Document.settles_modifyType fun t => ?_
    unfold ModelPass.markModel
    split
    · exact .refl t
    · exact t.settles_addDirective _
  | retype => exact Document.settles_modifyType fun t => t.settles_retype _ rfl
  | store _ h =>
    rcases ModelPass.addStore_eq h with rfl | ⟨_, _, rfl⟩ <;> exact .refl _

theorem Edits.settles (h : Edits known ready c d) : c.schema.Settles d.schema := by
  induction h with
  | refl => exact .refl _
  | tail _ h ih => exact ih.trans h.settles

end Context

/-! ### Types that are declared -/

namespace TypeDefinition

theorem mem_ensureField {t : TypeDefinition} {f : FieldDefinition} (h : f ∈ t.fields)
    (g : FieldDefinition) : f ∈ (t.ensureField g).fields := by
  unfold ensureField
  split
  · exact h
  · exact List.mem_append_left _ h

/-- Fields that are ensured leave a definition what it is, and are there. -/
theorem ensureFields (fields : List FieldDefinition) (t : TypeDefinition) :
    (fields.foldl (·.ensureField ·) t).directives = t.directives
      ∧ (∀ name, Document.isBase name (fields.foldl (·.ensureField ·) t)
        = Document.isBase name t)
      ∧ (∀ f ∈ t.fields, f ∈ (fields.foldl (·.ensureField ·) t).fields)
      ∧ ∀ f ∈ fields, ((fields.foldl (·.ensureField ·) t).field? f.name).isSome = true := by
  induction fields generalizing t with
  | nil => exact ⟨rfl, fun _ => rfl, fun _ hf => hf, nofun⟩
  | cons f fs ih =>
    obtain ⟨hdirectives, hbase, hkept, hfields⟩ := ih (t.ensureField f)
    have same : (t.ensureField f).directives = t.directives := by
      unfold ensureField
      split <;> rfl
    refine ⟨hdirectives.trans same, fun name => ?_, fun g hg => hkept g (mem_ensureField hg f),
      fun g hg => ?_⟩
    · exact (hbase name).trans (Document.isBase_ensureField name t f)
    · rcases List.mem_cons.1 hg with rfl | hg
      · obtain ⟨k, hk, hname⟩ := isSome_field?_iff.1 (field?_ensureField t g)
        exact isSome_field?_iff.2 ⟨k, hkept k hk, hname⟩
      · exact hfields g hg

end TypeDefinition

namespace ModelPass

theorem hasDirective_markModel (t : TypeDefinition) :
    (markModel t).hasDirective "model" = true := by
  unfold markModel
  split
  · assumption
  · rw [TypeDefinition.hasDirective, TypeDefinition.directive?, TypeDefinition.addDirective,
      findDirective?, List.find?_isSome]
    exact ⟨_, List.mem_append_right _ List.mem_cons_self, rfl⟩

/-- A type that is declared says that it is a model, and has its fields. -/
theorem declared_declare (model : String) (fields : List FieldDefinition) (c : Context) :
    ∃ t, (declare model fields c).schema.getType? model = some t
      ∧ t.hasDirective "model" = true
      ∧ ∀ f ∈ fields, (t.field? f.name).isSome = true := by
  obtain ⟨t, ht⟩ := Option.isSome_iff_exists.1 (Document.getType?_ensureObject c.schema model)
  obtain ⟨hdirectives, -, -, hfields⟩ := TypeDefinition.ensureFields fields (markModel t)
  refine ⟨_, ?_, ?_, hfields⟩
  · refine (find?_modifyFirst (fun u hu => ?_) _).trans (congrArg _ ht)
    rw [(TypeDefinition.ensureFields fields (markModel u)).2.1, isBase_markModel, hu]
  · rw [TypeDefinition.hasDirective, TypeDefinition.directive?, hdirectives]
    exact hasDirective_markModel t

end ModelPass

/-! ### Join models -/

/-- A join model connects two others, in all that passes remember and in the schema: it has an index
by each of them, a link to each of them, and the keys of both. -/
structure PassState.Joins (s : PassState) (join a b : String) : Prop where
  distinct  : a ≠ b
  models    : ∀ m ∈ [a, b], s.memory.models.contains m = true
  indexes   : ∀ m ∈ [a, b],
    ⟨join, "by" ++ m, Text.lowerFirst m ++ "Id", [], none⟩ ∈ s.memory.indexes
  relations : ∀ m ∈ [a, b], ⟨join, Text.lowerFirst m, m, true⟩ ∈ s.memory.relations
  declared  : ∃ t, s.context.schema.getType? join = some t ∧ t.hasDirective "model" = true
    ∧ ∀ m ∈ [a, b], (t.field? (Text.lowerFirst m ++ "Id")).isSome = true

/-- What is remembered stays, and the schema grows. -/
structure PassState.Extends (s t : PassState) : Prop where
  models    : ∀ m, s.memory.models.contains m = true → t.memory.models.contains m = true
  indexes   : ∀ r ∈ s.memory.indexes, r ∈ t.memory.indexes
  relations : ∀ r ∈ s.memory.relations, r ∈ t.memory.relations
  schema    : s.context.schema.GrownTo t.context.schema

theorem PassState.Joins.mono {s t : PassState} {join a b : String} (h : s.Joins join a b)
    (ht : s.Extends t) : t.Joins join a b where
  distinct := h.distinct
  models m hm := ht.models m (h.models m hm)
  indexes m hm := ht.indexes _ (h.indexes m hm)
  relations m hm := ht.relations _ (h.relations m hm)
  declared := by
    obtain ⟨u, hu, hmodel, hkeys⟩ := h.declared
    obtain ⟨v, hv, hgrown⟩ := ht.schema.getType? hu
    exact ⟨v, hv, hgrown.hasDirective hmodel, fun m hm => hgrown.isSome_field? (hkeys m hm)⟩

/-! ### Fields with a directive -/

/-- Every field that carries a directive is listed with it. -/
theorem map_directedFields (c : Context) (directive : String) :
    (directedFields c directive).map (fun x => (x.1, x.2.1)) = c.schema.fieldsWith directive := by
  rw [directedFields, List.map_filterMap]
  refine (List.filterMap_congr (g := some) fun (t, f) hp => ?_).trans List.filterMap_some
  obtain ⟨-, -, hd⟩ := Document.mem_fieldsWith.1 hp
  obtain ⟨d, hd⟩ := Option.isSome_iff_exists.1 hd
  rw [Option.map_map, hd]
  rfl

namespace ManyToManyPass

/-! ### The ends of relations -/

/-- A member is the end that a field is. -/
structure Member.IsEnd (p : TypeDefinition × FieldDefinition) (m : Member) : Prop where
  type   : m.type = p.1.name
  target : m.target = p.2.type.baseName
  isList : p.2.type.isList = true

theorem isEnd_of_memberOf {t : TypeDefinition} {f : FieldDefinition} {d : Directive}
    (hd : f.directive? "manyToMany" = some d) {p : String × Member}
    (h : memberOf t f d = .ok p) : f.join? = some p.1 ∧ p.2.IsEnd (t, f) := by
  obtain ⟨htype, -, htarget, relation, hr, hjoin⟩ := memberOf_eq_ok h
  refine ⟨?_, htype, htarget, ?_⟩
  · rw [FieldDefinition.join?, hd, Option.bind_some, hr, Option.map_some, hjoin]
  · obtain ⟨_, -, h⟩ := Except.bind_eq_ok h
    split at h
    · cases h
    · next hl => rwa [Bool.not_eq_true', Bool.not_eq_false] at hl

/-- The members that are found under the name of a relation are those of that name. -/
theorem find?_grouped (ms : List (String × Member)) (g : Dict (List Member)) (join : String) :
    ((ms.foldl (fun g (join, m) => g.insert join ((g.find? join).getD [] ++ [m])) g).find?
        join).getD []
      = (g.find? join).getD [] ++ (ms.filter (·.1 == join)).map (·.2) := by
  induction ms generalizing g with
  | nil => simp
  | cons p ms ih =>
    rw [List.foldl_cons, ih, Dict.find?_insert]
    by_cases h : join = p.1
    · subst h
      simp
    · rw [if_neg h, List.filter_cons_of_neg (by simpa using Ne.symm h)]

/-- Every end of a relation is a member under the name of the relation. -/
theorem forall₂_members {c : Context} {ms : List (String × Member)}
    (h : ((directedFields c "manyToMany").mapM fun (t, f, d) => memberOf t f d) = .ok ms) :
    List.Forall₂ (fun p q => p.2.join? = some q.1 ∧ q.2.IsEnd p)
      (c.schema.fieldsWith "manyToMany") ms := by
  rw [← map_directedFields, List.forall₂_map_left_iff]
  refine Except.forall₂_of_mapM h fun (t, f, d) hd p hp => ?_
  exact isEnd_of_memberOf (mem_directedFields hd).2.2 hp

/-- The members of a relation are the ends that the schema has of it, in their order. -/
theorem forall₂_ends_of_groups {c : Context} {g : Dict (List Member)} (h : groups c = .ok g)
    {join : String} {members : List Member} (hm : g.find? join = some members) :
    List.Forall₂ Member.IsEnd (c.schema.ends join) members := by
  obtain ⟨ms, hms, h⟩ := Except.bind_eq_ok h
  cases h
  have found := find?_grouped ms ∅ join
  rw [hm] at found
  have hmembers : members = (ms.filter (·.1 == join)).map (·.2) := found
  rw [hmembers, Document.ends, List.forall₂_map_right_iff]
  have filtered := List.rel_filter (p := fun p => p.2.join? == some join)
    (q := fun q : String × Member => q.1 == join) (fun p q hpq => by
      change p.2.join? == some join ↔ q.1 == join
      rw [hpq.1]
      simp) (forall₂_members hms)
  exact filtered.imp fun _ _ hpq => hpq.2

/-- Every end that the schema had from the first is one of a relation that is found. -/
theorem exists_group_of_mem {d : Document} {c : Context} {g : Dict (List Member)}
    (h : groups c = .ok g) (hd : d.Settles c.schema) {p : TypeDefinition × FieldDefinition}
    (hp : p ∈ d.fieldsWith "manyToMany") :
    ∃ join members, p.2.join? = some join ∧ (join, members) ∈ g.toList := by
  obtain ⟨ms, hms, h⟩ := Except.bind_eq_ok h
  cases h
  obtain ⟨p', hp', -, hsettles⟩ := exists_of_mem_forall₂ (hd.fieldsWith "manyToMany") hp
  obtain ⟨q, hq, hjoin, -⟩ := exists_of_mem_forall₂ (forall₂_members hms) hp'
  have found := contains_grouped (g := ∅) (.inr ⟨q, hq, rfl⟩)
  obtain ⟨members, hfound⟩ := Option.isSome_iff_exists.1 found
  refine ⟨q.1, members, ?_, Dict.mem_toList_iff.2 hfound⟩
  rw [← hjoin, FieldDefinition.join?, FieldDefinition.join?, FieldDefinition.directive?,
    FieldDefinition.directive?, hsettles.directives]

/-- The two members of a relation are the two ends that the schema had of it from the first. -/
theorem ends_of_groups {d : Document} {c : Context} {g : Dict (List Member)}
    (h : groups c = .ok g) (hd : d.Settles c.schema) {join : String} {a b : Member}
    (hm : g.find? join = some [a, b]) :
    ∃ p q, d.ends join = [p, q] ∧ a.IsEnd p ∧ b.IsEnd q := by
  have first : ∀ {p p' : TypeDefinition × FieldDefinition} {m : Member},
      p'.1.name = p.1.name ∧ p.2.Settles p'.2 → m.IsEnd p' → m.IsEnd p := by
    rintro p p' m ⟨hname, hsettles⟩ ⟨htype, htarget, hlist⟩
    have ht := hsettles.type hlist
    exact ⟨htype.trans hname, ht ▸ htarget, ht ▸ hlist⟩
  have hends := hd.ends join
  have hmembers := forall₂_ends_of_groups h hm
  obtain ⟨p', ps, hp, hrest, he⟩ := List.forall₂_cons_right_iff.1 hmembers
  obtain ⟨q', qs, hq, hnil, rfl⟩ := List.forall₂_cons_right_iff.1 hrest
  obtain rfl := List.forall₂_nil_right_iff.1 hnil
  rw [he] at hends
  obtain ⟨p, ps, hpp, hrest, he⟩ := List.forall₂_cons_right_iff.1 hends
  obtain ⟨q, qs, hqq, hnil, rfl⟩ := List.forall₂_cons_right_iff.1 hrest
  obtain rfl := List.forall₂_nil_right_iff.1 hnil
  exact ⟨p, q, he, first hpp hp, first hqq hq⟩

/-! ### What is remembered -/

/-- The step for a relation with two ends led from one state to another: the ends are different
models that refer to each other, and the join model is made before they are linked to it. -/
structure LinkedBy (join : String) (a b : Member) (s t : PassState) : Prop where
  distinct : a.type ≠ b.type
  targets  : a.target = b.type ∧ b.target = a.type
  models   : ∀ m ∈ [a, b], s.memory.models.contains m.type = true
  made     : ∃ u, (ModelPass.addSynthesized join (joinFields a b)).on s = (.ok (), u)
    ∧ (linkEnds join a b).on u = (.ok (), t)

variable {join : String} {s t : PassState}

theorem distinct_of_pairOf {members : List Member} {a b : Member}
    (h : pairOf join members = .ok (a, b)) : a.type ≠ b.type := by
  unfold pairOf at h
  split at h
  · split at h
    · cases h
    · next hne =>
      split at h
      · cases h
      · cases h
        exact hne
  · cases h

theorem of_requireModel {m : Member} (h : (requireModel m).on s = (.ok (), t)) :
    s.memory.models.contains m.type = true ∧ t = s := by
  rw [requireModel, Action.on_bind_eq_ok] at h
  obtain ⟨_, u, hu, h⟩ := h
  rw [on_reading] at hu
  obtain rfl := (Prod.mk.inj hu).2
  rw [on_memory_bind] at h
  split at h
  · next hm => exact ⟨hm, (Prod.mk.inj h).2.symm⟩
  · exact nomatch (Prod.mk.inj h).1

theorem on_of_writing {β : Type} {role : Role} {f : Unit → PassAction β} {b : β}
    (h : (writing role >>= f).on s = (.ok b, t)) : (f ()).on s = (.ok b, t) := by
  obtain ⟨_, u, hu, h⟩ := Action.on_bind_eq_ok.1 h
  rw [on_writing] at hu
  rwa [← (Prod.mk.inj hu).2] at h

theorem linkedBy_of_linkGroup {members : List Member}
    (h : (linkGroup join members).on s = (.ok (), t)) :
    ∃ a b, members = [a, b] ∧ LinkedBy join a b s t := by
  rw [linkGroup] at h
  obtain ⟨⟨a, b⟩, _, hab, hrest⟩ := Action.on_bind_eq_ok.1 h
  obtain ⟨hpair, rfl⟩ := Prod.mk.inj hab
  obtain ⟨rfl, ha, hb⟩ := pairOf_eq_ok hpair
  obtain ⟨_, u, hu, hfirst⟩ := Action.on_bind_eq_ok.1 hrest
  obtain ⟨hma, rfl⟩ := of_requireModel hu
  obtain ⟨_, v, hv, hsecond⟩ := Action.on_bind_eq_ok.1 hfirst
  obtain ⟨hmb, rfl⟩ := of_requireModel hv
  rw [buildJoin_eq] at hsecond
  obtain ⟨_, w, hw, hlinked⟩ := Action.on_bind_eq_ok.1 (on_of_writing hsecond :)
  refine ⟨a, b, rfl, distinct_of_pairOf hpair, ⟨hb.symm, ha.symm⟩, ?_, w, hw, hlinked⟩
  simp only [List.forall_mem_cons, hma, hmb, List.not_mem_nil, false_imp_iff, implies_true,
    and_self]

theorem memory_of_indexEnd {m : Member} (h : (indexEnd join m).on s = (.ok (), t)) :
    t.memory = { s.memory with indexes := s.memory.indexes ++ [joinIndex join m] } := by
  have h := on_of_writing h
  rw [IndexPass.on_addIndex] at h
  split at h
  · exact nomatch (Prod.mk.inj h).1
  · split at h
    · exact nomatch (Prod.mk.inj h).1
    · exact (congrArg (·.memory) (Prod.mk.inj h).2).symm

/-- Ends that are linked have an index each, and then the fields, the relations and the join. -/
theorem linkEnds_ok {a b : Member} (h : (linkEnds join a b).on s = (.ok (), t)) :
    ∃ v w, (indexEnd join a).on s = (.ok (), v) ∧ (indexEnd join b).on v = (.ok (), w)
      ∧ t.context.resources = ([a, b].foldl (attach join) w.context).resources
      ∧ t.memory = ([a, b].foldl (fun m e => m.addRelation (joinRelation join e))
        w.memory).registerJoin join [a.type, b.type] := by
  obtain ⟨_, u, hu, hrest⟩ := Action.on_bind_eq_ok.1 h
  obtain ⟨v, hv, hu⟩ := Action.forEach_cons_ok.1 hu
  obtain ⟨w, hw, hu⟩ := Action.forEach_cons_ok.1 hu
  obtain rfl : w = u := (Prod.mk.inj hu).2
  have hlinked := on_of_writing hrest
  rw [on_onMemory_bind] at hlinked
  have hjoined := on_of_writing hlinked
  rw [on_onMemory_bind, on_onContext_bind, on_log] at hjoined
  have hend := (Prod.mk.inj hjoined).2.symm
  exact ⟨v, w, hv, hw, congrArg (·.context.resources) hend, congrArg (·.memory) hend⟩

theorem memory_of_linkEnds {a b : Member} (h : (linkEnds join a b).on s = (.ok (), t)) :
    t.memory.models = s.memory.models
      ∧ t.memory.indexes = s.memory.indexes ++ [joinIndex join a, joinIndex join b]
      ∧ (∀ r, r ∈ t.memory.relations ↔
        (r ∈ s.memory.relations ∨ r = joinRelation join a) ∨ r = joinRelation join b)
      ∧ t.memory.joinModels = s.memory.joinModels.insert join [a.type, b.type] := by
  obtain ⟨v, w, hv, hw, -, hmemory⟩ := linkEnds_ok h
  -- the indexes of both ends come before the links
  have hindexed : w.memory = { s.memory with
      indexes := s.memory.indexes ++ [joinIndex join a, joinIndex join b] } := by
    rw [memory_of_indexEnd hw, memory_of_indexEnd hv, List.append_assoc]
    rfl
  rw [hmemory, hindexed]
  refine ⟨rfl, rfl, fun r => ?_, rfl⟩
  exact mem_appendNew.trans (or_congr_left mem_appendNew)

/-- A model that is declared and made is remembered, and was not before. -/
theorem memory_of_addSynthesized {fields : List FieldDefinition}
    (h : (ModelPass.addSynthesized join fields).on s = (.ok (), t)) :
    s.memory.models.contains join = false ∧ ∃ datasource,
      t.memory = { s.memory with models := s.memory.models.insert join ⟨datasource, true⟩ } := by
  rw [ModelPass.on_addSynthesized] at h
  split at h
  · exact nomatch (Prod.mk.inj h).1
  · next hnew =>
    obtain ⟨_, _, -, -, -, hm⟩ := ModelPass.materialize_ok h
    exact ⟨Bool.eq_false_iff.2 hnew, _, hm⟩

/-- A model that is declared and made has its fields, and says that it is one. -/
theorem declared_of_addSynthesized {fields : List FieldDefinition}
    (h : (ModelPass.addSynthesized join fields).on s = (.ok (), t)) :
    ∃ u, t.context.schema.getType? join = some u ∧ u.hasDirective "model" = true
      ∧ ∀ f ∈ fields, (u.field? f.name).isSome = true := by
  rw [ModelPass.on_addSynthesized] at h
  split at h
  · exact nomatch (Prod.mk.inj h).1
  · have edits : EditsAt Context.AnyName Context.AnyTime (ModelPass.materialize join true)
        { s with context := ModelPass.declare join fields s.context } :=
      ModelPass.materialize_edits (fun _ _ => trivial) true
    obtain ⟨u, hu, hmodel, hfields⟩ := ModelPass.declared_declare join fields s.context
    obtain ⟨v, hv, hgrown⟩ := (edits.of_ok h).grownTo.getType? hu
    exact ⟨v, hv, hgrown.hasDirective hmodel, fun f hf => hgrown.isSome_field? (hfields f hf)⟩

/-- What the step for a relation leaves of what is remembered. -/
structure Remembers (join : String) (a b : Member) (s t : PassState) : Prop where
  fresh     : s.memory.models.contains join = false
  models    : ∃ datasource,
    t.memory.models = s.memory.models.insert join ⟨datasource, true⟩
  indexes   : t.memory.indexes = s.memory.indexes ++ [joinIndex join a, joinIndex join b]
  relations : ∀ r, r ∈ t.memory.relations ↔
    (r ∈ s.memory.relations ∨ r = joinRelation join a) ∨ r = joinRelation join b
  joins     : t.memory.joinModels = s.memory.joinModels.insert join [a.type, b.type]

theorem LinkedBy.remembers {a b : Member} (h : LinkedBy join a b s t) :
    Remembers join a b s t := by
  obtain ⟨u, hu, hends⟩ := h.made
  obtain ⟨hfresh, datasource, hm⟩ := memory_of_addSynthesized hu
  obtain ⟨hmodels, hindexes, hrelations, hjoins⟩ := memory_of_linkEnds hends
  rw [hm] at hmodels hindexes hrelations hjoins
  exact ⟨hfresh, ⟨datasource, hmodels⟩, hindexes, hrelations, hjoins⟩

/-- **A join model that is made connects its ends**, where the schema asks for it. -/
theorem LinkedBy.joins {a b : Member} (h : LinkedBy join a b s t)
    (hj : s.context.schema.IsJoin join)
    (hl : ∀ m ∈ [a, b], s.context.schema.LinksToMany m.type m.field) :
    t.Joins join a.type b.type := by
  have hm := h.remembers
  obtain ⟨datasource, hmodels⟩ := hm.models
  obtain ⟨u, hu, hends⟩ := h.made
  have ends : ∀ m ∈ [a, b], Context.AnyName m.type
      ∧ s.context.schema.LinksToMany m.type m.field := fun m hm => ⟨trivial, hl m hm⟩
  have grown := ((linkEnds_edits hj ends hu).of_ok hends).grownTo
  have pair : ∀ {P : String → Prop}, P a.type → P b.type → ∀ m ∈ [a.type, b.type], P m := by
    intro P ha hb
    simp only [List.forall_mem_cons, ha, hb, List.not_mem_nil, false_imp_iff, implies_true,
      and_self]
  have recorded : ∀ m ∈ [a, b], t.memory.models.contains m.type = true := fun m hm => by
    rw [hmodels, Dict.contains_insert, h.models m hm, Bool.or_true]
  refine ⟨h.distinct, pair (recorded a (by simp)) (recorded b (by simp)), ?_, ?_, ?_⟩
  · rw [hm.indexes]
    exact pair (List.mem_append_right _ List.mem_cons_self)
      (List.mem_append_right _ (List.mem_cons_of_mem _ List.mem_cons_self))
  · exact pair ((hm.relations _).2 (.inl (.inr rfl))) ((hm.relations _).2 (.inr rfl))
  · obtain ⟨v, hv, hmodel, hfields⟩ := declared_of_addSynthesized hu
    obtain ⟨w, hw, hgrown⟩ := grown.getType? hv
    have key : ∀ m : Member, { name := m.key, type := .required "ID" } ∈ joinFields a b →
        (w.field? m.key).isSome = true := fun m hk => hgrown.isSome_field? (hfields _ hk)
    exact ⟨w, hw, hgrown.hasDirective hmodel,
      pair (key a (by simp [joinFields])) (key b (by simp [joinFields]))⟩

end ManyToManyPass

end ApiCompiler
