import ApiCompiler.Proofs.Chain.Started
import ApiCompiler.Proofs.Pass.Join

/-!
# Chains — join models

The pass of many to many extends what four passes remember. After a run that ends well all of them
tell the same of it.

* `PassState.JoinsEnds`: the join models that rules are inherited by are those that were made for
  another pass, and each of them connects the two ends of a relation.
* `JoinsEnds.linkGroup`: each relation that is linked keeps that.
* `Chain.joins_of_completes`: a fresh run of the passes that every chain starts with ends in it,
  and leaves no end of a relation out.
-/

namespace ApiCompiler

open PassAction

/-- A field is a list of the records of another model. -/
def FieldDefinition.Lists (f : FieldDefinition) (model : String) : Prop :=
  f.type.isList = true ∧ f.type.baseName = model

/-- The join models that are registered are those that were made for another pass, and each of them
connects the two ends that a schema has of its relation, each of which lists the other. -/
structure PassState.JoinsEnds (d : Document) (s : PassState) : Prop where
  registered : ∀ join, s.memory.joinModels.contains join = true ↔
    ∃ r, s.memory.models.find? join = some r ∧ r.synthesized = true
  connects   : ∀ join sources, s.memory.joinModels.find? join = some sources →
    ∃ p q, d.ends join = [p, q] ∧ sources = [p.1.name, q.1.name]
      ∧ p.2.Lists q.1.name ∧ q.2.Lists p.1.name ∧ s.Joins join p.1.name q.1.name

namespace PassState.JoinsEnds

variable {d : Document} {s t : PassState}

/-- Nothing is joined where no join model is registered and no model was made for another pass. -/
theorem of_none (hj : s.memory.joinModels = ∅)
    (hm : ∀ name r, s.memory.models.find? name = some r → r.synthesized = false) :
    s.JoinsEnds d where
  registered join := by
    rw [hj]
    refine iff_of_false Bool.false_ne_true ?_
    rintro ⟨r, hr, hs⟩
    exact Bool.false_ne_true ((hm join r hr).symm.trans hs)
  connects join sources h := by
    rw [hj] at h
    cases h

theorem mono (h : s.JoinsEnds d) (hj : t.memory.joinModels = s.memory.joinModels)
    (hm : t.memory.models = s.memory.models) (ht : s.Extends t) : t.JoinsEnds d where
  registered := by
    rw [hj, hm]
    exact h.registered
  connects join sources hs := by
    rw [hj] at hs
    obtain ⟨p, q, he, hsources, hp, hq, hjoins⟩ := h.connects join sources hs
    exact ⟨p, q, he, hsources, hp, hq, hjoins.mono ht⟩

end PassState.JoinsEnds

namespace ManyToManyPass

variable {d : Document} {join : String} {a b : Member} {s t : PassState}

theorem LinkedBy.extends (h : LinkedBy join a b s t)
    (hg : s.context.schema.GrownTo t.context.schema) : s.Extends t := by
  have hm := h.remembers
  obtain ⟨datasource, hmodels⟩ := hm.models
  refine ⟨fun m hr => ?_, fun r hr => ?_, fun r hr => (hm.relations r).2 (.inl (.inl hr)), hg⟩
  · rw [hmodels, Dict.contains_insert, hr, Bool.or_true]
  · rw [hm.indexes]
    exact List.mem_append_left _ hr

/-- A relation that is linked is joined like those before it. -/
theorem LinkedBy.joinsEnds (h : LinkedBy join a b s t) (hs : s.JoinsEnds d)
    {p q : TypeDefinition × FieldDefinition} (he : d.ends join = [p, q]) (hp : a.IsEnd p)
    (hq : b.IsEnd q) (hjoins : t.Joins join a.type b.type)
    (hg : s.context.schema.GrownTo t.context.schema) : t.JoinsEnds d := by
  have hm := h.remembers
  obtain ⟨datasource, hmodels⟩ := hm.models
  constructor
  · intro other
    rw [hm.joins, hmodels, Dict.contains_insert, Dict.find?_insert, Bool.or_eq_true,
      decide_eq_true_eq]
    by_cases ho : other = join
    · rw [if_pos ho]
      exact iff_of_true (.inl ho) ⟨_, rfl, rfl⟩
    · rw [if_neg ho, or_iff_right ho]
      exact hs.registered other
  · intro other sources hsources
    rw [hm.joins, Dict.find?_insert] at hsources
    split at hsources
    · next ho =>
      subst ho
      cases hsources
      rw [hp.type, hq.type] at hjoins
      refine ⟨p, q, he, by rw [hp.type, hq.type], ⟨hp.isList, ?_⟩, ⟨hq.isList, ?_⟩, hjoins⟩
      · rw [← hp.target, h.targets.1, hq.type]
      · rw [← hq.target, h.targets.2, hp.type]
    · obtain ⟨p, q, he, hsources, hp, hq, hjoins⟩ := hs.connects other sources hsources
      exact ⟨p, q, he, hsources, hp, hq, hjoins.mono (h.extends hg)⟩

/-- The step for a relation that the schema has from the first keeps what holds of join models. -/
theorem joinsEnds_of_linkGroup {c : Context} {g : Dict (List Member)} (hg : groups c = .ok g)
    (hd : d.Settles c.schema) {members : List Member} (hm : (join, members) ∈ g.toList)
    (hc : Context.Edits Context.AnyName Context.AnyTime c s.context)
    (h : (linkGroup join members).on s = (.ok (), t)) :
    Context.Edits Context.AnyName Context.AnyTime c t.context
      ∧ t.memory.joinModels.contains join = true
      ∧ (∀ other, s.memory.joinModels.contains other = true →
        t.memory.joinModels.contains other = true)
      ∧ (s.JoinsEnds d → t.JoinsEnds d) := by
  have hfound := Dict.mem_toList_iff.1 hm
  obtain ⟨hj, hl⟩ := of_groups hg hfound
  have hj := hj.mono hc.grownTo
  have edits : EditsAt Context.AnyName _ (linkGroup join members) s :=
    linkGroup_edits hj fun m hm => ⟨trivial, (hl m hm).2.mono hc.grownTo⟩
  have grown := (edits.of_ok h).grownTo
  obtain ⟨a, b, rfl, hlinked⟩ := linkedBy_of_linkGroup h
  obtain ⟨p, q, he, hp, hq⟩ := ends_of_groups hg hd hfound
  have hjoins := hlinked.joins hj fun m hm => (hl m hm).2.mono hc.grownTo
  have registered := hlinked.remembers.joins
  refine ⟨hc.trans ((edits.of_ok h).mono (fun _ => id) fun _ _ _ => trivial), ?_, ?_, fun hs =>
    hlinked.joinsEnds hs he hp hq hjoins grown⟩
  · rw [registered, Dict.contains_insert, decide_eq_true rfl, Bool.true_or]
  · intro other ho
    rw [registered, Dict.contains_insert, ho, Bool.or_true]

/-- The join models of all relations that are linked are registered, besides those that are
already. -/
theorem registered_of_forEach {c : Context} {g : Dict (List Member)} (hg : groups c = .ok g)
    (hd : d.Settles c.schema) {gs : List (String × List Member)} (hgs : ∀ p ∈ gs, p ∈ g.toList)
    (hc : Context.Edits Context.AnyName Context.AnyTime c s.context)
    (h : (Action.forEach (fun (join, members) => linkGroup join members) gs).on s = (.ok (), t))
    (hj : s.memory.joinModels.contains join = true ∨ ∃ members, (join, members) ∈ gs) :
    t.memory.joinModels.contains join = true := by
  induction gs generalizing s with
  | nil =>
    cases h
    exact hj.resolve_right nofun
  | cons p gs ih =>
    obtain ⟨u, hu, h⟩ := Action.forEach_cons_ok.1 h
    obtain ⟨hedits, hregistered, hkept, -⟩ :=
      joinsEnds_of_linkGroup hg hd (hgs p List.mem_cons_self) hc hu
    refine ih (fun q hq => hgs q (List.mem_cons_of_mem p hq)) hedits h ?_
    rcases hj with hj | ⟨members, hm⟩
    · exact .inl (hkept join hj)
    · rcases List.mem_cons.1 hm with rfl | hm
      · exact .inl hregistered
      · exact .inr ⟨members, hm⟩

/-- **The pass joins the ends of all relations** that the schema has from the first. -/
theorem joinsEnds_of_apply (hd : d.Settles s.context.schema) (hs : s.JoinsEnds d)
    (h : apply.on s = (.ok (), t)) : t.JoinsEnds d
      ∧ ∀ p ∈ d.fieldsWith "manyToMany", ∃ join, p.2.join? = some join
        ∧ t.memory.joinModels.contains join = true := by
  rw [apply, on_examine_bind] at h
  split at h
  · next g hg =>
    have run := Action.forEach_invariant (I := fun u : PassState =>
      Context.Edits Context.AnyName Context.AnyTime s.context u.context ∧ u.JoinsEnds d)
      (fun p hp u v hv hu => by
        obtain ⟨hedits, -, -, hjoins⟩ := joinsEnds_of_linkGroup hg hd hp hu.1 hv
        exact ⟨hedits, hjoins hu.2⟩) h ⟨.refl, hs⟩
    refine ⟨run.2, fun p hp => ?_⟩
    obtain ⟨join, members, hjoin, hmem⟩ := exists_group_of_mem hg hd hp
    exact ⟨join, hjoin, registered_of_forEach hg hd (fun _ => id) .refl h (.inr ⟨members, hmem⟩)⟩
  · cases h

end ManyToManyPass

/-! ### Chains -/

/-- No join model is registered, and no model was made for another pass. -/
def PassState.Unjoined (s : PassState) : Prop :=
  s.memory.joinModels = ∅
    ∧ ∀ name r, s.memory.models.find? name = some r → r.synthesized = false

theorem PassState.Unjoined.of_context (c : Context) : PassState.Unjoined { context := c } :=
  ⟨rfl, by rintro _ _ ⟨⟩⟩

/-- The pass of models makes none for another pass. -/
theorem ModelPass.unjoined_of_apply {s t : PassState} (hs : s.Unjoined)
    (h : apply.on s = (.ok (), t)) : t.Unjoined := by
  have hjoins : Part.joins.Same s t := (apply_spares (by decide)).of_ok h
  refine ⟨Eq.trans hjoins hs.1, ?_⟩
  rw [apply, on_context_bind] at h
  obtain ⟨_, u, hu, hlog⟩ := Action.on_bind_eq_ok.1 h
  have hmodels : Part.models.Same u t := (spares_log _ _).of_ok hlog
  have hmodels : t.memory.models = u.memory.models := hmodels
  rw [hmodels]
  refine Action.forEach_invariant (I := fun v : PassState =>
    ∀ name r, v.memory.models.find? name = some r → r.synthesized = false)
    (fun model _ v w hw hv => ?_) hu hs.2
  rw [materializeDeclared, on_memory_bind] at hw
  split at hw
  · cases hw
    exact hv
  · obtain ⟨_, _, -, -, -, hm⟩ := materialize_ok hw
    intro name r hr
    rw [hm, Dict.find?_insert] at hr
    split at hr
    · cases hr
      rfl
    · exact hv name r hr

namespace Chain

variable {args : FactoryArgs} {d : Document} {e : Entry} {s t : PassState}

/-- The passes before that of many to many join nothing. -/
theorem unjoined_of_builtin (he : e ∈ (builtin args).take 8)
    (h : e.pass.apply.on s = (.ok (), t)) (hs : s.Unjoined) : t.Unjoined := by
  have hmem := List.mem_of_mem_take he
  have kept (hmodels : Part.models ∉ touched e.pass.name)
      (hjoins : Part.joins ∉ touched e.pass.name) : t.Unjoined := by
    have hm : t.memory.models = s.memory.models := (builtin_spares hmem hmodels).of_ok h
    have hj : t.memory.joinModels = s.memory.joinModels := (builtin_spares hmem hjoins).of_ok h
    exact ⟨hj.trans hs.1, hm ▸ hs.2⟩
  simp only [builtin, List.take_succ_cons, List.take_zero, List.mem_cons, List.not_mem_nil,
    or_false] at he
  rcases he with rfl | rfl | rfl | rfl | rfl | rfl | rfl | rfl
  · exact ModelPass.unjoined_of_apply hs h
  · exact kept (by decide : _ ∉ touched "function") (by decide : _ ∉ touched "function")
  · exact kept (by decide) (by decide)
  · exact kept (by decide : _ ∉ touched "predictions") (by decide : _ ∉ touched "predictions")
  · exact kept (by decide) (by decide)
  · exact kept (by decide) (by decide)
  · exact kept (by decide) (by decide)
  · exact kept (by decide) (by decide)

/-- The passes behind that of many to many leave what is joined. -/
theorem joins_of_builtin (he : e ∈ (builtin args).drop 9)
    (h : e.pass.apply.on s = (.ok (), t)) :
    t.memory.joinModels = s.memory.joinModels ∧ (s.JoinsEnds d → t.JoinsEnds d) := by
  have hmem := List.mem_of_mem_drop he
  have untouched : ∀ part ∈ [Part.models, .indexes, .relations, .joins],
      part ∉ touched e.pass.name := by
    simp only [builtin, List.drop_succ_cons, List.drop_zero, List.mem_cons, List.not_mem_nil,
      or_false] at he
    rcases he with rfl | rfl | rfl | rfl | rfl
    · decide
    · decide
    · exact (by decide : ∀ part ∈ [Part.models, .indexes, .relations, .joins],
        part ∉ touched "auth")
    · decide
    · decide
  have same : ∀ part ∈ [Part.models, .indexes, .relations, .joins], part.Same s t :=
    fun part hp => (builtin_spares hmem (untouched part hp)).of_ok h
  have hmodels : t.memory.models = s.memory.models := same .models (by decide)
  have hindexes : t.memory.indexes = s.memory.indexes := same .indexes (by decide)
  have hrelations : t.memory.relations = s.memory.relations := same .relations (by decide)
  have hjoins : t.memory.joinModels = s.memory.joinModels := same .joins (by decide)
  have edits : EditsAt Context.AnyName _ e.pass.apply s := builtin_edits hmem fun _ _ => trivial
  refine ⟨hjoins, fun hs => hs.mono hjoins hmodels ⟨?_, ?_, ?_, (edits.of_ok h).grownTo⟩⟩
  · rw [hmodels]
    exact fun _ => id
  · rw [hindexes]
    exact fun _ => id
  · rw [hrelations]
    exact fun _ => id

/-- **Passes tell the same of join models**: where a fresh run of the passes that every chain starts
with ends well, the join models that rules are inherited by are those that were made for another
pass. Each connects the two ends that the schema has of a relation, and no end is left out. -/
theorem joins_of_completes {c : Context} (h : Completes args c s) :
    s.JoinsEnds c.schema ∧ ∀ p ∈ c.schema.fieldsWith "manyToMany",
      ∃ join, p.2.join? = some join ∧ s.memory.joinModels.contains join = true := by
  have hsplit : builtin args = (builtin args).take 8
      ++ { pass := .manyToMany, role := some .manyToMany } :: (builtin args).drop 9 := rfl
  rw [Completes, hsplit, Action.forEach_append_ok] at h
  obtain ⟨u, hu, h⟩ := h
  obtain ⟨v, hv, h⟩ := Action.forEach_cons_ok.1 h
  have unjoined : u.Unjoined := Action.forEach_invariant (fun e he _ _ ht =>
    unjoined_of_builtin he (on_pass_of_apply ht)) hu (.of_context c)
  have edits : EditsAt Context.AnyName _ (Action.forEach Entry.apply ((builtin args).take 8))
      { context := c } :=
    entries_edits (fun e he t => builtin_edits (List.mem_of_mem_take he) fun _ _ => trivial) _
  have settled : c.schema.Settles u.context.schema := (edits.of_ok hu).settles
  have joined := ManyToManyPass.joinsEnds_of_apply settled
    (.of_none unjoined.1 unjoined.2) (on_pass_of_apply hv)
  refine Action.forEach_invariant (I := fun t : PassState => t.JoinsEnds c.schema
    ∧ ∀ p ∈ c.schema.fieldsWith "manyToMany", ∃ join, p.2.join? = some join
      ∧ t.memory.joinModels.contains join = true) (fun e he t t' ht hs => ?_) h joined
  obtain ⟨hjoins, hkept⟩ := joins_of_builtin (d := c.schema) he (on_pass_of_apply ht)
  rw [hjoins]
  exact ⟨hkept hs.1, hs.2⟩

/-- Posts and tags are joined by a model that every pass knows. -/
theorem joins_taggedPosts : Completes {} taggedPosts (lastState {} taggedPosts)
    ∧ (lastState {} taggedPosts).JoinsEnds taggedPosts.schema
    ∧ ∀ p ∈ taggedPosts.schema.fieldsWith "manyToMany", ∃ join, p.2.join? = some join
      ∧ (lastState {} taggedPosts).memory.joinModels.contains join = true :=
  ⟨completes_taggedPosts, joins_of_completes completes_taggedPosts⟩

end Chain

end ApiCompiler
