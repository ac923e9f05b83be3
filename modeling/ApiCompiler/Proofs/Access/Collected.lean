import ApiCompiler.Proofs.Access.Attached
import ApiCompiler.Proofs.Result

/-!
# Access — where rules come from

A model has the rules that its definitions list, a join model besides those of the models that it
connects, and a model without any may be opened to everyone. Rules are checked only once all of them
are there, and none is kept twice.

* `TypeDefinition.ListsRule`: the rules that a definition lists.
* `Memory.Gains`: which rules models get, on top of those that they have.
* `gains_of_collectRules`, `gains_inheritRules`, `gains_of_settle`: the rules that each stage of the
  pass of `@auth` adds.
-/

namespace ApiCompiler

/-! ### Lists without repetition -/

theorem mem_foldl_appendNew {α : Type} [DecidableEq α] {items added : List α} {a : α} :
    a ∈ added.foldl appendNew items ↔ a ∈ items ∨ a ∈ added := by
  induction added generalizing items with
  | nil => simp
  | cons b added ih => rw [List.foldl_cons, ih, mem_appendNew, List.mem_cons, or_assoc]

theorem nodup_foldl_appendNew {α : Type} [DecidableEq α] {items : List α} (h : items.Nodup)
    (added : List α) : (added.foldl appendNew items).Nodup :=
  List.foldlRecOn (motive := List.Nodup) added appendNew h fun _ hn a _ => nodup_appendNew hn a

/-! ### Rules that are kept -/

namespace Memory

theorem rulesFor_extendRules (m : Memory) (model other : String) (rules : List AuthRule) :
    (m.extendRules model rules).rulesFor other =
      if other = model then rules.foldl appendNew (m.rulesFor model) else m.rulesFor other := by
  rw [rulesFor, extendRules, Dict.find?_insert]
  split <;> rfl

/-- No model has a rule twice. -/
def DistinctRules (m : Memory) : Prop := ∀ model, (m.rulesFor model).Nodup

/-- Models keep their rules and gain some, but none that they have, and nothing else changes. -/
structure Gains (gained : String → AuthRule → Prop) (m m' : Memory) : Prop where
  mem : ∀ model r, r ∈ m'.rulesFor model ↔ r ∈ m.rulesFor model ∨ gained model r
  distinct : m.DistinctRules → m'.DistinctRules
  joinModels : m'.joinModels = m.joinModels

variable {gained gained' : String → AuthRule → Prop} {m m' m'' : Memory}

theorem Gains.refl (m : Memory) : Gains (fun _ _ => False) m m :=
  ⟨fun _ _ => by rw [or_false], id, rfl⟩

theorem Gains.trans (h : Gains gained m m') (h' : Gains gained' m' m'') :
    Gains (fun model r => gained model r ∨ gained' model r) m m'' where
  mem model r := by rw [h'.mem, h.mem, or_assoc]
  distinct hm := h'.distinct (h.distinct hm)
  joinModels := h'.joinModels.trans h.joinModels

theorem Gains.congr (h : Gains gained m m') (hg : ∀ model r, gained model r ↔ gained' model r) :
    Gains gained' m m' where
  mem model r := by rw [h.mem, hg]
  distinct := h.distinct
  joinModels := h.joinModels

theorem gains_extendRules (m : Memory) (model : String) (rules : List AuthRule) :
    Gains (fun other r => other = model ∧ r ∈ rules) m (m.extendRules model rules) where
  mem other r := by
    rw [rulesFor_extendRules]
    by_cases h : other = model
    · subst h
      rw [if_pos rfl, mem_foldl_appendNew, and_iff_right rfl]
    · rw [if_neg h, or_iff_left fun hr => h hr.1]
  distinct h other := by
    rw [rulesFor_extendRules]
    split
    · exact nodup_foldl_appendNew (h model) rules
    · exact h other
  joinModels := rfl

end Memory

/-! ### Rules that are listed -/

/-- A rule that admits groups names some. -/
def AuthRule.NamesGroups (r : AuthRule) : Prop := r.allow = .groups → r.groups ≠ []

theorem AuthRule.lacksGroups_eq_false_iff {r : AuthRule} :
    r.lacksGroups = false ↔ r.NamesGroups := by
  simp [lacksGroups, NamesGroups]

namespace TypeDefinition

/-- The rules that the first `@auth` of a definition lists, where it lists rules. -/
def listedRules? (t : TypeDefinition) : Option (List AuthRule) :=
  ((t.directive? "auth").bind (·.argument? "rules")).bind fun v =>
    (Json.Decoder.list AuthRule.decode .value v.toJson).toOption

/-- The first `@auth` of a definition lists the rule. -/
def ListsRule (t : TypeDefinition) (r : AuthRule) : Prop :=
  ∃ rules, t.listedRules? = some rules ∧ r ∈ rules

/-- The first `@auth` of a definition lists rules, each group rule with its groups. -/
def WellListed (t : TypeDefinition) : Prop :=
  ∃ rules, t.listedRules? = some rules ∧ ∀ r ∈ rules, r.NamesGroups

theorem WellListed.groups {t : TypeDefinition} (h : t.WellListed) {r : AuthRule}
    (hr : t.ListsRule r) : r.NamesGroups := by
  obtain ⟨rules, hlisted, hgroups⟩ := h
  obtain ⟨rules', hlisted', hr⟩ := hr
  rw [hlisted] at hlisted'
  cases hlisted'
  exact hgroups r hr

/-- What a definition lists depends on its first `@auth`. -/
theorem listedRules?_congr {t t' : TypeDefinition}
    (h : t'.directive? "auth" = t.directive? "auth") : t'.listedRules? = t.listedRules? := by
  rw [listedRules?, listedRules?, h]

end TypeDefinition

namespace Document

variable {d d' : Document}

/-- The first `@auth` of a definition of a type, its base or one that extends it, lists the rule. -/
def ListsRule (d : Document) (type : String) (r : AuthRule) : Prop :=
  ∃ t ∈ d.typesWith "auth", type = t.name ∧ t.ListsRule r

theorem ListsRule.mono {type : String} {r : AuthRule} (h : d.ListsRule type r)
    (hd : d.GrownTo d') : d'.ListsRule type r := by
  obtain ⟨t, ht, rfl, hr⟩ := h
  obtain ⟨t', ht', hname, hauth⟩ := exists_mem_typesWith ht hd
  refine ⟨t', ht', hname.symm, ?_⟩
  rwa [TypeDefinition.ListsRule, TypeDefinition.listedRules?_congr hauth]

/-- Definitions that list rules in a schema that has grown listed them before. -/
theorem wellListed_of_grownTo (h : ∀ t ∈ d'.typesWith "auth", t.WellListed) (hd : d.GrownTo d')
    {t : TypeDefinition} (ht : t ∈ d.typesWith "auth") : t.WellListed := by
  obtain ⟨t', ht', -, hauth⟩ := exists_mem_typesWith ht hd
  have hlisted := h t' ht'
  rwa [TypeDefinition.WellListed, TypeDefinition.listedRules?_congr hauth] at hlisted

end Document

namespace AuthPass

open PassAction

/-- The rules of a definition that is not refused are those that it lists, each group rule with its
groups. -/
theorem rulesOf_eq_ok {c : Context} {t : TypeDefinition} {rules : List AuthRule}
    (h : rulesOf c t = .ok rules) :
    t.listedRules? = some rules ∧ ∀ r ∈ rules, r.NamesGroups := by
  unfold rulesOf at h
  split at h
  · cases h
  · split at h
    · cases h
    · next v hv =>
      split at h
      · cases h
      · next listed hlisted =>
        split at h
        · cases h
        · next hgroups =>
          cases h
          refine ⟨by rw [TypeDefinition.listedRules?, hv, Option.bind_some, hlisted]; rfl, ?_⟩
          rw [Bool.not_eq_true, List.any_eq_false] at hgroups
          exact fun r hr =>
            AuthRule.lacksGroups_eq_false_iff.1 (Bool.eq_false_iff.2 (hgroups r hr))

theorem on_collectFrom {t : TypeDefinition} {s u : PassState}
    (h : (collectFrom t).on s = (.ok (), u)) :
    t.WellListed ∧ u.context = s.context
      ∧ Memory.Gains (fun model r => model = t.name ∧ t.ListsRule r) s.memory u.memory := by
  rw [collectFrom, on_examine_bind] at h
  split at h
  · next rules hrules =>
    obtain ⟨hlisted, hgroups⟩ := rulesOf_eq_ok hrules
    cases h
    refine ⟨⟨rules, hlisted, hgroups⟩, rfl, (Memory.gains_extendRules _ _ rules).congr ?_⟩
    intro model r
    refine and_congr_right fun _ => ⟨fun hr => ⟨rules, hlisted, hr⟩, ?_⟩
    rintro ⟨rules', hlisted', hr⟩
    rw [hlisted] at hlisted'
    cases hlisted'
    exact hr
  · cases (Prod.mk.inj h).1

theorem on_forEach_collectFrom {ts : List TypeDefinition} {s u : PassState}
    (h : (Action.forEach collectFrom ts).on s = (.ok (), u)) :
    (∀ t ∈ ts, t.WellListed) ∧ u.context = s.context
      ∧ Memory.Gains (fun model r => ∃ t ∈ ts, model = t.name ∧ t.ListsRule r)
          s.memory u.memory := by
  induction ts generalizing s with
  | nil =>
    cases h
    exact ⟨nofun, rfl, (Memory.Gains.refl _).congr fun _ _ => by simp⟩
  | cons t ts ih =>
    obtain ⟨v, hv, h⟩ := Action.forEach_cons_ok.1 h
    obtain ⟨hlisted, hcontext, hgains⟩ := on_collectFrom hv
    obtain ⟨hlisted', hcontext', hgains'⟩ := ih h
    refine ⟨List.forall_mem_cons.2 ⟨hlisted, hlisted'⟩, hcontext'.trans hcontext,
      (hgains.trans hgains').congr fun model r => ?_⟩
    rw [List.exists_mem_cons_iff]

/-- Every definition with `@auth` lists rules, which its type gains. -/
theorem gains_of_collectRules {s u : PassState} (h : collectRules.on s = (.ok (), u)) :
    (∀ t ∈ s.context.schema.typesWith "auth", t.WellListed) ∧ u.context = s.context
      ∧ Memory.Gains s.context.schema.ListsRule s.memory u.memory := by
  rw [collectRules, on_context_bind] at h
  exact on_forEach_collectFrom h

/-- A join model gains the rules of what it connects. -/
theorem gains_inheritRules (m : Memory) :
    Memory.Gains (fun join r => ∃ sources, m.joinModels.find? join = some sources
      ∧ ∃ source ∈ sources, r ∈ m.rulesFor source) m (inheritRules m) := by
  have hfold : ∀ (joins : List (String × List String)) (n : Memory),
      Memory.Gains (fun join r => ∃ p ∈ joins, join = p.1 ∧ ∃ source ∈ p.2, r ∈ m.rulesFor source)
        n (joins.foldl (fun n p => n.extendRules p.1 (p.2.flatMap m.rulesFor)) n) := by
    intro joins
    induction joins with
    | nil => exact fun n => (Memory.Gains.refl n).congr fun _ _ => by simp
    | cons p joins ih =>
      intro n
      refine ((Memory.gains_extendRules n p.1 _).trans (ih _)).congr fun join r => ?_
      rw [List.exists_mem_cons_iff, List.mem_flatMap]
  refine (hfold m.joinModels.toList m).congr fun join r => ?_
  constructor
  · rintro ⟨⟨_, sources⟩, hp, rfl, hr⟩
    exact ⟨sources, Dict.mem_toList_iff.1 hp, hr⟩
  · rintro ⟨sources, hfind, hr⟩
    exact ⟨(join, sources), Dict.mem_toList_iff.2 hfind, rfl, hr⟩

/-! ### Models without rules -/

/-- The rule that opens a model to everyone. -/
def openRule : AuthRule := { allow := .everyone }

/-- What is said of a model without rules. -/
def warning (model : String) : LogEntry :=
  ⟨.warn, "Model '" ++ model
    ++ "' has no @auth rules; access falls back to the default authorization mode"⟩

/-- The models without rules. -/
def unruled (m : Memory) (models : List String) : List String :=
  models.filter fun model => (m.rulesFor model).isEmpty

/-- The context with a warning of each of some models. -/
def warnOf (c : Context) (models : List String) : Context :=
  { c with logs := c.logs ++ models.map warning }

theorem on_settleModel (model : String) (s : PassState) :
    (settleModel model).on s = (.ok (),
      if (s.memory.rulesFor model).isEmpty then
        if isSandbox s.context then
          { s with memory := s.memory.extendRules model [openRule] }
        else { s with context := warnOf s.context [model] }
      else s) := by
  rw [settleModel, on_memory_bind]
  cases (s.memory.rulesFor model).isEmpty with
  | false => rfl
  | true =>
    rw [Bool.not_true, if_neg Bool.false_ne_true, if_pos rfl, on_context_bind]
    split
    · rfl
    · rw [on_log]
      rfl

/-- Where models may be opened, those without rules are, and nothing is said of them. -/
theorem gains_of_settle {models : List String} {s t : PassState}
    (hs : isSandbox s.context = true)
    (h : (Action.forEach settleModel models).on s = (.ok (), t)) :
    t.context = s.context
      ∧ Memory.Gains
          (fun model r => model ∈ models ∧ s.memory.rulesFor model = [] ∧ r = openRule)
          s.memory t.memory := by
  induction models generalizing s with
  | nil =>
    cases h
    exact ⟨rfl, (Memory.Gains.refl _).congr fun _ _ => by simp⟩
  | cons model models ih =>
    rw [Action.on_forEach_cons, on_settleModel, if_pos hs] at h
    dsimp only at h
    split at h
    · next hempty =>
      rw [List.isEmpty_iff] at hempty
      obtain ⟨hcontext, hgains⟩ := ih (s := { s with
        memory := s.memory.extendRules model [openRule] }) hs h
      refine ⟨hcontext, ((Memory.gains_extendRules _ _ _).trans hgains).congr fun other r => ?_⟩
      rw [List.mem_singleton, Memory.rulesFor_extendRules, List.mem_cons]
      by_cases hm : other = model
      · -- a model that was opened has a rule from there on
        subst hm
        simp [hempty, appendNew]
      · simp [hm]
    · next hrules =>
      rw [List.isEmpty_iff] at hrules
      obtain ⟨hcontext, hgains⟩ := ih hs h
      refine ⟨hcontext, hgains.congr fun other r => ?_⟩
      rw [List.mem_cons]
      by_cases hm : other = model
      · subst hm
        simp [hrules]
      · simp [hm]

/-- Where models may not be opened, those without rules are warned of, and nothing else changes. -/
theorem warned_of_settle {models : List String} {s t : PassState}
    (hs : isSandbox s.context = false)
    (h : (Action.forEach settleModel models).on s = (.ok (), t)) :
    t = { s with context := warnOf s.context (unruled s.memory models) } := by
  induction models generalizing s with
  | nil =>
    cases h
    rw [unruled, List.filter_nil, warnOf, List.map_nil, List.append_nil]
  | cons model models ih =>
    rw [Action.on_forEach_cons, on_settleModel, hs, if_neg Bool.false_ne_true] at h
    dsimp only at h
    rw [unruled, List.filter_cons]
    split at h
    · next hempty =>
      rw [if_pos hempty]
      have hrest := ih (s := { s with context := warnOf s.context [model] }) hs h
      rw [hrest, warnOf, warnOf, List.append_assoc]
      rfl
    · next hrules =>
      rw [if_neg hrules]
      exact ih hs h

/-! ### Rules that are checked -/

/-- Where the rules of every model pass, each of them needs what the API is configured for. -/
theorem supports_of_checkRules {config : AuthConfiguration} {m : Memory}
    (h : checkRules config m = .ok ()) {model : String} {r : AuthRule}
    (hr : r ∈ m.rulesFor model) :
    ∃ type, r.authenticationType = .ok type ∧ config.supports type = true := by
  rw [Memory.rulesFor] at hr
  cases hfind : m.rules.find? model with
  | none =>
    rw [hfind] at hr
    cases hr
  | some rules =>
    rw [hfind] at hr
    have hmodel := Except.forM_eq_ok_iff.1 h (model, rules) (Dict.mem_toList_iff.2 hfind)
    have hrule := Except.forM_eq_ok_iff.1 hmodel r hr
    obtain ⟨type, htype, hsupports⟩ := Except.bind_eq_ok hrule
    split at hsupports
    · next hyes => exact ⟨type, htype, hyes⟩
    · cases hsupports

/-! ### Rules that are attached -/

/-- What the rules of models leave alone: everything but the rules of their resolvers. -/
theorem get?_foldl_attachRules {c : Context} (h : c.IsSound) (m : Memory) (models : List String)
    (id : String) :
    (models.foldl (attachRules m) c).resources.get? id = c.resources.get? id
      ∨ ∃ model ∈ models, ∃ r, c.resources.get? id = some r ∧ isResolverOf model r = true
        ∧ (models.foldl (attachRules m) c).resources.get? id
          = some (r.set "authRules" (encodeRules (m.rulesFor model))) := by
  induction models generalizing c with
  | nil => exact .inl rfl
  | cons a models ih =>
    have attached : Context.Edits Context.AnyName Context.AnyTime c (attachRules m c a) :=
      attachRules_edits m c a
    have hfirst := get?_attachRules h.all m a id
    rw [List.foldl_cons]
    cases hr : c.resources.get? id with
    | none =>
      rw [hr, Option.map_none] at hfirst
      obtain hrest | ⟨_, -, r, hr', -⟩ := ih (attached.isSound h)
      · exact .inl (hrest.trans hfirst)
      · rw [hfirst] at hr'
        cases hr'
    | some r =>
      rw [hr, Option.map_some] at hfirst
      by_cases ha : isResolverOf a r = true
      · rw [if_pos ha] at hfirst
        refine .inr ⟨a, List.mem_cons_self, r, rfl, ha, ?_⟩
        obtain hrest | ⟨b, -, r', hr', hb, hrest⟩ := ih (attached.isSound h)
        · exact hrest.trans hfirst
        · -- a resolver is that of one model, which sets the same rules again
          rw [hfirst] at hr'
          cases hr'
          rw [isResolverOf_set_authRules] at hb
          obtain rfl := eq_of_isResolverOf ha hb
          rw [hrest, Resource.set_set]
      · rw [if_neg ha] at hfirst
        obtain hrest | ⟨b, hb, r', hr', hb', hrest⟩ := ih (attached.isSound h)
        · exact .inl (hrest.trans hfirst)
        · rw [hfirst] at hr'
          cases hr'
          exact .inr ⟨b, List.mem_cons_of_mem a hb, r, rfl, hb', hrest⟩

theorem get?_addOptional {c : Context} {r : Option Resource} {id : String}
    (h : ∀ q, r = some q → q.id ≠ id) :
    (addOptional c r).resources.get? id = c.resources.get? id := by
  cases r with
  | none => rfl
  | some q => exact (ResourceGraph.get?_add _ q id).trans (if_neg (Ne.symm (h q rfl)))

end AuthPass

end ApiCompiler
