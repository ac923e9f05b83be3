import ApiCompiler.Proofs.Access.Collected
import ApiCompiler.Proofs.Chain.Order
import ApiCompiler.Proofs.Chain.Started
import ApiCompiler.Proofs.Pass.Footprint

/-!
# Chains — the rules that a run attaches

In a fresh run nothing touches the rules of models before the pass of `@auth`, so the rules that it
leaves are those that the schema lists, those that join models inherit, and those that open models.

* `AuthPass.stages_of_apply`: the rules that the pass leaves, and where each of them is from.
* `PassState.Authorizes`: what the pass has done for the models of a schema.
* `Chain.authorizes_of_started`: it has done so in every fresh run in which it ends well.
-/

namespace ApiCompiler

open PassAction

/-- Models without rules are opened: in a sandbox whose callers use a key by default. -/
def Context.OpensModels (c : Context) : Prop :=
  c.parameters.sandboxModeEnabled = true ∧ c.authConfig.default.authenticationType = .apiKey

instance (c : Context) : Decidable c.OpensModels := inferInstanceAs (Decidable (_ ∧ _))

/-! ### The pass -/

namespace AuthPass

variable {args : FactoryArgs} {s t : PassState}

theorem isSandbox_iff {c : Context} : isSandbox c = true ↔ c.OpensModels := by
  rw [isSandbox, Bool.and_eq_true, beq_iff_eq, Context.OpensModels]

/-- A model may be opened to everyone if it has no rules. -/
def Opens (c : Context) (m : Memory) (model : String) (r : AuthRule) : Prop :=
  isSandbox c = true ∧ model ∈ c.schema.namesWith "model" ∧ m.rulesFor model = [] ∧ r = openRule

/-- A join model has a rule of what it connects. -/
def Inherits (m : Memory) (join : String) (r : AuthRule) : Prop :=
  ∃ sources, m.joinModels.find? join = some sources ∧ ∃ source ∈ sources, r ∈ m.rulesFor source

/-- **The rules that the pass leaves**: those that models had, those that the schema lists, those
that join models inherit of both, and the rule of models that are opened. All of them need what the
API is configured for. Models that are not opened are warned of. -/
theorem stages_of_apply (h : (apply args).on s = (.ok (), t)) :
    ∃ m₁ m₂ : Memory,
      (∀ d ∈ s.context.schema.typesWith "auth", d.WellListed)
      ∧ Memory.Gains s.context.schema.ListsRule s.memory m₁
      ∧ Memory.Gains (Inherits m₁) m₁ m₂
      ∧ Memory.Gains (Opens s.context m₂) m₂ t.memory
      ∧ (∀ model, ∀ r ∈ t.memory.rulesFor model,
          ∃ type, r.authenticationType = .ok type ∧ s.context.authConfig.supports type = true)
      ∧ t.context = attachAll args t.memory (s.context.schema.namesWith "model")
          (if isSandbox s.context then s.context
            else warnOf s.context (unruled t.memory (s.context.schema.namesWith "model"))) := by
  obtain ⟨u, v, hu, hv, hcheck, rfl⟩ := exists_of_apply h
  obtain ⟨hlisted, hcontext, hcollected⟩ := gains_of_collectRules hu
  rw [hcontext] at hv ⊢
  refine ⟨u.memory, inheritRules u.memory, hlisted, hcollected, gains_inheritRules _, ?_⟩
  dsimp only
  by_cases hsandbox : isSandbox s.context = true
  · obtain ⟨hsame, hopened⟩ := gains_of_settle
      (s := { u with context := s.context, memory := inheritRules u.memory }) hsandbox hv
    rw [hsame] at hcheck ⊢
    refine ⟨hopened.congr fun model r => (and_iff_right hsandbox).symm, fun model r hr =>
      supports_of_checkRules hcheck hr, ?_⟩
    rw [if_pos hsandbox]
  · rw [Bool.not_eq_true] at hsandbox
    obtain rfl := warned_of_settle
      (s := { u with context := s.context, memory := inheritRules u.memory }) hsandbox hv
    refine ⟨(Memory.Gains.refl _).congr fun model r => ?_, fun model r hr =>
      supports_of_checkRules hcheck hr, ?_⟩
    · rw [Opens, hsandbox, false_iff]
      exact fun hopens => Bool.false_ne_true hopens.1
    · rw [hsandbox, if_neg Bool.false_ne_true]

theorem id_policy? {r : Resource} (h : policy? args = some r) : r.id = adminPolicy := by
  obtain ⟨f, hf, rfl⟩ := exists_of_policy? h
  exact hf.id _

theorem id_apiKey? {c : Context} {r : Resource} (h : apiKey? c = some r) :
    r.id = defaultApiKey := by
  obtain ⟨f, hf, rfl⟩ := exists_of_apiKey? h
  exact hf.id _

/-- Resources other than the policy and the key are as the attached rules leave them. -/
theorem get?_attachAll {m : Memory} {models : List String} {c : Context} {id : String}
    (hpolicy : id ≠ adminPolicy) (hkey : id ≠ defaultApiKey) :
    (attachAll args m models c).resources.get? id
      = (models.foldl (attachRules m) c).resources.get? id :=
  (get?_addOptional fun _ hr => id_apiKey? hr ▸ hkey.symm).trans
    (get?_addOptional fun _ hr => id_policy? hr ▸ hpolicy.symm)

end AuthPass

/-! ### Fresh runs -/

/-- What the pass of `@auth` has done for the models of a run on `c` when it was started on `s` and
leaves `t`. -/
structure PassState.Authorizes (c : Context) (s t : PassState) : Prop where
  /-- The resolvers of every model have its rules. -/
  attached : ∀ model ∈ t.context.schema.namesWith "model",
    t.context.resources.Guards model (t.memory.rulesFor model)
  /-- Every rule needs what the API is configured for. -/
  supported : ∀ model, ∀ r ∈ t.memory.rulesFor model,
    ∃ mode ∈ c.authConfig.default :: c.authConfig.additional,
      r.authenticationType = .ok mode.authenticationType
  /-- Every definition with `@auth` lists rules, each group rule with its groups. -/
  listed : ∀ d ∈ c.schema.typesWith "auth", d.WellListed
  /-- Every group rule has its groups. -/
  grouped : ∀ model, ∀ r ∈ t.memory.rulesFor model, r.NamesGroups
  /-- No model has a rule twice. -/
  distinct : t.memory.DistinctRules
  /-- Every model has the rules that its definitions list. -/
  declared : ∀ model r, c.schema.ListsRule model r → r ∈ t.memory.rulesFor model
  /-- Every join model has the rules that the definitions of what it connects list. -/
  inherited : ∀ join sources, t.memory.joinModels.find? join = some sources →
    ∀ source ∈ sources, ∀ r, c.schema.ListsRule source r → r ∈ t.memory.rulesFor join
  /-- Where models may be opened, none is without rules. -/
  opened : c.OpensModels → ∀ model ∈ t.context.schema.namesWith "model",
    t.memory.rulesFor model ≠ []
  /-- Where they may not, the models without rules are warned of, and nothing else is. -/
  warned : t.context.logs = s.context.logs
    ++ (if c.OpensModels then []
        else (AuthPass.unruled t.memory (t.context.schema.namesWith "model")).map AuthPass.warning)
    ++ [⟨.info, AuthPass.countRules t.memory⟩]
  /-- Besides the policy and the key, nothing changes but the rules of the resolvers of models. -/
  untouched : ∀ id, id ≠ "AdminRolePolicy" → id ≠ "GraphQLAPIDefaultApiKey" →
    t.context.resources.get? id = s.context.resources.get? id
      ∨ ∃ model ∈ t.context.schema.namesWith "model", ∃ r, s.context.resources.get? id = some r
        ∧ r.kind = .resolver ∧ r.get? "dataSource" = some (.str (model ++ "DataSource"))
        ∧ t.context.resources.get? id
          = some (r.set "authRules" (encodeRules (t.memory.rulesFor model)))

namespace AuthPass

variable {args : FactoryArgs} {s t : PassState}

/-- The pass authorizes the models of a schema that has grown, where no model has rules before. -/
theorem authorizes_of_apply {c : Context} (hs : s.context.IsSound)
    (hc : Context.Edits Context.AnyName Context.AnyTime c s.context)
    (hfresh : ∀ model, s.memory.rulesFor model = []) (h : (apply args).on s = (.ok (), t)) :
    s.Authorizes c t := by
  obtain ⟨m₁, m₂, hlisted, hcollected, hinherited, hopened, hsupported, hcontext⟩ :=
    stages_of_apply h
  obtain ⟨hschema, hguards⟩ := guards_apply hs h
  have hsandbox : isSandbox s.context = true ↔ c.OpensModels := by
    rw [isSandbox_iff, Context.OpensModels, hc.parameters, hc.authConfig, Context.OpensModels]
  have hlists : ∀ model r, s.context.schema.ListsRule model r → r ∈ m₁.rulesFor model :=
    fun model r hr => (hcollected.mem model r).2 (.inr hr)
  have hrules : ∀ model r, r ∈ t.memory.rulesFor model ↔ s.context.schema.ListsRule model r
      ∨ Inherits m₁ model r ∨ Opens s.context m₂ model r := fun model r => by
    rw [hopened.mem, hinherited.mem, hcollected.mem, hfresh, or_assoc, or_assoc]
    exact or_iff_right List.not_mem_nil
  have hgroups : ∀ model r, s.context.schema.ListsRule model r → r.NamesGroups := by
    rintro model r ⟨d, hd, -, hr⟩
    exact (hlisted d hd).groups hr
  have hopens : isSandbox s.context = true → ∀ model ∈ s.context.schema.namesWith "model",
      t.memory.rulesFor model ≠ [] := fun hyes model hm hnone => by
    have hno : ∀ r, r ∉ t.memory.rulesFor model := fun r => hnone ▸ List.not_mem_nil
    have hnone₂ : m₂.rulesFor model = [] := List.eq_nil_iff_forall_not_mem.2 fun r hr =>
      hno r ((hopened.mem model r).2 (.inl hr))
    exact hno openRule ((hopened.mem model openRule).2 (.inr ⟨hyes, hm, hnone₂, rfl⟩))
  constructor
  · intro model hm
    exact hguards model (hschema ▸ hm)
  · intro model r hr
    obtain ⟨type, htype, hsupports⟩ := hsupported model r hr
    obtain ⟨mode, hmode, he⟩ := List.any_eq_true.1 hsupports
    rw [hc.authConfig] at hmode
    exact ⟨mode, hmode, (beq_iff_eq.1 he).symm ▸ htype⟩
  · exact fun d hd => Document.wellListed_of_grownTo hlisted hc.grownTo hd
  · intro model r hr
    rcases (hrules model r).1 hr with hr | ⟨sources, -, source, -, hr⟩ | ⟨-, -, -, rfl⟩
    · exact hgroups model r hr
    · rw [hcollected.mem, hfresh, or_iff_right List.not_mem_nil] at hr
      exact hgroups source r hr
    · exact nofun
  · refine hopened.distinct (hinherited.distinct (hcollected.distinct fun model => ?_))
    rw [hfresh]
    exact .nil
  · exact fun model r hr => (hrules model r).2 (.inl (hr.mono hc.grownTo))
  · intro join sources hfind source hsource r hr
    rw [hopened.joinModels, hinherited.joinModels] at hfind
    exact (hrules join r).2 (.inr (.inl
      ⟨sources, hfind, source, hsource, hlists source r (hr.mono hc.grownTo)⟩))
  · rw [hschema]
    exact fun hyes => hopens (hsandbox.2 hyes)
  · obtain ⟨_, hattached⟩ := attachAll_eq args t.memory (s.context.schema.namesWith "model")
      (if isSandbox s.context then s.context
        else warnOf s.context (unruled t.memory (s.context.schema.namesWith "model")))
    rw [hschema, hcontext, hattached]
    simp only [hsandbox]
    split
    · rw [List.append_nil]
    · rfl
  · intro id hpolicy hkey
    rw [hschema, hcontext, get?_attachAll hpolicy hkey]
    have hsame : (if isSandbox s.context = true then s.context else warnOf s.context
        (unruled t.memory (s.context.schema.namesWith "model"))).resources
          = s.context.resources := by
      split <;> rfl
    have hattached := get?_foldl_attachRules ⟨hsame ▸ hs.all, hsame ▸ hs.paired⟩ t.memory
      (s.context.schema.namesWith "model") id
    rw [hsame] at hattached
    refine hattached.imp_right ?_
    rintro ⟨model, hm, r, hr, hmine, hset⟩
    obtain ⟨hk, hbound⟩ := isResolverOf_iff.1 hmine
    exact ⟨model, hm, r, hr, hk, hbound, hset⟩

end AuthPass

namespace Chain

variable {args : FactoryArgs} {s t : PassState}

/-- What no pass of a list touches is the same behind them. -/
theorem same_of_entries {part : Part} {es : Chain}
    (hes : ∀ e ∈ es, e ∈ builtin args ∧ part ∉ touched e.pass.name)
    (h : (Action.forEach Entry.apply es).on s = (.ok (), t)) : part.Same s t :=
  Action.forEach_invariant (fun e he _ _ hu hs =>
    hs.trans ((builtin_spares (hes e he).1 (hes e he).2).of_ok (on_pass_of_apply hu))) h
    (.refl part s)

/-- A pass that every chain starts with is started behind those that are in front of it. -/
theorem on_take_of_named {x : Start} {i : Nat} {e : Entry} (hx : x ∈ started (builtin args) s)
    (he : (builtin args)[i]? = some e) (hname : x.entry.pass.name = e.pass.name) :
    x.entry = e
      ∧ (Action.forEach Entry.apply ((builtin args).take i)).on s = (.ok (), x.before) := by
  obtain ⟨j, hj⟩ := List.mem_iff_getElem?.1 hx
  obtain ⟨hentry, hrun⟩ := on_take_of_started hj
  have hat : (builtin args).passNames[j]? = some e.pass.name := by
    rw [passNames, List.getElem?_map, hentry, Option.map_some, hname]
  have hnamed : (builtin args).passNames[i]? = some e.pass.name := by
    rw [passNames, List.getElem?_map, he, Option.map_some]
  -- names come once, so there is one place for the name
  obtain rfl : j = i := (List.getElem?_inj (List.getElem?_eq_some_iff.1 hat).1
    (isRunnable_builtin args).names).1 (hat.trans hnamed.symm)
  exact ⟨Option.some.inj (hentry.symm.trans he), hrun⟩

/-- **The rules that `@auth` attaches are complete, supported and without repetition.** In every
fresh run of the passes that every chain starts with in which the pass of `@auth` ends well, it
authorizes the models of the schema. -/
theorem authorizes_of_started {c : Context} {x : Start} (hc : c.resources = {})
    (hx : x ∈ started (builtin args) { context := c }) (hname : x.entry.pass.name = "auth")
    (hok : x.result = .ok ()) : x.before.Authorizes c x.after := by
  obtain ⟨hentry, hrun⟩ := on_take_of_named (i := 11) hx rfl hname
  have hedits : Context.Edits Context.AnyName Context.AnyTime c x.before.context :=
    ((entries_edits (fun _ he _ => builtin_edits (List.mem_of_mem_take he)
      fun _ _ => trivial) _).of_ok hrun).mono (fun _ => id) fun _ _ _ => trivial
  have hnames : ((builtin args).take 11).map (·.pass.name) = builtinNames.take 11 := List.map_take
  have hspared : ∀ name ∈ builtinNames.take 11, Part.rules ∉ touched name := by decide
  have hsame : Part.rules.Same { context := c } x.before :=
    same_of_entries (fun e he =>
      ⟨List.mem_of_mem_take he, hspared _ (hnames ▸ List.mem_map_of_mem he)⟩) hrun
  have hrules : x.before.memory.rules = ∅ := hsame
  have happly : (AuthPass.apply args).on x.before = (.ok (), x.after) := by
    have hboth : x.entry.pass.apply.on x.before = (x.result, x.after) := rfl
    rwa [hentry, hok] at hboth
  refine AuthPass.authorizes_of_apply (hedits.isSound (Context.isSound_of_empty hc)) hedits
    (fun model => ?_) happly
  rw [Memory.rulesFor, hrules]
  rfl

/-- A schema with a model that has rules and one that has none, which a join model connects. -/
def guardedPosts : Context where
  authConfig := { additional := [{ authenticationType := .userPools }] }
  schema := ⟨[{
    kind := .object, name := "Post",
    directives := [⟨"model", []⟩,
      ⟨"auth", [("rules", .list [.object [("allow", .enumeral "public")],
        .object [("allow", .enumeral "groups"), ("groups", .list [.string "Admin"])]])]⟩],
    fields := [{
      name := "tags", type := .list (.named "Tag"),
      directives := [⟨"manyToMany", [("relationName", .string "postTags")]⟩] }] }, {
    kind := .object, name := "Tag", directives := [⟨"model", []⟩],
    fields := [{
      name := "posts", type := .list (.named "Post"),
      directives := [⟨"manyToMany", [("relationName", .string "postTags")]⟩] }] }]⟩

/-- The pass of `@auth` is started for it. -/
theorem isSome_startedGuarded :
    ((started (builtin {}) { context := guardedPosts })[11]?).isSome = true := by decide +kernel

/-- The pass of `@auth` as it is started for it. -/
def guardedStart : Start :=
  ((started (builtin {}) { context := guardedPosts })[11]?).get isSome_startedGuarded

/-- The pass ends well: a resolver of the join model has the rules that it inherits, and only of the
model without rules is there a warning. -/
theorem authorizes_guardedPosts : guardedPosts.resources = {}
    ∧ guardedStart ∈ started (builtin {}) { context := guardedPosts }
    ∧ guardedStart.entry.pass.name = "auth"
    ∧ guardedStart.result = .ok ()
    ∧ guardedStart.before.Authorizes guardedPosts guardedStart.after
    ∧ (guardedStart.after.memory.rulesFor "PostTags").map (·.authenticationType)
      = [.ok .apiKey, .ok .userPools]
    ∧ (guardedStart.after.context.resources.get? "Query.getPostTagsResolver").bind
        (·.get? "authRules") = some (.arr [.obj [("allow", .str "public")],
          .obj [("allow", .str "groups"), ("groups", .arr [.str "Admin"])]])
    ∧ guardedStart.emitted =
      [⟨.warn, "Model 'Tag' has no @auth rules; "
          ++ "access falls back to the default authorization mode"⟩,
        ⟨.info, "@auth applied 4 rule(s) across 2 model(s)"⟩] := by
  have hx : (started (builtin {}) { context := guardedPosts })[11]? = some guardedStart :=
    (Option.some_get isSome_startedGuarded).symm
  have hmem := List.mem_of_getElem? hx
  have hname : guardedStart.entry.pass.name = "auth" := by
    have hentry := (on_take_of_started hx).1
    rw [← Option.some.inj hentry]
    rfl
  have hok : guardedStart.result = .ok () := by decide +kernel
  exact ⟨rfl, hmem, hname, hok, authorizes_of_started rfl hmem hname hok, by decide +kernel⟩

end Chain

end ApiCompiler
