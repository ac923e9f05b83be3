import ApiCompiler.Pass.Relation
import ApiCompiler.Proofs.Dict
import ApiCompiler.Proofs.Pass.Steps
import Mathlib.Data.List.Chain
import Mathlib.Data.List.Perm.Subperm

/-!
# Passes — cycles of required relations are found exactly

The search leaves a model behind only when all that it needs has been left behind before, so the
models that were left behind are on no cycle. It never runs out of depth: a path that comes back to
no model consists of different sources of relations.

* `Needs`, `IsCycle`: a model needs another one; a closed list of models, each of which needs the
  next.
* `Settled`: each of the models that were left behind needs only those that were left before it.
* `visit_ends`: a search finds a cycle, or leaves its model behind.
* `findRequiredCycle_exact`: a cycle is found where there is one, and refused.
-/

namespace ApiCompiler

namespace RelationCycle

variable {relations : List Relation}

/-- A model needs another one by a required relation. -/
def Needs (relations : List Relation) (a b : String) : Prop :=
  ∃ r ∈ relations, r.required = true ∧ r.source = a ∧ r.target = b

theorem mem_needs_iff {a b : String} : b ∈ needs relations a ↔ Needs relations a b := by
  rw [needs, List.mem_map]
  constructor
  · rintro ⟨r, hr, rfl⟩
    obtain ⟨hr, hp⟩ := List.mem_filter.1 hr
    rw [Bool.and_eq_true, beq_iff_eq] at hp
    exact ⟨r, hr, hp.1, hp.2, rfl⟩
  · rintro ⟨r, hr, hreq, rfl, rfl⟩
    exact ⟨r, List.mem_filter.2 ⟨hr, by rw [hreq, beq_self_eq_true, Bool.and_self]⟩, rfl⟩

/-- The search starts from every model that needs another one. -/
theorem mem_roots {a b : String} (h : Needs relations a b) : a ∈ roots relations := by
  obtain ⟨r, hr, hreq, rfl, rfl⟩ := h
  rw [roots, Dict.mem_keys_ofList, List.map_map]
  exact List.mem_map.2 ⟨r, List.mem_filter.2 ⟨hr, hreq⟩, rfl⟩

/-- A closed list of models, each of which needs the next, with no model twice but the one that
closes it. -/
structure IsCycle (relations : List Relation) (cycle : List String) : Prop where
  long : 2 ≤ cycle.length
  closed : cycle.head? = cycle.getLast?
  distinct : cycle.dropLast.Nodup
  chained : cycle.IsChain (Needs relations)

/-- The first model of a cycle needs itself by way of the others. -/
theorem IsCycle.transGen {cycle : List String} (h : IsCycle relations cycle) :
    ∃ m, Relation.TransGen (Needs relations) m m := by
  match cycle, h with
  | [], h => exact absurd h.long (by simp)
  | [_], h => exact absurd h.long (by simp)
  | a :: b :: rest, h =>
    obtain ⟨hab, hrest⟩ := List.isChain_cons_cons.1 h.chained
    have hlast : (b :: rest).getLast (List.cons_ne_nil _ _) = a := by
      have hclosed := h.closed
      rw [List.head?_cons, List.getLast?_cons_cons, List.getLast?_eq_some_getLast
        (List.cons_ne_nil _ _), Option.some.injEq] at hclosed
      exact hclosed.symm
    exact ⟨a, .head' hab (List.relationReflTransGen_of_exists_isChain_cons rest hrest hlast)⟩

/-! ### What is left behind -/

/-- Each model needs only models that come after it, which were left behind before. -/
def Settled (relations : List Relation) : List String → Prop
  | []        => True
  | m :: rest => (∀ n, Needs relations m n → n ∈ rest) ∧ Settled relations rest

/-- What the models that were left behind lead to was left behind too. -/
theorem Settled.closed {done : List String} (h : Settled relations done) {m n : String}
    (hm : m ∈ done) (hn : Needs relations m n) : n ∈ done := by
  induction done with
  | nil => cases hm
  | cons a rest ih =>
    rcases List.mem_cons.1 hm with rfl | hm
    · exact List.mem_cons_of_mem _ (h.1 n hn)
    · exact List.mem_cons_of_mem _ (ih h.2 hm)

theorem Settled.closed_reflTransGen {done : List String} (h : Settled relations done)
    {m n : String} (hm : m ∈ done) (hn : Relation.ReflTransGen (Needs relations) m n) :
    n ∈ done := by
  induction hn with
  | refl => exact hm
  | tail _ hstep ih => exact h.closed ih hstep

/-- No model that was left behind is on a cycle. -/
theorem Settled.acyclic {done : List String} (h : Settled relations done) {m : String}
    (hm : m ∈ done) : ¬ Relation.TransGen (Needs relations) m m := by
  induction done with
  | nil => cases hm
  | cons a rest ih =>
    -- a cycle through the first model would lead through the rest, where no cycle is
    by_cases hrest : m ∈ rest
    · exact ih h.2 hrest
    · obtain rfl := (List.mem_cons.1 hm).resolve_right hrest
      intro hcycle
      obtain ⟨n, hn, hback⟩ := Relation.TransGen.head'_iff.1 hcycle
      exact hrest (h.2.closed_reflTransGen (h.1 n hn) hback)

/-! ### The search -/

/-- A search ends with a cycle, or leaves some models behind besides those that were. -/
def Ends (relations : List Relation) (done models : List String) :
    Except (List String) (List String) → Prop
  | .error cycle => IsCycle relations cycle
  | .ok done'    => Settled relations done' ∧ done ⊆ done' ∧ models ⊆ done'

/-- Searches from several models, one after the other, end as each of them does. -/
theorem foldlM_ends {visit : List String → String → Except (List String) (List String)}
    {models : List String}
    (hvisit : ∀ m ∈ models, ∀ done, Settled relations done →
      Ends relations done [m] (visit done m))
    {done : List String} (h : Settled relations done) :
    Ends relations done models (models.foldlM visit done) := by
  induction models generalizing done with
  | nil => exact ⟨h, List.Subset.refl _, List.nil_subset _⟩
  | cons m models ih =>
    obtain ⟨hm, hmodels⟩ := List.forall_mem_cons.1 hvisit
    have hfirst := hm done h
    rw [List.foldlM_cons]
    cases hv : visit done m with
    | error cycle =>
      rw [hv] at hfirst
      exact hfirst
    | ok done₁ =>
      rw [hv] at hfirst
      obtain ⟨hsettled, hkept, hleft⟩ := hfirst
      have hrest := ih hmodels hsettled
      change Ends relations done (m :: models) (models.foldlM visit done₁)
      cases hf : models.foldlM visit done₁ with
      | error cycle =>
        rw [hf] at hrest
        exact hrest
      | ok done₂ =>
        rw [hf] at hrest
        obtain ⟨hsettled₂, hkept₂, hleft₂⟩ := hrest
        exact ⟨hsettled₂, List.Subset.trans hkept hkept₂,
          List.cons_subset.2 ⟨hkept₂ (hleft List.mem_cons_self), hleft₂⟩⟩

/-- A path leads to a model: through different models, each of which needs the next, with depth
left for all of them. -/
structure Leads (relations : List Relation) (depth : Nat) (path : List String) (model : String) :
    Prop where
  depth_add_length : depth + path.length = relations.length + 2
  distinct : path.Nodup
  chained : (path ++ [model]).IsChain (Needs relations)

theorem Leads.start (relations : List Relation) (root : String) :
    Leads relations (relations.length + 2) [] root :=
  ⟨rfl, .nil, .singleton root⟩

theorem Leads.step {depth : Nat} {path : List String} {model next : String}
    (h : Leads relations (depth + 1) path model) (hmodel : model ∉ path)
    (hnext : Needs relations model next) : Leads relations depth (path ++ [model]) next where
  depth_add_length := by
    have := h.depth_add_length
    rw [List.length_append, List.length_singleton]
    omega
  distinct := by
    rw [List.nodup_append]
    refine ⟨h.distinct, List.pairwise_singleton _ model, ?_⟩
    rintro m hm n hn rfl
    exact hmodel (List.mem_singleton.1 hn ▸ hm)
  chained := by
    rw [List.append_assoc]
    exact List.isChain_split.2 ⟨h.chained, List.isChain_pair.2 hnext⟩

/-- Each model of a path needs another one. -/
theorem exists_needs_of_isChain {path : List String} {model : String}
    (h : (path ++ [model]).IsChain (Needs relations)) {m : String} (hm : m ∈ path) :
    ∃ n, Needs relations m n := by
  obtain ⟨before, behind, rfl⟩ := List.append_of_mem hm
  rw [List.append_assoc, List.cons_append] at h
  cases behind with
  | nil => exact ⟨_, (List.isChain_append_cons_cons.1 h).2.1⟩
  | cons n behind => exact ⟨_, (List.isChain_append_cons_cons.1 h).2.1⟩

/-- A path is never out of depth. -/
theorem Leads.depth_pos {depth : Nat} {path : List String} {model : String}
    (h : Leads relations depth path model) : 0 < depth := by
  have hsources : path ⊆ relations.map (·.source) := fun m hm => by
    obtain ⟨n, r, hr, -, rfl, -⟩ := exists_needs_of_isChain h.chained hm
    exact List.mem_map_of_mem hr
  have hlength := (List.subperm_of_subset h.distinct hsources).length_le
  have := h.depth_add_length
  rw [List.length_map] at hlength
  omega

/-- What is dropped of a list up to one of its items. -/
theorem exists_dropWhile {path : List String} {m : String} (hm : m ∈ path) :
    ∃ before behind, path = before ++ m :: behind ∧ path.dropWhile (· != m) = m :: behind := by
  induction path with
  | nil => cases hm
  | cons a path ih =>
    by_cases ha : a = m
    · subst ha
      exact ⟨[], path, rfl, List.dropWhile_cons_of_neg (by simp)⟩
    · obtain ⟨before, behind, hpath, hdrop⟩ := ih (List.mem_of_ne_of_mem (Ne.symm ha) hm)
      refine ⟨a :: before, behind, congrArg (a :: ·) hpath, ?_⟩
      rw [List.dropWhile_cons_of_pos (by simpa using ha), hdrop]

/-- A path that comes back to one of its models closes a cycle. -/
theorem Leads.isCycle {depth : Nat} {path : List String} {model : String}
    (h : Leads relations depth path model) (hm : model ∈ path) :
    IsCycle relations (path.dropWhile (· != model) ++ [model]) := by
  obtain ⟨before, behind, rfl, hdrop⟩ := exists_dropWhile hm
  rw [hdrop]
  refine ⟨by simp, ?_, ?_, ?_⟩
  · rw [List.getLast?_append_of_ne_nil _ (List.cons_ne_nil _ _)]
    rfl
  · rw [List.dropLast_concat]
    exact (List.nodup_append.1 h.distinct).2.1
  · have hchain := h.chained
    rw [List.append_assoc] at hchain
    exact hchain.right_of_append

/-- **A search finds a cycle, or leaves its model behind.** -/
theorem visit_ends {depth : Nat} {path done : List String} {model : String}
    (hpath : Leads relations depth path model) (hdone : Settled relations done) :
    Ends relations done [model] (visit relations depth path done model) := by
  induction depth generalizing path done model with
  | zero => exact absurd hpath.depth_pos (Nat.lt_irrefl 0)
  | succ depth ih =>
    rw [visit]
    split
    · next hm => exact hpath.isCycle hm
    · next hm =>
      split
      · next hleft => exact ⟨hdone, List.Subset.refl _, List.cons_subset.2 ⟨hleft, by simp⟩⟩
      · have hneeds : Ends relations done (needs relations model)
            ((needs relations model).foldlM
              (fun done next => visit relations depth (path ++ [model]) done next) done) :=
          foldlM_ends (fun next hnext done' hdone' =>
            ih (hpath.step hm (mem_needs_iff.1 hnext)) hdone') hdone
        revert hneeds
        cases (needs relations model).foldlM
          (fun done next => visit relations depth (path ++ [model]) done next) done with
        | error cycle => exact id
        | ok done' =>
          rintro ⟨hsettled, hkept, hleft⟩
          refine ⟨⟨fun n hn => hleft (mem_needs_iff.2 hn), hsettled⟩,
            List.Subset.trans hkept (List.subset_cons_self _ _), by simp⟩

/-- **A cycle of required relations is found where there is one.** -/
theorem findRequiredCycle_spec (relations : List Relation) :
    (findRequiredCycle relations = none ↔ ¬ ∃ m, Relation.TransGen (Needs relations) m m)
      ∧ ∀ cycle, findRequiredCycle relations = some cycle → IsCycle relations cycle := by
  have hends : Ends relations [] (roots relations) ((roots relations).foldlM
      (fun done root => visit relations (relations.length + 2) [] done root) []) :=
    foldlM_ends (fun root _ done hdone => visit_ends (.start relations root) hdone) trivial
  unfold findRequiredCycle
  revert hends
  cases (roots relations).foldlM
    (fun done root => visit relations (relations.length + 2) [] done root) [] with
  | error cycle =>
    intro hcycle
    refine ⟨iff_of_false nofun (not_not_intro hcycle.transGen), ?_⟩
    rintro _ ⟨⟩
    exact hcycle
  | ok done =>
    rintro ⟨hsettled, -, hroots⟩
    refine ⟨iff_of_true rfl ?_, nofun⟩
    rintro ⟨m, hcycle⟩
    obtain ⟨n, hn, -⟩ := Relation.TransGen.head'_iff.1 hcycle
    exact hsettled.acyclic (hroots (mem_roots hn)) hcycle

end RelationCycle

/-! ### Relations of a run -/

namespace HasOnePass

open PassAction RelationCycle

/-- The relation of a link. -/
def relationOf (l : Link) : Relation := ⟨l.source, l.field, l.target, l.required⟩

/-- The relations that are known, and those of links that are not. -/
def accumulated (relations : List Relation) (ls : List Link) : List Relation :=
  ls.foldl (fun relations l => appendNew relations (relationOf l)) relations

theorem on_link {l : Link} (hl : l.isList = false) (s : PassState) :
    (link l).on s = (.ok (), { s with
      context := attach s.context l, memory := s.memory.addRelation (relationOf l) }) := by
  unfold link
  rw [hl]
  rfl

/-- Links that are no lists are all made, and their relations are known from there on. -/
theorem on_forEach_link {ls : List Link} (hl : ∀ l ∈ ls, l.isList = false) (s : PassState) :
    ∃ c, (Action.forEach link ls).on s = (.ok (), { s with
      context := c,
      memory := { s.memory with relations := accumulated s.memory.relations ls } }) := by
  induction ls generalizing s with
  | nil => exact ⟨s.context, rfl⟩
  | cons l ls ih =>
    obtain ⟨hfirst, hrest⟩ := List.forall_mem_cons.1 hl
    rw [Action.on_forEach_cons, on_link hfirst]
    exact ih hrest _

/-- Where no link is a list, the pass ends well unless the relations that are known by then have a
cycle. -/
theorem on_apply {s : PassState} {ls : List Link} (h : linkedFields s.context "hasOne" = .ok ls)
    (hl : ∀ l ∈ ls, l.isList = false) :
    (apply.on s).2.memory.relations = accumulated s.memory.relations ls
      ∧ (apply.on s).1 = match findRequiredCycle (accumulated s.memory.relations ls) with
        | some cycle => .error (.cyclicRelation "hasOne" cycle)
        | none       => .ok () := by
  obtain ⟨c, hlinks⟩ := on_forEach_link hl s
  rw [apply, on_examine_bind, h]
  dsimp only
  rw [Action.on_bind_ok hlinks, on_memory_bind]
  dsimp only
  cases findRequiredCycle (accumulated s.memory.relations ls) <;> exact ⟨rfl, rfl⟩

end HasOnePass

namespace RelationCycle

/-- **Cycles of required relations are found exactly.** The search finds none where no model needs
itself by way of others, and a closed list of different models, each of which needs the next, where
one does. So the pass of `@hasOne`, where its fields are those of models and no lists, fails for a
cycle exactly where the relations of the run and of earlier ones have one that is required, and ends
well where they do not. -/
theorem findRequiredCycle_exact :
    (∀ relations,
      (findRequiredCycle relations = none ↔ ¬ ∃ m, Relation.TransGen (Needs relations) m m)
      ∧ ∀ cycle, findRequiredCycle relations = some cycle →
          2 ≤ cycle.length ∧ cycle.head? = cycle.getLast? ∧ cycle.dropLast.Nodup
            ∧ cycle.IsChain (Needs relations))
    ∧ ∀ (s : PassState) (ls : List Link), linkedFields s.context "hasOne" = .ok ls →
        (∀ l ∈ ls, l.isList = false) →
        let known := HasOnePass.accumulated s.memory.relations ls
        (HasOnePass.apply.on s).2.memory.relations = known
        ∧ ((∃ cycle, (HasOnePass.apply.on s).1 = .error (.cyclicRelation "hasOne" cycle)) ↔
            ∃ m, Relation.TransGen (Needs known) m m)
        ∧ ((HasOnePass.apply.on s).1 = .ok () ↔ ¬ ∃ m, Relation.TransGen (Needs known) m m) := by
  refine ⟨fun relations => ⟨(findRequiredCycle_spec relations).1, fun cycle h => ?_⟩,
    fun s ls hls hl => ?_⟩
  · obtain ⟨hlong, hclosed, hdistinct, hchained⟩ := (findRequiredCycle_spec relations).2 cycle h
    exact ⟨hlong, hclosed, hdistinct, hchained⟩
  · intro known
    obtain ⟨hrelations, hresult⟩ := HasOnePass.on_apply hls hl
    refine ⟨hrelations, ?_⟩
    obtain ⟨hnone, -⟩ := findRequiredCycle_spec known
    rw [hresult]
    cases hfound : findRequiredCycle known with
    | none =>
      have hacyclic := hnone.1 hfound
      exact ⟨iff_of_false (by simp) hacyclic, iff_of_true rfl hacyclic⟩
    | some cycle =>
      have hcyclic : ∃ m, Relation.TransGen (Needs known) m m := by
        by_contra hacyclic
        rw [hnone.2 hacyclic] at hfound
        cases hfound
      exact ⟨iff_of_true ⟨cycle, rfl⟩ hcyclic, iff_of_false nofun (not_not_intro hcyclic)⟩

/-- Two models, either of which requires the other. -/
def mutualPosts : PassState where
  context := {
    schema := ⟨[{
      kind := .object, name := "Post", directives := [⟨"model", []⟩],
      fields := [{
        name := "author", type := .nonNull (.named "Author"), directives := [⟨"hasOne", []⟩] }] }, {
      kind := .object, name := "Author", directives := [⟨"model", []⟩],
      fields := [{
        name := "post", type := .nonNull (.named "Post"), directives := [⟨"hasOne", []⟩] }] }]⟩
    resources := .ofList [
      { id := tableId "Post", kind := .table }, { id := tableId "Author", kind := .table }] }

theorem findRequiredCycle_exact_mutualPosts :
    (∃ ls, linkedFields mutualPosts.context "hasOne" = .ok ls ∧ ∀ l ∈ ls, l.isList = false)
      ∧ ∃ cycle, (HasOnePass.apply.on mutualPosts).1 = .error (.cyclicRelation "hasOne" cycle) := by
  let ls : List Link :=
    [⟨"Post", "author", "Author", false, true⟩, ⟨"Author", "post", "Post", false, true⟩]
  have hls : linkedFields mutualPosts.context "hasOne" = .ok ls := by decide +kernel
  have hl : ∀ l ∈ ls, l.isList = false := by decide
  have hpost : Needs (HasOnePass.accumulated [] ls) "Post" "Author" :=
    ⟨⟨"Post", "author", "Author", true⟩, by decide, rfl, rfl, rfl⟩
  have hauthor : Needs (HasOnePass.accumulated [] ls) "Author" "Post" :=
    ⟨⟨"Author", "post", "Post", true⟩, by decide, rfl, rfl, rfl⟩
  obtain ⟨-, hpass⟩ := findRequiredCycle_exact
  obtain ⟨-, hcycle, -⟩ := hpass mutualPosts ls hls hl
  exact ⟨⟨ls, hls, hl⟩, hcycle.2 ⟨"Post", .tail (.single hpost) hauthor⟩⟩

end RelationCycle

end ApiCompiler
