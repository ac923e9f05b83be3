import ApiCompiler.Proofs.Access.Searched
import ApiCompiler.Proofs.Chain.Started

/-!
# Access — how far rules reach

The rules of a model are attached before the pass of `@searchable` adds its queries, so that they
reach all that is bound to the datasource of the model, but a query only where something else has
made it before.

* `Context.Serves`, `IsGuarded`: the resolvers that serve a model, and whether they have its rules.
* `SearchesGuarded`: whether the queries are there, with their rules, before they are searched.
* `Chain.isGuarded_iff_of_completes`: the two come to the same.
-/

namespace ApiCompiler

/-- A resolver that reads or writes a model: one that is bound to the datasource of the model, or
the query that searches it. -/
structure Context.Serves (c : Context) (model : String) (r : Resource) : Prop where
  kind  : r.kind = .resolver
  reach : r.get? "dataSource" = some (.str (datasourceId model))
    ∨ model ∈ c.schema.namesWith "searchable" ∧ r.id = SearchPass.queryId model

namespace PassState

/-- Every resolver that reads or writes a model has the rules of the model. -/
def IsGuarded (s : PassState) : Prop :=
  ∀ model ∈ s.context.schema.namesWith "model", ∀ r ∈ s.context.resources.toList,
    s.context.Serves model r → r.get? "authRules" = some (encodeRules (s.memory.rulesFor model))

/-- Nothing is left for searches to open: the query of a model that can be searched is there with
the rules of the model, and where the search datasource is that of a model, all queries are. -/
structure SearchesGuarded (s : PassState) : Prop where
  own    : ∀ model ∈ s.context.schema.namesWith "searchable",
    model ∈ s.context.schema.namesWith "model" →
      ∃ r, s.context.resources.get? (SearchPass.queryId model) = some r
        ∧ r.get? "authRules" = some (encodeRules (s.memory.rulesFor model))
  shared : "OpenSearch" ∈ s.context.schema.namesWith "model" →
    ∀ model ∈ s.context.schema.namesWith "searchable",
      s.context.resources.contains (SearchPass.queryId model) = true

end PassState

namespace SearchPass

variable {s t : PassState}

/-- A query that searches is a resolver. -/
theorem kind_of_queryId {g : ResourceGraph} (h : g.AllSound) {model : String} {r : Resource}
    (hr : g.get? (queryId model) = some r) : r.kind = .resolver :=
  (h _ r hr).kind _ (kindOfId?_resolverId _ _)

/-- Where every model has its rules behind the search pass, searches left nothing open. -/
theorem searchesGuarded_of_isGuarded (ht : t.context.resources.AllSound)
    (h : apply.on s = (.ok (), t)) (hguarded : t.IsGuarded) : s.SearchesGuarded := by
  obtain ⟨hmemory, hnames, hextends, hqueries⟩ := extends_apply h
  -- a query that the pass adds has no rules, so none can serve a model
  have hsearch : ∀ model ∈ s.context.schema.namesWith "searchable",
      ∃ r ∈ t.context.resources.toList, r.kind = .resolver ∧ r.id = queryId model
        ∧ t.context.resources.get? (queryId model) = some r := by
    intro model hm
    obtain ⟨r, hr⟩ := ResourceGraph.contains_iff_get?.1 (hqueries model hm)
    have hid := (ht _ r hr).id_eq
    exact ⟨r, ht.mem_iff.2 (hid.symm ▸ hr), kind_of_queryId ht hr, hid, hr⟩
  constructor
  · intro model hsearched hmodel
    obtain ⟨r, hmem, hk, hid, hr⟩ := hsearch model hsearched
    have hrules := hguarded model (hnames _ ▸ hmodel) r hmem
      ⟨hk, .inr ⟨hnames _ ▸ hsearched, hid⟩⟩
    rw [hmemory] at hrules
    rcases hextends.resolver _ r hr hk with ⟨q, hq, -, -, hsame⟩ | ⟨-, -, -, hnone⟩
    · exact ⟨q, hq, hsame.trans hrules⟩
    · rw [hnone] at hrules
      cases hrules
  · intro hopen model hsearched
    obtain ⟨r, hmem, hk, -, hr⟩ := hsearch model hsearched
    rcases hextends.resolver _ r hr hk with ⟨q, hq, -⟩ | ⟨-, -, hdata, hnone⟩
    · exact ResourceGraph.contains_iff_get?.2 ⟨q, hq⟩
    · have hrules := hguarded "OpenSearch" (hnames _ ▸ hopen) r hmem ⟨hk, .inl hdata⟩
      rw [hnone] at hrules
      cases hrules

/-- Where searches leave nothing open, every model that has its rules before the search pass has
them behind it. -/
theorem isGuarded_of_searchesGuarded (ht : t.context.resources.AllSound)
    (hg : ∀ model ∈ s.context.schema.namesWith "model",
      s.context.resources.Guards model (s.memory.rulesFor model))
    (h : apply.on s = (.ok (), t)) (hsearches : s.SearchesGuarded) : t.IsGuarded := by
  obtain ⟨hmemory, hnames, hextends, -⟩ := extends_apply h
  intro model hmodel r hmem hserves
  rw [hnames] at hmodel
  rw [hmemory]
  have hr := ht.mem_iff.1 hmem
  obtain ⟨hk, hreach⟩ := hserves
  rw [hnames] at hreach
  rcases hextends.resolver _ r hr hk with
    ⟨q, hq, hqk, hdata, hsame⟩ | ⟨hnew, ⟨m, hm, hid⟩, hdata, -⟩
  · rw [← hsame]
    rcases hreach with hreach | ⟨hsearched, hid⟩
    · exact hg model hmodel _ q hq hqk (hdata.trans hreach)
    · obtain ⟨q', hq', hrules⟩ := hsearches.own model hsearched hmodel
      rw [← hid, hq] at hq'
      cases hq'
      exact hrules
  · exfalso
    rcases hreach with hreach | ⟨hsearched, hid'⟩
    · rw [hdata] at hreach
      have hmodel' : "OpenSearch" = model :=
        datasourceId_inj (Json.str.inj (Option.some.inj hreach))
      have hthere := hsearches.shared (hmodel' ▸ hmodel) m hm
      rw [← hid, hnew] at hthere
      cases hthere
    · obtain ⟨q, hq, -⟩ := hsearches.own model hsearched hmodel
      have hthere := ResourceGraph.contains_iff_get?.2 ⟨q, hq⟩
      rw [← hid', hnew] at hthere
      cases hthere

/-- Where every model has its rules before the search pass, every model has them behind it just
where searches leave nothing open. -/
theorem isGuarded_iff_searchesGuarded (ht : t.context.resources.AllSound)
    (hg : ∀ model ∈ s.context.schema.namesWith "model",
      s.context.resources.Guards model (s.memory.rulesFor model))
    (h : apply.on s = (.ok (), t)) : t.IsGuarded ↔ s.SearchesGuarded :=
  ⟨searchesGuarded_of_isGuarded ht h, isGuarded_of_searchesGuarded ht hg h⟩

end SearchPass

namespace Chain

variable {args : FactoryArgs} {c : Context} {s : PassState}

/-- What a fresh run of the passes that every chain starts with has done when models are made
searchable. -/
def beforeSearch (args : FactoryArgs) (c : Context) : PassState :=
  ((Action.forEach Entry.apply (builtin args).dropLast).on { context := c }).2

/-- The last three passes of a run that ends well: rules are attached, models are renamed and made
searchable. -/
theorem Completes.cut (h : Completes args c s) :
    ∃ t u, Context.Edits Context.AnyName (ModelPass.Ready Document.DeclaresKey) c t.context
      ∧ (AuthPass.apply args).on t = (.ok (), u)
      ∧ MapsToPass.apply.on u = (.ok (), beforeSearch args c)
      ∧ SearchPass.apply.on (beforeSearch args c) = (.ok (), s) := by
  have hsplit : builtin args = (builtin args).take 11
      ++ [{ pass := .auth args, role := some .auth }, { pass := .mapsTo },
        { pass := .searchable }] := rfl
  have hbefore : (builtin args).dropLast = (builtin args).take 11
      ++ [{ pass := .auth args, role := some .auth }, { pass := .mapsTo }] := rfl
  rw [Completes, hsplit, Action.forEach_append_ok] at h
  obtain ⟨t, ht, h⟩ := h
  simp only [Action.forEach_cons_ok, on_apply_free] at h
  obtain ⟨u, hu, v, hv, w, hw, h⟩ := h
  have hcut : (Action.forEach Entry.apply (builtin args).dropLast).on { context := c }
      = (.ok (), v) := by
    rw [hbefore, Action.forEach_append_ok]
    refine ⟨t, ht, ?_⟩
    simp only [Action.forEach_cons_ok, on_apply_free]
    exact ⟨u, hu, v, hv, rfl⟩
  rw [beforeSearch, hcut]
  have hedits := (entries_edits (fun _ he _ => builtin_edits (List.mem_of_mem_take he)
    fun _ _ => trivial) _).of_ok ht
  have hws : w = s := (Prod.mk.inj h).2
  exact ⟨t, u, hedits, hu, hv, hws ▸ hw⟩

/-- Before the search pass the rules of every model are on all that is bound to its datasource. -/
theorem Completes.guards_beforeSearch (hc : c.resources = {}) (h : Completes args c s) :
    ∀ model ∈ (beforeSearch args c).context.schema.namesWith "model",
      (beforeSearch args c).context.resources.Guards model
        ((beforeSearch args c).memory.rulesFor model) := by
  obtain ⟨t, u, hedits, hauth, hmaps, -⟩ := h.cut
  obtain ⟨hschema, hguards⟩ :=
    AuthPass.guards_apply (hedits.isSound (Context.isSound_of_empty hc)) hauth
  obtain ⟨hschema', hmemory, hkept⟩ := MapsToPass.guards_apply hmaps
  intro model hm
  rw [hschema', hschema] at hm
  rw [hmemory]
  exact hkept model _ (hguards model hm)

/-- **The rules of every model reach all that serves it just where searches open nothing**: where
the query of each model that can be searched is there, with the rules of the model, before the pass
of `@searchable` runs. -/
theorem isGuarded_iff_of_completes (hc : c.resources = {}) (h : Completes args c s) :
    s.IsGuarded ↔ (beforeSearch args c).SearchesGuarded := by
  obtain ⟨t, u, -, -, -, hsearch⟩ := h.cut
  have hsound := h.edits.isSound (Context.isSound_of_empty hc)
  exact SearchPass.isGuarded_iff_searchesGuarded hsound.all (h.guards_beforeSearch hc) hsearch

/-- The two come to the same, too, where one model is kept, guarded and searched. -/
theorem isGuarded_iff_searchablePost :
    searchablePost.resources = {}
      ∧ Completes {} searchablePost (lastState {} searchablePost)
      ∧ ((lastState {} searchablePost).IsGuarded
        ↔ (beforeSearch {} searchablePost).SearchesGuarded) :=
  ⟨rfl, completes_searchablePost, isGuarded_iff_of_completes rfl completes_searchablePost⟩

/-- There the query that searches the model has no rules, though the model has one. -/
theorem not_isGuarded_searchablePost :
    searchablePost.resources = {}
      ∧ Completes {} searchablePost (lastState {} searchablePost)
      ∧ ¬ (lastState {} searchablePost).IsGuarded := by
  refine ⟨rfl, completes_searchablePost, fun hguarded => ?_⟩
  have hopen : "Post" ∈ (lastState {} searchablePost).context.schema.namesWith "model"
      ∧ "Post" ∈ (lastState {} searchablePost).context.schema.namesWith "searchable"
      ∧ (lastState {} searchablePost).context.resources.toList.any (fun r =>
        r.kind == .resolver && r.id == SearchPass.queryId "Post"
          && r.get? "authRules" == none) = true := by
    decide +kernel
  obtain ⟨hmodel, hsearched, hopen⟩ := hopen
  obtain ⟨r, hr, hquery⟩ := List.any_eq_true.1 hopen
  simp only [Bool.and_eq_true, beq_iff_eq] at hquery
  have hrules := hguarded "Post" hmodel r hr ⟨hquery.1.1, .inr ⟨hsearched, hquery.1.2⟩⟩
  rw [hquery.2] at hrules
  cases hrules

end Chain

end ApiCompiler
