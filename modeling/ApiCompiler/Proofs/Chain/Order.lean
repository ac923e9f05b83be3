import ApiCompiler.Chain

/-!
# Chains — which chains are fit to run

A chain is checked from its first pass on. A pass fits behind the passes before it where they have
all that it depends on, and none of them its name.

* `IsRunnable`: names come once, and every pass comes behind all that it depends on.
* `Pass.Misfit`: what is wrong with a pass behind passes of some names, and the fault that tells of
  it.
* `validate_cases`: a chain is runnable, or its first pass that does not fit is told.
* `validate_exact`: when a chain is refused and why, and what that comes to for chains that are
  built of custom passes.
-/

namespace ApiCompiler

namespace Pass

/-- A pass has all that it depends on among passes of some names, none of which is its own. -/
def Fits (p : Pass) (earlier : List String) : Prop :=
  (∀ d ∈ p.dependsOn, d ∈ earlier) ∧ p.name ∉ earlier

/-- What is wrong with a pass behind passes of the names `earlier`: the first of the passes that it
depends on which is not there, or, where all of them are, a name that is taken. -/
inductive Misfit (p : Pass) (earlier : List String) : Fault → Prop where
  | missing {found rest : List String} {d : String} (hp : p.dependsOn = found ++ d :: rest)
      (hfound : ∀ x ∈ found, x ∈ earlier) (hd : d ∉ earlier) :
      Misfit p earlier (.unsatisfiedDependency p.name d)
  | repeated (hp : ∀ d ∈ p.dependsOn, d ∈ earlier) (hn : p.name ∈ earlier) :
      Misfit p earlier (.duplicatePass p.name)

variable {p : Pass} {earlier earlier' : List String} {f : Fault}

theorem Fits.congr (h : p.Fits earlier) (he : ∀ n, n ∈ earlier ↔ n ∈ earlier') :
    p.Fits earlier' :=
  ⟨fun d hd => (he d).1 (h.1 d hd), fun hn => h.2 ((he _).2 hn)⟩

theorem Misfit.congr (h : p.Misfit earlier f) (he : ∀ n, n ∈ earlier ↔ n ∈ earlier') :
    p.Misfit earlier' f := by
  cases h with
  | missing hp hfound hd =>
    exact .missing hp (fun x hx => (he x).1 (hfound x hx)) fun h => hd ((he _).2 h)
  | repeated hp hn => exact .repeated (fun d hd => (he d).1 (hp d hd)) ((he _).1 hn)

/-- A pass that does not fit does not. -/
theorem Misfit.not_fits (h : p.Misfit earlier f) : ¬ p.Fits earlier := by
  rintro ⟨hall, hn⟩
  cases h with
  | missing hp _ hd => exact hd (hall _ (hp ▸ List.mem_append_right _ List.mem_cons_self))
  | repeated _ hn' => exact hn hn'

end Pass

namespace Chain

/-- The names of the passes, in their order. -/
def passNames (chain : Chain) : List String := chain.map (·.pass.name)

/-- A chain in which names come once, and every pass comes behind all that it depends on. -/
structure IsRunnable (chain : Chain) : Prop where
  names   : chain.passNames.Nodup
  depends : ∀ before e after, chain = before ++ e :: after →
    ∀ d ∈ e.pass.dependsOn, d ∈ passNames before

/-- A chain whose passes all fit behind those before them and passes of the names `earlier`. -/
def FitsBehind (chain : Chain) (earlier : List String) : Prop :=
  ∀ before e after, chain = before ++ e :: after → e.pass.Fits (earlier ++ passNames before)

variable {chain : Chain} {e : Entry} {earlier seen : List String} {f : Fault}

theorem passNames_append (xs ys : Chain) : passNames (xs ++ ys) = xs.passNames ++ ys.passNames :=
  List.map_append

theorem fitsBehind_nil (earlier : List String) : FitsBehind [] earlier :=
  fun _ _ _ h => absurd h (by simp)

theorem fitsBehind_append {xs ys : Chain} :
    (xs ++ ys).FitsBehind earlier ↔ xs.FitsBehind earlier
      ∧ ys.FitsBehind (earlier ++ xs.passNames) := by
  constructor
  · intro h
    refine ⟨fun before e after he => h before e (after ++ ys) (by rw [he]; simp), ?_⟩
    intro before e after he
    have := h (xs ++ before) e after (by rw [he, List.append_assoc])
    rwa [passNames_append, ← List.append_assoc] at this
  · rintro ⟨hx, hy⟩ before e after he
    -- the pass is one of the first part or of the second one
    rcases List.append_eq_append_iff.1 he with ⟨zs, rfl, hys⟩ | ⟨zs, hxs, hrest⟩
    · have := hy zs e after hys
      rwa [List.append_assoc, ← passNames_append] at this
    · cases zs with
      | nil =>
        rw [List.append_nil] at hxs
        subst hxs
        have := hy [] e after hrest.symm
        simpa [passNames] using this
      | cons z zs =>
        obtain ⟨rfl, -⟩ := List.cons.inj hrest
        exact hx before e zs hxs

theorem fitsBehind_singleton : FitsBehind [e] earlier ↔ e.pass.Fits earlier := by
  constructor
  · intro h
    simpa [passNames] using h [] e [] rfl
  · intro h before d after he
    cases before with
    | nil =>
      obtain ⟨rfl, -⟩ := List.cons.inj he
      simpa [passNames] using h
    | cons b before => exact absurd (List.cons.inj he).2 (by simp)

theorem fitsBehind_cons : FitsBehind (e :: chain) earlier ↔
    e.pass.Fits earlier ∧ chain.FitsBehind (earlier ++ [e.pass.name]) := by
  rw [← List.singleton_append, fitsBehind_append, fitsBehind_singleton]
  rfl

/-- The passes of a chain fit exactly where the chain is runnable. -/
theorem fitsBehind_nil_iff : chain.FitsBehind [] ↔ chain.IsRunnable := by
  constructor
  · intro h
    refine ⟨?_, fun before e after he => (h before e after he).1⟩
    -- a name that comes twice is the name of an earlier pass the second time
    rw [passNames, List.Nodup, List.pairwise_map]
    refine List.pairwise_iff_forall_sublist.2 fun {a b} hsub hname => ?_
    obtain ⟨xs, ys, rfl, ha, hb⟩ := List.cons_sublist_iff.1 hsub
    obtain ⟨before, after, rfl⟩ := List.append_of_mem (List.singleton_sublist.1 hb)
    refine (h (xs ++ before) b after (by rw [List.append_assoc])).2 ?_
    rw [List.nil_append, passNames_append]
    exact List.mem_append_left _ (List.mem_map.2 ⟨a, ha, hname⟩)
  · intro h before e after he
    refine ⟨h.depends before e after he, fun hn => ?_⟩
    have hnames := h.names
    rw [he, passNames_append, List.nodup_append] at hnames
    exact hnames.2.2 _ hn _ List.mem_cons_self rfl

/-! ### The check -/

theorem checkReadable_of_canRead (h : e.lease.canRead = true) : e.checkReadable = .ok () := by
  rw [Entry.checkReadable, if_pos h]

/-- A pass that fits goes by, and its name is taken from then on. -/
theorem validateAfter_of_fits (h : e.lease.canRead = true) (hf : e.pass.Fits seen)
    (chain : Chain) :
    validateAfter seen (e :: chain) = validateAfter (e.pass.name :: seen) chain := by
  have hfound : e.pass.dependsOn.find? (· ∉ seen) = none :=
    List.find?_eq_none.2 fun d hd => by simpa using hf.1 d hd
  rw [validateAfter, checkReadable_of_canRead h, hfound]
  exact if_neg hf.2

/-- What is wrong with a pass is told. -/
theorem validateAfter_of_misfit (h : e.lease.canRead = true) (hm : e.pass.Misfit seen f)
    (chain : Chain) : validateAfter seen (e :: chain) = .error f := by
  rw [validateAfter, checkReadable_of_canRead h]
  cases hm with
  | @missing found rest d hp hfound hd =>
    have : e.pass.dependsOn.find? (· ∉ seen) = some d := by
      refine List.find?_eq_some_iff_append.2 ⟨by simpa using hd, found, rest, hp, fun x hx => ?_⟩
      simpa using hfound x hx
    rw [this]
    rfl
  | repeated hp hn =>
    have : e.pass.dependsOn.find? (· ∉ seen) = none :=
      List.find?_eq_none.2 fun d hd => by simpa using hp d hd
    rw [this]
    exact if_pos hn

theorem fits_or_misfit (p : Pass) (seen : List String) :
    p.Fits seen ∨ ∃ f, p.Misfit seen f := by
  cases hmissing : p.dependsOn.find? (· ∉ seen) with
  | some d =>
    obtain ⟨hd, found, rest, hp, hfound⟩ := List.find?_eq_some_iff_append.1 hmissing
    refine .inr ⟨_, .missing hp (fun x hx => ?_) (by simpa using hd)⟩
    simpa using hfound x hx
  | none =>
    have hall : ∀ d ∈ p.dependsOn, d ∈ seen := fun d hd => by
      simpa using List.find?_eq_none.1 hmissing d hd
    by_cases hn : p.name ∈ seen
    · exact .inr ⟨_, .repeated hall hn⟩
    · exact .inl ⟨hall, hn⟩

/-- The passes behind those of some names all fit, or the first that does not is told. -/
theorem validateAfter_cases (h : ∀ e ∈ chain, e.lease.canRead = true)
    (hs : ∀ n, n ∈ seen ↔ n ∈ earlier) :
    chain.FitsBehind earlier ∧ validateAfter seen chain = .ok ()
      ∨ ∃ before e after f, chain = before ++ e :: after ∧ FitsBehind before earlier
        ∧ e.pass.Misfit (earlier ++ passNames before) f
        ∧ validateAfter seen chain = .error f := by
  induction chain generalizing seen earlier with
  | nil => exact .inl ⟨fitsBehind_nil earlier, rfl⟩
  | cons e chain ih =>
    have hread := h e List.mem_cons_self
    rcases fits_or_misfit e.pass seen with hfits | ⟨f, hmisfit⟩
    · have hfits' := hfits.congr hs
      have hnames : ∀ n, n ∈ e.pass.name :: seen ↔ n ∈ earlier ++ [e.pass.name] := fun n => by
        rw [List.mem_cons, List.mem_append, List.mem_singleton, hs, or_comm]
      rw [validateAfter_of_fits hread hfits]
      rcases ih (fun d hd => h d (List.mem_cons_of_mem e hd)) hnames with
        ⟨hrest, hok⟩ | ⟨before, d, after, f, rfl, hbefore, hd, herror⟩
      · exact .inl ⟨fitsBehind_cons.2 ⟨hfits', hrest⟩, hok⟩
      · refine .inr ⟨e :: before, d, after, f, rfl, fitsBehind_cons.2 ⟨hfits', hbefore⟩, ?_, herror⟩
        rwa [List.append_assoc] at hd
    · refine .inr ⟨[], e, chain, f, rfl, fitsBehind_nil earlier, ?_,
        validateAfter_of_misfit hread hmisfit chain⟩
      exact (hmisfit.congr hs).congr fun n => by simp [passNames]

/-- **A chain is runnable, or its first pass that does not fit is told.** -/
theorem validate_cases (h : ∀ e ∈ chain, e.lease.canRead = true) :
    chain.IsRunnable ∧ chain.validate = .ok ()
      ∨ ∃ before e after f, chain = before ++ e :: after ∧ IsRunnable before
        ∧ e.pass.Misfit (passNames before) f ∧ chain.validate = .error f := by
  simp only [← fitsBehind_nil_iff, validate]
  exact validateAfter_cases h fun _ => Iff.rfl

theorem validate_eq_ok_iff (h : ∀ e ∈ chain, e.lease.canRead = true) :
    chain.validate = .ok () ↔ chain.IsRunnable := by
  rcases validate_cases h with ⟨hrun, hok⟩ | ⟨before, e, after, f, he, -, hmisfit, herror⟩
  · exact iff_of_true hok hrun
  · refine iff_of_false (fun hok => nomatch herror.symm.trans hok) fun hrun => ?_
    exact hmisfit.not_fits (fitsBehind_nil_iff.2 hrun before e after he)

/-- Of two passes that do not fit behind runnable ones, neither comes before the other. -/
theorem eq_of_first_misfit {xs ys xs' ys' : Chain} {d : Entry} {g : Fault}
    (h : chain = xs ++ e :: ys) (h' : chain = xs' ++ d :: ys') (hrun : IsRunnable xs)
    (hrun' : IsRunnable xs') (hm : e.pass.Misfit xs.passNames f)
    (hm' : d.pass.Misfit xs'.passNames g) : xs = xs' ∧ e = d := by
  -- the one that comes first would stand among the runnable ones before the other
  have early : ∀ {xs zs : Chain} {e : Entry} {f : Fault}, IsRunnable (xs ++ e :: zs) →
      ¬ e.pass.Misfit xs.passNames f := fun hrun hm =>
    hm.not_fits (fitsBehind_nil_iff.2 hrun _ _ _ rfl)
  rw [h] at h'
  rcases List.append_eq_append_iff.1 h' with ⟨zs, rfl, hrest⟩ | ⟨zs, rfl, hrest⟩
  · cases zs with
    | nil => exact ⟨(List.append_nil _).symm, (List.cons.inj hrest).1⟩
    | cons z zs =>
      obtain ⟨rfl, -⟩ := List.cons.inj hrest
      exact absurd hm (early hrun')
  · cases zs with
    | nil => exact ⟨List.append_nil _, (List.cons.inj hrest).1.symm⟩
    | cons z zs =>
      obtain ⟨rfl, -⟩ := List.cons.inj hrest
      exact absurd hm' (early hrun)

/-- Behind passes of some names, one thing only is wrong with a pass. -/
theorem misfit_unique {p : Pass} {f g : Fault} (hf : p.Misfit seen f) (hg : p.Misfit seen g) :
    f = g := by
  have told : ∀ {k}, p.Misfit seen k → validateAfter seen [{ pass := p }] = .error k :=
    fun hk => validateAfter_of_misfit rfl hk []
  exact Except.error.inj ((told hf).symm.trans (told hg))

/-- What is told is what is wrong with the first pass that does not fit. -/
theorem validate_eq_error_iff (h : ∀ e ∈ chain, e.lease.canRead = true) :
    chain.validate = .error f ↔ ∃ before e after, chain = before ++ e :: after
      ∧ IsRunnable before ∧ e.pass.Misfit (passNames before) f := by
  rcases validate_cases h with ⟨hrun, hok⟩ | ⟨xs, d, ys, g, hd, hxs, hmisfit, herror⟩
  · refine iff_of_false (fun hf => nomatch hok.symm.trans hf) ?_
    rintro ⟨before, e, after, he, -, hm⟩
    exact hm.not_fits (fitsBehind_nil_iff.2 hrun before e after he)
  · rw [herror]
    constructor
    · rintro ⟨⟩
      exact ⟨xs, d, ys, hd, hxs, hmisfit⟩
    · rintro ⟨before, e, after, he, hbefore, hm⟩
      obtain ⟨rfl, rfl⟩ := eq_of_first_misfit hd he hxs hbefore hmisfit hm
      exact congrArg Except.error (misfit_unique hmisfit hm)

/-! ### Chains with custom passes -/

/-- The names of the passes that every chain starts with, in their order. -/
def builtinNames : List String :=
  ["model", "function", "http", "predictions", "primaryKey", "index", "hasMany", "hasOne",
    "manyToMany", "belongsTo", "default", "auth", "mapsTo", "searchable"]

/-- Custom passes that may run behind those that every chain starts with: names come once, and
every pass depends only on passes that every chain starts with or that are custom ones before it. -/
structure FollowsBuiltin (custom : List Pass) : Prop where
  names   : (custom.map (·.name)).Nodup
  fresh   : ∀ p ∈ custom, p.name ∉ builtinNames
  depends : ∀ before p after, custom = before ++ p :: after →
    ∀ d ∈ p.dependsOn, d ∈ builtinNames ∨ d ∈ before.map (·.name)

variable {args : FactoryArgs} {custom : List Pass}

theorem passNames_builtin (args : FactoryArgs) : (builtin args).passNames = builtinNames := rfl

theorem name_mem_drop {k : Nat} (he : e ∈ (builtin args).drop k) :
    e.pass.name ∈ builtinNames.drop k := by
  rw [← passNames_builtin args, passNames, ← List.map_drop]
  exact List.mem_map.2 ⟨e, he, rfl⟩

/-- Some of the passes in a row, by their names. -/
theorem mem_slice {k n : Nat} (he : e ∈ ((builtin args).drop k).take n) :
    e ∈ builtin args ∧ e.pass.name ∈ (builtinNames.drop k).take n := by
  refine ⟨List.mem_of_mem_drop (List.mem_of_mem_take he), ?_⟩
  rw [← passNames_builtin args, passNames, ← List.map_drop, ← List.map_take]
  exact List.mem_map.2 ⟨e, he, rfl⟩

theorem passNames_custom (custom : List Pass) :
    passNames (custom.map fun pass => { pass := pass }) = custom.map (·.name) :=
  List.map_map

theorem passNames_build (args : FactoryArgs) (custom : List Pass) :
    (build args custom).passNames = builtinNames ++ custom.map (·.name) := by
  rw [build, passNames_append, passNames_builtin, passNames_custom]

/-- The passes of a chain that is built can be read. -/
theorem canRead_of_mem_build (he : e ∈ build args custom) : e.lease.canRead = true := by
  have free : ∀ d ∈ builtin args, d.lease.canRead = true := by
    simp only [builtin, List.forall_mem_cons, Lease.canRead, true_and, List.not_mem_nil,
      false_imp_iff, implies_true]
  rcases List.mem_append.1 he with he | he
  · exact free e he
  · obtain ⟨p, -, rfl⟩ := List.mem_map.1 he
    rfl

theorem isRunnable_builtin (args : FactoryArgs) : (builtin args).IsRunnable := by
  refine (validate_eq_ok_iff fun e he => ?_).1 rfl
  have hbuild : e ∈ build args [] := List.mem_append_left _ he
  exact canRead_of_mem_build hbuild

/-- Custom passes in front of one are those whose entries are in front of its entry. -/
theorem custom_eq_append {before after : Chain} (h :
    (custom.map fun pass => ({ pass := pass } : Entry)) = before ++ e :: after) :
    ∃ xs ys, custom = xs ++ e.pass :: ys ∧ before = xs.map fun pass => { pass := pass } := by
  obtain ⟨xs, zs, rfl, rfl, hzs⟩ := List.map_eq_append_iff.1 h
  obtain ⟨p, ys, rfl, rfl, -⟩ := List.map_eq_cons_iff.1 hzs
  exact ⟨xs, ys, rfl, rfl⟩

/-- A chain that is built is runnable where its custom passes may follow. -/
theorem isRunnable_build_iff : (build args custom).IsRunnable ↔ FollowsBuiltin custom := by
  have hnames : (build args custom).passNames.Nodup ↔
      (custom.map (·.name)).Nodup ∧ ∀ p ∈ custom, p.name ∉ builtinNames := by
    have hbuiltin : builtinNames.Nodup := by decide
    rw [passNames_build, List.nodup_append]
    constructor
    · rintro ⟨-, hcustom, hdisjoint⟩
      exact ⟨hcustom, fun p hp hn => hdisjoint _ hn _ (List.mem_map_of_mem hp) rfl⟩
    · rintro ⟨hcustom, hfresh⟩
      refine ⟨hbuiltin, hcustom, fun n hn m hm he => ?_⟩
      obtain ⟨p, hp, rfl⟩ := List.mem_map.1 hm
      exact hfresh p hp (he ▸ hn)
  constructor
  · intro h
    obtain ⟨hcustom, hfresh⟩ := hnames.1 h.names
    refine ⟨hcustom, hfresh, fun before p after he d hd => ?_⟩
    have := h.depends (build args before) { pass := p } (after.map fun pass => { pass := pass })
      (by rw [build, he, List.map_append, ← List.append_assoc]; rfl) d hd
    rwa [passNames_build, List.mem_append] at this
  · intro h
    refine fitsBehind_nil_iff.1 (fitsBehind_append.2
      ⟨fitsBehind_nil_iff.2 (isRunnable_builtin args), fun before e after he => ?_⟩)
    obtain ⟨xs, ys, hc, rfl⟩ := custom_eq_append he
    rw [List.nil_append, passNames_builtin, passNames_custom]
    refine ⟨fun d hd => List.mem_append.2 (h.depends xs e.pass ys hc d hd), fun hn => ?_⟩
    rcases List.mem_append.1 hn with hn | hn
    · exact h.fresh e.pass (hc ▸ List.mem_append_right _ List.mem_cons_self) hn
    · have hcustom := h.names
      rw [hc, List.map_append, List.nodup_append] at hcustom
      exact hcustom.2.2 _ hn _ List.mem_cons_self rfl

/-- **The check of a chain is exact.** Where no pass is being changed by somebody else, a chain is
taken exactly where it is runnable, and is refused for what is wrong with its first pass that does
not fit. A chain that is built has the passes that every chain starts with, in their order, and the
custom ones behind them, and is taken exactly where these may follow. -/
theorem validate_exact (h : ∀ e ∈ chain, e.lease.canRead = true) :
    (chain.validate = .ok () ↔ chain.IsRunnable)
      ∧ (∀ f, chain.validate = .error f ↔ ∃ before e after, chain = before ++ e :: after
        ∧ IsRunnable before ∧ e.pass.Misfit (passNames before) f)
      ∧ ∀ args custom,
        (build args custom).map (·.pass) = [.model, .function args.functionNameMap, .http,
            .predictions args.storageConfig, .primaryKey, .index, .hasMany, .hasOne, .manyToMany,
            .belongsTo, .defaultValue, .auth args, .mapsTo, .searchable] ++ custom
          ∧ (build args custom).passNames = builtinNames ++ custom.map (·.name)
          ∧ ((build args custom).validate = .ok () ↔ FollowsBuiltin custom) := by
  refine ⟨validate_eq_ok_iff h, fun f => validate_eq_error_iff h, fun args custom =>
    ⟨?_, passNames_build args custom, ?_⟩⟩
  · rw [build, List.map_append, List.map_map]
    exact congrArg _ (List.map_id custom)
  · rw [validate_eq_ok_iff fun _ => canRead_of_mem_build, isRunnable_build_iff]

/-- A pass that does nothing. -/
def idle (name : String) (dependsOn : List String) : Pass where
  name
  dependsOn
  apply := pure ()

/-- A chain in which a pass comes before one that it depends on, and a name comes twice. -/
def misordered : Chain :=
  [{ pass := idle "audit" [] }, { pass := idle "report" ["audit", "seal", "stamp"] },
    { pass := idle "audit" [] }, { pass := idle "seal" [] }]

theorem validate_exact_misordered : (∀ e ∈ misordered, e.lease.canRead = true)
    ∧ misordered.validate = .error (.unsatisfiedDependency "report" "seal")
    ∧ ∃ before e after, misordered = before ++ e :: after ∧ IsRunnable before
      ∧ e.pass.Misfit (passNames before) (.unsatisfiedDependency "report" "seal") := by
  have hread : ∀ e ∈ misordered, e.lease.canRead = true := by decide
  have htold : misordered.validate = .error (.unsatisfiedDependency "report" "seal") := rfl
  exact ⟨hread, htold, ((validate_exact hread).2.1 _).1 htold⟩

end Chain

end ApiCompiler
