import ApiCompiler.Proofs.Pass.Builtin

/-!
# Chains — the passes that are started

* `Start`, `Chain.started`: the passes that are started, each with the state it is started on.
* `started_prefix`, `result_of_mem_dropLast`, `on_forEach_of_failed`: they come in the order of the
  chain, and the first that fails ends it.
* `on_take_of_started`: a pass is started on what those before it leave.
* `logs_forEach`: they leave the diagnostics that each of them leaves, in their order.
-/

namespace ApiCompiler

/-- A pass that is started on a state. -/
structure Start where
  entry  : Entry
  before : PassState

namespace Start

/-- What the pass ends with. -/
def result (x : Start) : Except Fault Unit := (x.entry.pass.apply.on x.before).1

/-- What the pass leaves, also where it fails. -/
def after (x : Start) : PassState := (x.entry.pass.apply.on x.before).2

/-- The diagnostics that the pass leaves behind those that were there. -/
def emitted (x : Start) : List LogEntry :=
  x.after.context.logs.drop x.before.context.logs.length

end Start

/-- A pass that leaves the diagnostics that are there, and puts its own behind them. -/
def Pass.OnlyAppends (p : Pass) : Prop :=
  ∀ s, s.context.logs <+: (p.apply.on s).2.context.logs

theorem Start.before_append_emitted {x : Start} (h : x.entry.pass.OnlyAppends) :
    x.before.context.logs ++ x.emitted = x.after.context.logs :=
  List.prefix_iff_eq_append.1 (h x.before)

namespace Chain

/-- The passes of a chain that are started from a state: up to the first entry that is held or
whose pass fails, which is started itself. -/
def started : Chain → PassState → List Start
  | [], _     => []
  | e :: c, s =>
    match e.checkFree with
    | .error _ => []
    | .ok _    =>
      ⟨e, s⟩ ::
        match e.pass.apply.on s with
        | (.error _, _) => []
        | (.ok _, t)    => started c t

/-- The chain with each entry held in some way. -/
def heldBy (chain : Chain) (leases : Nat → Lease) : Chain :=
  chain.mapIdx fun i e => { e with lease := leases i }

variable {c : Chain} {e : Entry} {s : PassState}

theorem started_of_busy {f : Fault} (h : e.checkFree = .error f) (c : Chain) (s : PassState) :
    started (e :: c) s = [] := by
  rw [started, h]

theorem started_of_error {f : Fault} {t : PassState} (h : e.checkFree = .ok ())
    (hs : e.pass.apply.on s = (.error f, t)) (c : Chain) : started (e :: c) s = [⟨e, s⟩] := by
  rw [started, h, hs]

theorem started_of_ok {t : PassState} (h : e.checkFree = .ok ())
    (hs : e.pass.apply.on s = (.ok (), t)) (c : Chain) :
    started (e :: c) s = ⟨e, s⟩ :: started c t := by
  rw [started, h, hs]

theorem on_apply_of_busy {f : Fault} (h : e.checkFree = .error f) (s : PassState) :
    e.apply.on s = (.error f, s) := by
  rw [Entry.apply, Action.on_ofExcept_bind, h]

theorem on_apply_of_free (h : e.checkFree = .ok ()) (s : PassState) :
    e.apply.on s = e.pass.apply.on s := by
  rw [Entry.apply, Action.on_ofExcept_bind, h]

/-- The pass of an entry that ends well is not held, and does. -/
theorem on_pass_of_apply {t : PassState} (h : e.apply.on s = (.ok (), t)) :
    e.pass.apply.on s = (.ok (), t) := by
  obtain ⟨_, u, hu, h⟩ := Action.on_bind_eq_ok.1 h
  rwa [← (Prod.mk.inj hu).2] at h

theorem on_apply_free (p : Pass) (role : Option Role) (s : PassState) :
    (Entry.mk p role .free).apply.on s = p.apply.on s :=
  on_apply_of_free rfl s

/-- What happens to the first entry of a chain: it is held, its pass fails, or the rest of the
chain goes on from what its pass leaves. -/
theorem on_forEach_cases (e : Entry) (c : Chain) (s : PassState) :
    (∃ f, e.checkFree = .error f ∧ started (e :: c) s = []
        ∧ (Action.forEach Entry.apply (e :: c)).on s = (.error f, s))
      ∨ (∃ f t, e.checkFree = .ok () ∧ e.pass.apply.on s = (.error f, t)
        ∧ started (e :: c) s = [⟨e, s⟩]
        ∧ (Action.forEach Entry.apply (e :: c)).on s = (.error f, t))
      ∨ (∃ t, e.checkFree = .ok () ∧ e.pass.apply.on s = (.ok (), t)
        ∧ started (e :: c) s = ⟨e, s⟩ :: started c t
        ∧ (Action.forEach Entry.apply (e :: c)).on s = (Action.forEach Entry.apply c).on t) := by
  rw [Action.on_forEach_cons]
  cases hf : e.checkFree with
  | error f =>
    refine .inl ⟨f, rfl, started_of_busy hf c s, ?_⟩
    rw [on_apply_of_busy hf]
  | ok _ =>
    rw [on_apply_of_free hf]
    rcases hs : e.pass.apply.on s with ⟨f | _, t⟩
    · exact .inr (.inl ⟨f, t, rfl, rfl, started_of_error hf hs c, rfl⟩)
    · exact .inr (.inr ⟨t, rfl, rfl, started_of_ok hf hs c, rfl⟩)

/-- Passes are started in the order of the chain. -/
theorem started_prefix (c : Chain) (s : PassState) : (started c s).map (·.entry) <+: c := by
  induction c generalizing s with
  | nil => exact List.prefix_rfl
  | cons e c ih =>
    rcases on_forEach_cases e c s with ⟨f, -, h, -⟩ | ⟨f, t, -, -, h, -⟩ | ⟨t, -, -, h, -⟩
    · rw [h]
      exact List.nil_prefix
    · rw [h]
      exact ⟨c, rfl⟩
    · rw [h, List.map_cons, List.prefix_cons_inj]
      exact ih t

/-- A pass is started on what those before it leave, all of which end well. -/
theorem on_take_of_started {chain : Chain} {i : Nat} {x : Start}
    (h : (started chain s)[i]? = some x) :
    chain[i]? = some x.entry
      ∧ (Action.forEach Entry.apply (chain.take i)).on s = (.ok (), x.before) := by
  induction chain generalizing s i with
  | nil => cases h
  | cons e c ih =>
    rcases on_forEach_cases e c s with ⟨f, -, hs, -⟩ | ⟨f, t, -, -, hs, -⟩ | ⟨t, hf, ht, hs, -⟩
    · rw [hs] at h
      cases h
    · cases i with
      | zero =>
        rw [hs] at h
        cases h
        exact ⟨rfl, rfl⟩
      | succ i =>
        rw [hs] at h
        cases h
    · cases i with
      | zero =>
        rw [hs] at h
        cases h
        exact ⟨rfl, rfl⟩
      | succ i =>
        rw [hs, List.getElem?_cons_succ] at h
        obtain ⟨he, hrun⟩ := ih h
        refine ⟨he, ?_⟩
        rw [List.take_succ_cons, Action.on_forEach_cons, on_apply_of_free hf, ht]
        exact hrun

/-- Where all goes well, all passes are started. -/
theorem started_of_completed {t : PassState}
    (h : (Action.forEach Entry.apply c).on s = (.ok (), t)) :
    (started c s).map (·.entry) = c := by
  induction c generalizing s with
  | nil => rfl
  | cons e c ih =>
    rcases on_forEach_cases e c s with ⟨f, -, -, hr⟩ | ⟨f, u, -, -, -, hr⟩ | ⟨u, -, -, hs, hr⟩
    · cases (Prod.mk.inj (hr.symm.trans h)).1
    · cases (Prod.mk.inj (hr.symm.trans h)).1
    · rw [hs, List.map_cons, ih (hr.symm.trans h)]

/-- Only the last of the passes that are started can have failed. -/
theorem result_of_mem_dropLast {x : Start} (hx : x ∈ (started c s).dropLast) :
    x.result = .ok () := by
  induction c generalizing s with
  | nil => cases hx
  | cons e c ih =>
    rcases on_forEach_cases e c s with ⟨f, -, h, -⟩ | ⟨f, t, -, -, h, -⟩ | ⟨t, -, hok, h, -⟩
    · rw [h] at hx
      cases hx
    · rw [h] at hx
      cases hx
    · rw [h] at hx
      cases hrest : started c t with
      | nil =>
        rw [hrest] at hx
        cases hx
      | cons y ys =>
        rw [hrest, List.dropLast_cons_cons, List.mem_cons, ← hrest] at hx
        rcases hx with rfl | hx
        · exact congrArg Prod.fst hok
        · exact ih hx

/-- The fault of a pass ends the chain, with what the pass leaves. -/
theorem on_forEach_of_failed {x : Start} {f : Fault} (hx : x ∈ (started c s).getLast?)
    (hf : x.result = .error f) : (Action.forEach Entry.apply c).on s = (.error f, x.after) := by
  induction c generalizing s with
  | nil => cases hx
  | cons e c ih =>
    rcases on_forEach_cases e c s with ⟨g, -, h, -⟩ | ⟨g, t, -, he, h, hr⟩ | ⟨t, -, he, h, hr⟩
    · rw [h] at hx
      cases hx
    · rw [h, List.getLast?_singleton] at hx
      obtain rfl := Option.some.inj hx
      rw [Start.result, he] at hf
      cases hf
      rw [hr, Start.after, he]
    · rw [h] at hx
      cases hrest : started c t with
      | nil =>
        rw [hrest, List.getLast?_singleton] at hx
        obtain rfl := Option.some.inj hx
        rw [Start.result, he] at hf
        cases hf
      | cons y ys =>
        rw [hrest, List.getLast?_cons_cons, ← hrest] at hx
        rw [hr]
        exact ih hx

/-- **The passes of a chain leave the diagnostics of those that are started**, in the order of the
chain. -/
theorem logs_forEach (h : ∀ e ∈ c, e.pass.OnlyAppends) (s : PassState) :
    ((Action.forEach Entry.apply c).on s).2.context.logs
      = s.context.logs ++ (started c s).flatMap Start.emitted := by
  induction c generalizing s with
  | nil => exact (List.append_nil _).symm
  | cons e c ih =>
    have he : ∀ {r t}, e.pass.apply.on s = (r, t) →
        s.context.logs ++ Start.emitted ⟨e, s⟩ = t.context.logs := by
      intro r t ht
      have := Start.before_append_emitted (x := ⟨e, s⟩) (h e List.mem_cons_self)
      rwa [Start.after, ht] at this
    rcases on_forEach_cases e c s with ⟨f, -, hs, hr⟩ | ⟨f, t, -, ht, hs, hr⟩ | ⟨t, -, ht, hs, hr⟩
    · rw [hr, hs, List.flatMap_nil, List.append_nil]
    · rw [hr, hs, List.flatMap_cons, List.flatMap_nil, List.append_nil]
      exact (he ht).symm
    · rw [hr, hs, List.flatMap_cons, ← List.append_assoc, he ht]
      exact ih (fun d hd => h d (List.mem_cons_of_mem e hd)) t

theorem mem_heldBy {leases : Nat → Lease} (he : e ∈ c.heldBy leases) :
    ∃ d ∈ c, e.pass = d.pass := by
  obtain ⟨i, hi, rfl⟩ := List.mem_mapIdx.1 he
  exact ⟨_, List.getElem_mem hi, rfl⟩

/-- Built-in passes only append, and so does a chain where custom ones do. -/
theorem onlyAppends_of_mem_build {args : FactoryArgs} {custom : List Pass}
    (hcustom : ∀ p ∈ custom, p.OnlyAppends) (he : e ∈ build args custom) :
    e.pass.OnlyAppends := by
  rw [build, List.mem_append, List.mem_map] at he
  rcases he with he | ⟨p, hp, rfl⟩
  · intro s
    have hedits : PassAction.EditsAt Context.AnyName _ e.pass.apply s :=
      builtin_edits he fun _ _ => trivial
    exact hedits.anyTime.logs
  · exact hcustom p hp

end Chain

end ApiCompiler
