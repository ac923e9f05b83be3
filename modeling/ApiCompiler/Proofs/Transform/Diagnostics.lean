import ApiCompiler.Proofs.Chain.Started
import ApiCompiler.Transform

/-!
# Transforms — the diagnostics of a run

* `on_forEach_applyEntry`: a run starts the passes that its chain does, and ends with what they do.
* `steps_follow`: so do all its steps, whatever they end with.
* `Delivers`, `delivers_of_ofConfig`: the diagnostics reach the sink once, complete and in their
  order.
-/

namespace ApiCompiler

/-- What a run records of a pass that is started. -/
def Start.stage (x : Start) : Stage := ⟨x.entry.pass.name, x.before⟩

namespace Transform

open ApiCompiler.Action

/-! ### The steps of a run -/

theorem on_emit_bind {β : Type} (level : LogLevel) (message : String) (f : Unit → RunAction β)
    (s : RunState) : (emit level message >>= f).on s
      = (f ()).on { s with trace := s.trace ++ [traceLine level message] } :=
  on_change_bind _ f s

theorem on_applyEntry (e : Entry) (s : RunState) :
    (applyEntry e).on s =
      match e.checkFree with
      | .error f => (.error f, s)
      | .ok _    => ((e.pass.apply.on s.passes).1,
          { s with
            trace  := s.trace ++ [traceLine .debug ("Applying pass '" ++ e.pass.name ++ "'")]
            stages := s.stages ++ [⟨e.pass.name, s.passes⟩]
            passes := (e.pass.apply.on s.passes).2 }) := by
  rw [applyEntry, on_ofExcept_bind]
  cases e.checkFree with
  | error f => rfl
  | ok _ =>
    simp only []
    rw [on_emit_bind, on_change_bind, on_within]

/-- A run does to what passes share what the chain does, and records the passes that it starts. -/
theorem on_forEach_applyEntry (c : Chain) (s : RunState) :
    ((forEach applyEntry c).on s).1 = ((forEach Entry.apply c).on s.passes).1
      ∧ ((forEach applyEntry c).on s).2.passes = ((forEach Entry.apply c).on s.passes).2
      ∧ ((forEach applyEntry c).on s).2.stages
        = s.stages ++ (c.started s.passes).map Start.stage := by
  induction c generalizing s with
  | nil => exact ⟨rfl, rfl, (List.append_nil _).symm⟩
  | cons e c ih =>
    rw [on_forEach_cons applyEntry, on_applyEntry]
    rcases Chain.on_forEach_cases e c s.passes with
      ⟨f, hf, hs, hr⟩ | ⟨f, t, hf, ht, hs, hr⟩ | ⟨t, hf, ht, hs, hr⟩
    · rw [hf, hs, hr]
      exact ⟨rfl, rfl, (List.append_nil _).symm⟩
    · rw [hf, hs, hr, ht]
      exact ⟨rfl, rfl, rfl⟩
    · rw [hf, hs, hr, ht]
      obtain ⟨hresult, hpasses, hstages⟩ := ih _
      exact ⟨hresult, hpasses, hstages.trans (List.append_assoc _ _ _)⟩

/-- What neither records a pass nor leaves a diagnostic. -/
def Keeps (s t : RunState) : Prop :=
  t.stages = s.stages ∧ t.passes.context.logs = s.passes.context.logs

theorem Keeps.trans {s t u : RunState} (h : Keeps s t) (h' : Keeps t u) : Keeps s u :=
  ⟨h'.1.trans h.1, h'.2.trans h.2⟩

/-- The API touches nothing but resources. -/
theorem addApi_eq (t : Transform) (uri : String) (c : Context) :
    ∃ resources, t.addApi uri c = { c with resources } := by
  rw [addApi, addLayers]
  split
  · exact ⟨_, rfl⟩
  · obtain ⟨_, hlayers⟩ := Context.foldl_eq_with (fun _ _ => ⟨_, rfl⟩) _ _
    exact ⟨_, hlayers⟩

theorem logs_addApi (t : Transform) (uri : String) (c : Context) :
    (t.addApi uri c).logs = c.logs := by
  obtain ⟨_, hapi⟩ := t.addApi_eq uri c
  rw [hapi]

theorem on_context_bind {β : Type} (f : Context → RunAction β) (s : RunState) :
    (context >>= f).on s = (f s.passes.context).on s :=
  on_bind_ok (by rw [context, on_get_bind, on_pure]) f

/-- The steps behind the passes keep what these have left. -/
theorem exportStep_keeps (t : Transform) (provide : AssetProvider) (s : RunState) :
    Keeps s ((t.exportStep provide).on s).2 := by
  rw [exportStep, on_emit_bind, on_context_bind, on_get_bind, on_ofExcept_bind]
  split
  · next asset _ =>
    simp only []
    rw [on_change_bind]
    exact ⟨rfl, logs_addApi t _ _⟩
  · exact ⟨rfl, rfl⟩

theorem synthesisStep_keeps (t : Transform) (s : RunState) :
    Keeps s (t.synthesisStep.on s).2 := by
  rw [synthesisStep, on_emit_bind, on_get_bind]
  simp only []
  rw [on_change_bind]
  exact ⟨rfl, rfl⟩

theorem on_parseStep_of_error {schema : String} {f : Fault}
    (h : Document.parse schema = .error f) (s : RunState) :
    ∃ trace, (parseStep schema).on s = (.error f, { s with trace }) := by
  rw [parseStep, on_emit_bind, on_ofExcept_bind, h]
  exact ⟨_, rfl⟩

theorem on_parseStep_of_ok {schema : String} {d : Document}
    (h : Document.parse schema = .ok d) (s : RunState) :
    ∃ trace, (parseStep schema).on s = (.ok (),
      { s with
        passes := { s.passes with context := { s.passes.context with schema := d } }
        trace }) := by
  rw [parseStep, on_emit_bind, on_ofExcept_bind, h]
  simp only []
  rw [onContext, on_change_bind, emit, on_change]
  exact ⟨_, rfl⟩

/-- The passes that a run of a schema starts, from what passes share. -/
def started (t : Transform) (schema : String) (s : PassState) : List Start :=
  match Document.parse schema with
  | .error _ => []
  | .ok d    => t.chain.started { s with context := { s.context with schema := d } }

theorem started_of_error {schema : String} {f : Fault} (h : Document.parse schema = .error f)
    (t : Transform) (s : PassState) : t.started schema s = [] := by
  rw [started, h]

theorem started_of_ok {schema : String} {d : Document} (h : Document.parse schema = .ok d)
    (t : Transform) (s : PassState) : t.started schema s
      = t.chain.started { s with context := { s.context with schema := d } } := by
  rw [started, h]

/-- What is done when the passes are through. -/
def concludingSteps (t : Transform) (provide : AssetProvider) (passes : List String) :
    RunAction Summary := do
  let (text, asset) ← t.exportStep provide
  let report        ← t.synthesisStep
  return ⟨passes, text, asset.uri, (← context).resources, report.nestedStacks⟩

theorem steps_eq (t : Transform) (provide : AssetProvider) (schema : String) :
    t.steps provide schema = (do
      parseStep schema
      let passes ← t.passStep
      t.concludingSteps provide passes) := rfl

theorem concludingSteps_keeps (t : Transform) (provide : AssetProvider) (passes : List String)
    (s : RunState) : Keeps s ((t.concludingSteps provide passes).on s).2 := by
  rw [concludingSteps]
  refine bind_rel (R := Keeps) Keeps.trans (t.exportStep_keeps provide s) fun _ u _ => ?_
  refine bind_rel (R := Keeps) Keeps.trans (t.synthesisStep_keeps u) fun _ v _ => ?_
  rw [on_context_bind, on_pure]
  exact ⟨rfl, rfl⟩

theorem passes_of_concludingSteps {t : Transform} {provide : AssetProvider} {passes : List String}
    {s u : RunState} {summary : Summary}
    (h : (t.concludingSteps provide passes).on s = (.ok summary, u)) : summary.passes = passes := by
  rw [concludingSteps, on_bind_eq_ok] at h
  obtain ⟨_, v, -, h⟩ := h
  rw [on_bind_eq_ok] at h
  obtain ⟨_, w, -, h⟩ := h
  rw [on_context_bind, on_pure] at h
  cases (Prod.mk.inj h).1
  rfl

/-- What the steps of a run do, read off the passes that are started. -/
structure Follows (t : Transform) (started : List Start) (s : RunState)
    (r : Except Fault Summary × RunState) : Prop where
  stages : r.2.stages = s.stages ++ started.map Start.stage
  logs   : r.2.passes.context.logs = s.passes.context.logs ++ started.flatMap Start.emitted
  halted : ∀ x ∈ started.getLast?, ∀ f, x.result = .error f →
    r.1 = .error f ∧ r.2.passes = x.after
  passes : ∀ summary, r.1 = .ok summary →
    summary.passes = t.chain.map (·.pass.name) ∧ started.map (·.entry) = t.chain

theorem chain_follows {t : Transform} (hc : ∀ e ∈ t.chain, e.pass.OnlyAppends)
    (provide : AssetProvider) (s : RunState) :
    t.Follows (t.chain.started s.passes) s
      ((forEach applyEntry t.chain >>= fun _ =>
        t.concludingSteps provide (t.chain.map (·.pass.name))).on s) := by
  obtain ⟨hresult, hpasses, hstages⟩ := on_forEach_applyEntry t.chain s
  rcases hr : (forEach applyEntry t.chain).on s with ⟨f | _, u⟩
  · rw [hr] at hresult hpasses hstages
    rw [on_bind_error hr]
    refine ⟨hstages, ?_, fun x hx g hg => ?_, nofun⟩
    · exact (congrArg (·.context.logs) hpasses).trans (Chain.logs_forEach hc _)
    · rw [Chain.on_forEach_of_failed hx hg] at hresult hpasses
      cases hresult
      exact ⟨rfl, hpasses⟩
  · rw [hr] at hresult hpasses hstages
    rw [on_bind_ok hr]
    have hkeeps := t.concludingSteps_keeps provide (t.chain.map (·.pass.name)) u
    refine ⟨hkeeps.1.trans hstages, ?_, fun x hx g hg => ?_, fun summary hsummary => ⟨?_, ?_⟩⟩
    · exact hkeeps.2.trans
        ((congrArg (·.context.logs) hpasses).trans (Chain.logs_forEach hc _))
    · rw [Chain.on_forEach_of_failed hx hg] at hresult
      cases hresult
    · exact passes_of_concludingSteps (Prod.ext hsummary rfl)
    · exact Chain.started_of_completed (Prod.ext hresult.symm rfl)

theorem steps_follow {t : Transform} (hc : ∀ e ∈ t.chain, e.pass.OnlyAppends)
    (provide : AssetProvider) (schema : String) (s : RunState) :
    t.Follows (t.started schema s.passes) s ((t.steps provide schema).on s) := by
  rw [steps_eq]
  cases hd : Document.parse schema with
  | error f =>
    obtain ⟨trace, hparse⟩ := on_parseStep_of_error hd s
    rw [on_bind_error hparse, started_of_error hd]
    constructor
    · rw [List.map_nil, List.append_nil]
    · rw [List.flatMap_nil, List.append_nil]
    · exact fun x hx => nomatch hx
    · exact fun summary h => nomatch h
  | ok d =>
    obtain ⟨trace, hparse⟩ := on_parseStep_of_ok hd s
    rw [on_bind_ok hparse, started_of_ok hd, passStep, bind_assoc, on_emit_bind, bind_assoc]
    obtain ⟨hstages, hlogs, hhalted, hpasses⟩ := chain_follows hc provide
      { s with
        passes := { s.passes with context := { s.passes.context with schema := d } }
        trace  := trace ++ [traceLine .info "Phase 2: Applying passes..."] }
    exact ⟨hstages, hlogs, hhalted, hpasses⟩

/-! ### What reaches the sink -/

/-- The diagnostic of the fault that a run ends with, where it ends with one. -/
def faultLine : Except Fault Summary → List LogEntry
  | .ok _    => []
  | .error e => [⟨.error, e.message⟩]

theorem diagnostics_eq (result : Except Fault Summary) (logs : List LogEntry) :
    diagnostics result logs = logs ++ faultLine result := by
  cases result with
  | ok summary => exact (List.append_nil logs).symm
  | error e => rfl

/-- The runs of a transform, one for each sink, start some passes and deliver what these leave. -/
structure Delivers (t : Transform) (started : List Start) (run : Sink → RunReport) : Prop where
  /-- The passes are started in the order of the chain. -/
  order    : started.map (·.entry) <+: t.chain
  /-- These are the passes that the run records. -/
  stages   : ∀ sink, (run sink).final.stages = started.map Start.stage
  /-- A pass is started only where all passes before it went well. -/
  earlier  : ∀ x ∈ started.dropLast, x.result = .ok ()
  /-- A pass that fails ends the run with its fault, and nothing is changed any more. -/
  halted   : ∀ x ∈ started.getLast?, ∀ f, x.result = .error f → ∀ sink,
    (run sink).result = .error f ∧ (run sink).final.passes = x.after
  /-- No pass touches the diagnostics of those before it. -/
  appended : ∀ x ∈ started, x.before.context.logs ++ x.emitted = x.after.context.logs
  /-- The caller receives, once, the diagnostics of all passes and then that of the fault. -/
  caller   : (run .caller).drains
    = [started.flatMap Start.emitted ++ faultLine (run .caller).result]
  /-- Without a caller they end the trace of a run that is the same otherwise. -/
  trace    : run .trace =
    { result := (run .caller).result
      drains := []
      final  := { (run .caller).final with
        trace := (run .caller).final.trace
          ++ (started.flatMap Start.emitted ++ faultLine (run .caller).result) } }
  /-- A run that ends well has started all passes, and tells their names. -/
  passes   : ∀ sink summary, (run sink).result = .ok summary →
    summary.passes = t.chain.map (·.pass.name) ∧ started.map (·.entry) = t.chain

theorem result_finish (sink : Sink) (result : Except Fault Summary) (s : RunState) :
    (finish sink result s).result = result := by
  cases sink <;> rfl

theorem stages_finish (sink : Sink) (result : Except Fault Summary) (s : RunState) :
    (finish sink result s).final.stages = s.stages := by
  cases sink <;> rfl

theorem passes_finish (sink : Sink) (result : Except Fault Summary) (s : RunState) :
    (finish sink result s).final.passes = s.passes := by
  cases sink <;> rfl

theorem order_started (t : Transform) (schema : String) (s : PassState) :
    (t.started schema s).map (·.entry) <+: t.chain := by
  rw [started]
  split
  · exact List.nil_prefix
  · exact Chain.started_prefix _ _

theorem result_of_mem_dropLast {t : Transform} {schema : String} {s : PassState} {x : Start}
    (hx : x ∈ (t.started schema s).dropLast) : x.result = .ok () := by
  rw [started] at hx
  split at hx
  · cases hx
  · exact Chain.result_of_mem_dropLast hx

/-- What a run starts from. -/
def opening (t : Transform) (memory : Memory) (input : RunInput) (backend : Backend)
    (assets : AssetStore) : RunState where
  passes  := ⟨t.start input, memory, t.chain.leases⟩
  backend := backend
  assets  := assets
  trace   := [traceLine .info ("Starting transform (" ++ toString t.chain.length ++ " passes)")]

theorem finish_delivers {t : Transform} (hc : ∀ e ∈ t.chain, e.pass.OnlyAppends)
    {schema : String} {s : RunState} (hstages : s.stages = [])
    (hlogs : s.passes.context.logs = []) {r : Except Fault Summary × RunState}
    (h : t.Follows (t.started schema s.passes) s r) :
    t.Delivers (t.started schema s.passes) fun sink => finish sink r.1 r.2 := by
  have hdelivered : diagnostics r.1 r.2.passes.context.logs
      = (t.started schema s.passes).flatMap Start.emitted ++ faultLine r.1 := by
    rw [diagnostics_eq, h.logs, hlogs, List.nil_append]
  constructor
  case order => exact order_started t schema s.passes
  case stages =>
    intro sink
    rw [stages_finish, h.stages, hstages, List.nil_append]
  case earlier => exact fun x hx => result_of_mem_dropLast hx
  case halted =>
    intro x hx f hf sink
    rw [result_finish, passes_finish]
    exact h.halted x hx f hf
  case appended =>
    intro x hx
    have hentry := (order_started t schema s.passes).subset (List.mem_map_of_mem hx)
    exact Start.before_append_emitted (hc x.entry hentry)
  case caller => exact congrArg (fun l => [l]) hdelivered
  case trace =>
    rw [result_finish, ← hdelivered]
    rfl
  case passes =>
    intro sink summary hsummary
    rw [result_finish] at hsummary
    exact h.passes summary hsummary

theorem chain_ofConfig {config : Config} {custom : List Pass} {t : Transform}
    (h : (ofConfig config custom).1 = .ok t) : t.chain = Chain.build config.factory custom := by
  rw [ofConfig] at h
  split at h
  · cases h
  · simp only [] at h
    split at h
    · cases h
    · cases h
      rfl

/-- **Diagnostics are delivered once, complete and in their order**, whatever the run ends with: a
text that cannot be read, a pass that fails, an entry that is held, an asset or a resource that is
refused, or a summary. -/
theorem delivers_of_ofConfig {config : Config} {custom : List Pass} {t : Transform}
    (h : (ofConfig config custom).1 = .ok t) (hcustom : ∀ p ∈ custom, p.OnlyAppends)
    (leases : Nat → Lease) (provide : AssetProvider) (memory : Memory) (input : RunInput)
    (backend : Backend) (assets : AssetStore) :
    let held : Transform := { t with chain := t.chain.heldBy leases }
    held.Delivers (held.started input.schema ⟨held.start input, memory, held.chain.leases⟩)
      (held.runWith provide memory input backend assets) := by
  intro held
  have hc : ∀ e ∈ held.chain, e.pass.OnlyAppends := by
    intro e he
    obtain ⟨d, hd, hpass⟩ := Chain.mem_heldBy he
    rw [chain_ofConfig h] at hd
    exact hpass ▸ Chain.onlyAppends_of_mem_build hcustom hd
  exact finish_delivers hc (s := held.opening memory input backend assets) rfl rfl
    (steps_follow hc provide input.schema _)

/-- A pass that leaves one diagnostic. -/
def audit : Pass where
  name  := "audit"
  apply := PassAction.log .info "audit ran"

/-- A transform with one custom pass. -/
def audited : Transform := ofChain {} (Chain.build {} [audit])

/-- The diagnostics of a run with one custom pass are delivered, also where the pass before it is
held. -/
theorem delivers_audited :
    (ofConfig {} [audit]).1 = .ok audited ∧ (∀ p ∈ [audit], p.OnlyAppends)
      ∧ let held : Transform :=
          { audited with
            chain := audited.chain.heldBy fun i => if i = 13 then .writing else .free }
        let input : RunInput := { schema := "type Post @model \x7b title: String \x7d" }
        held.Delivers (held.started input.schema ⟨held.start input, {}, held.chain.leases⟩)
          (held.runWith AssetStore.provide {} input {} ⟨"bucket", ∅⟩) := by
  have hcustom : ∀ p ∈ [audit], p.OnlyAppends := by
    intro p hp s
    rw [List.mem_singleton.1 hp]
    exact List.prefix_append _ _
  have hbuilt : (ofConfig {} [audit]).1 = .ok audited := rfl
  exact ⟨hbuilt, hcustom, delivers_of_ofConfig hbuilt hcustom _ _ _ _ _ _⟩

end Transform

end ApiCompiler
