import ApiCompiler.Proofs.Pass.Redacted
import ApiCompiler.Proofs.Synthesis.Redacted
import ApiCompiler.Proofs.Transform.Aborted

/-!
# Transforms — where secrets go

A run of the passes that every chain starts with puts secrets where they belong and nowhere else:
what it leaves for two sets of secrets of the same models differs in the property of a datasource
that holds them, and in nothing else.

* `runWith_redact`: a run for which the secrets of some models are blanked out does what the run
  does, with these blanked out.
* `RunReport.SameBut`, `sameBut_of_ofConfig`: two runs that differ in secrets only.
-/

namespace ApiCompiler

open ApiCompiler.Action

variable {models : List String}

/-- What a run is given, with the secrets of some models blanked out. -/
def RunInput.redact (models : List String) (input : RunInput) : RunInput :=
  { input with datasourceSecrets := ConnectionSecrets.redact models input.datasourceSecrets }

/-- What a run produced, with the secrets of some models blanked out. -/
def Summary.redact (models : List String) (s : Summary) : Summary :=
  { s with resources := s.resources.redact models }

/-- A pass that was started, with the secrets of some models blanked out. -/
def Stage.redact (models : List String) (x : Stage) : Stage :=
  { x with before := x.before.redact models }

/-- A run under way, with the secrets of some models blanked out. -/
def RunState.redact (models : List String) (s : RunState) : RunState :=
  { s with
    passes  := s.passes.redact models
    backend := s.backend.redact models
    stages  := s.stages.map (Stage.redact models) }

/-- A run that has ended, with the secrets of some models blanked out. -/
def RunReport.redact (models : List String) (p : RunReport) : RunReport :=
  { p with result := p.result.map (Summary.redact models), final := p.final.redact models }

namespace Transform

/-! ### Steps of a run -/

theorem emit_blind (level : LogLevel) (message : String) :
    Blind (RunState.redact models) (emit level message) :=
  blind_change fun _ => rfl

theorem onContext_blind {f : Context → Context}
    (h : ∀ c, f (c.redact models) = (f c).redact models) :
    Blind (RunState.redact models) (onContext f) :=
  blind_change fun s =>
    congrArg (fun c : Context => { s.redact models with passes := { s.passes with context := c } })
      (h s.passes.context)

theorem blind_context_bind {β : Type} {f : Context → RunAction β}
    (h : ∀ c, Mirrors (RunState.redact models) (f c) (f (c.redact models))) :
    Blind (RunState.redact models) (context >>= f) := fun s => by
  rw [on_context_bind, on_context_bind]
  exact h s.passes.context s

theorem parseStep_blind (schema : String) : Blind (RunState.redact models) (parseStep schema) :=
  blind_bind (emit_blind _ _) fun _ => blind_bind (blind_ofExcept _) fun _ =>
    blind_bind (onContext_blind fun _ => rfl) fun _ => emit_blind _ _

theorem applyEntry_blind {e : Entry} (h : Blind (PassState.redact models) e.pass.apply) :
    Blind (RunState.redact models) (applyEntry e) := by
  refine blind_bind (blind_ofExcept _) fun _ => blind_bind (emit_blind _ _) fun _ =>
    blind_bind (blind_change fun s => ?_) fun _ => blind_within (fun _ => rfl) (fun _ _ => rfl) h
  -- what the pass is started on is recorded, with the secrets in it
  simp only [RunState.redact, List.map_append]
  rfl

theorem passStep_blind {t : Transform}
    (hc : ∀ e ∈ t.chain, Blind (PassState.redact models) e.pass.apply) :
    Blind (RunState.redact models) t.passStep :=
  blind_bind (emit_blind _ _) fun _ =>
    blind_bind (blind_forEach fun e he => applyEntry_blind (hc e he)) fun _ => blind_pure _

theorem addLayers_redact (t : Transform) (c : Context) :
    t.addLayers (c.redact models) = (t.addLayers c).redact models := by
  have hrelational : ∀ r, isRelational (r.redact models) = isRelational r := fun r => by
    rw [isRelational, isRelational, Resource.kind_redact, Resource.getString?, Resource.getString?,
      Resource.get?_redact _ _ (by decide)]
  have hlayer : t.layer? (c.redact models) = t.layer? c := rfl
  have hresources : (c.redact models).resources = c.resources.redact models := rfl
  rw [addLayers, addLayers, hlayer]
  split
  · rfl
  · rw [hresources, ResourceGraph.ids_filter_redact hrelational]
    exact Context.foldl_redact
      (fun c id => Context.modifyResource_redact (.set (by decide) _) c id) _ c

theorem addApi_redact (t : Transform) (uri : String) (c : Context) :
    t.addApi uri (c.redact models) = (t.addApi uri c).redact models := by
  have hapi : (apiResource c).get? "secrets" = none := rfl
  have hschema : (schemaResource uri).get? "secrets" = none := rfl
  rw [addApi, addApi, ← addLayers_redact, ← Context.addResource_redact hschema,
    ← Context.addResource_redact hapi]
  rfl

theorem exportStep_blind (t : Transform) (provide : AssetProvider) :
    Blind (RunState.redact models) (t.exportStep provide) := by
  refine blind_bind (emit_blind _ _) fun _ => blind_context_bind fun c =>
    mirrors_get_bind fun s => blind_bind (blind_ofExcept _) fun (asset, _) => ?_
  exact blind_bind (blind_change fun _ => rfl) fun _ =>
    blind_bind (onContext_blind (t.addApi_redact asset.uri)) fun _ => blind_pure _

theorem synthesisStep_blind (t : Transform) : Blind (RunState.redact models) t.synthesisStep := by
  refine blind_bind (emit_blind _ _) fun _ => mirrors_get_bind fun s => ?_
  rcases hs : synthesize s.passes.context.resources t.stackMapping
    s.passes.context.parameters.enableTransformerCfnOutputs s.backend with ⟨result, done⟩
  have hredacted : synthesize (s.redact models).passes.context.resources t.stackMapping
      s.passes.context.parameters.enableTransformerCfnOutputs (s.redact models).backend
      = (result, done.redact models) :=
    (synthesize_redact _ _ _ _).trans (by rw [hs])
  have hparameters : (s.redact models).passes.context.parameters = s.passes.context.parameters :=
    rfl
  dsimp only
  rw [hs, hparameters, hredacted]
  exact mirrors_bind (mirrors_change fun _ => rfl) fun _ => blind_ofExcept _

theorem preparingSteps_blind {t : Transform}
    (hc : ∀ e ∈ t.chain, Blind (PassState.redact models) e.pass.apply) (provide : AssetProvider)
    (schema : String) : Blind (RunState.redact models) (t.preparingSteps provide schema) :=
  blind_bind (parseStep_blind schema) fun _ => blind_bind (passStep_blind hc) fun _ =>
    blind_bind (t.exportStep_blind provide) fun _ => blind_pure _

/-! ### A whole run -/

theorem on_deployingSteps_redact (t : Transform) (p : List String × String × AssetRef)
    (s : RunState) :
    (t.deployingSteps p).on (s.redact models)
      = (((t.deployingSteps p).on s).1.map (Summary.redact models),
        ((t.deployingSteps p).on s).2.redact models) := by
  rw [deployingSteps, on_bind, on_bind, t.synthesisStep_blind s]
  rcases t.synthesisStep.on s with ⟨_ | report, u⟩
  · rfl
  · simp only []
    rw [on_context_bind, on_context_bind]
    rfl

/-- The steps of a run do without secrets what they do with them, also in the graph that they
tell. -/
theorem on_steps_redact {t : Transform}
    (hc : ∀ e ∈ t.chain, Blind (PassState.redact models) e.pass.apply) (provide : AssetProvider)
    (schema : String) (s : RunState) :
    (t.steps provide schema).on (s.redact models)
      = (((t.steps provide schema).on s).1.map (Summary.redact models),
        ((t.steps provide schema).on s).2.redact models) := by
  rw [steps_eq_deploying, on_bind, on_bind, preparingSteps_blind hc provide schema s]
  rcases (t.preparingSteps provide schema).on s with ⟨_ | p, u⟩
  · rfl
  · exact t.on_deployingSteps_redact p u

theorem finish_redact (sink : Sink) (result : Except Fault Summary) (s : RunState) :
    finish sink (result.map (Summary.redact models)) (s.redact models)
      = (finish sink result s).redact models := by
  have hline : resultLine (result.map (Summary.redact models)) = resultLine result := by
    cases result with
    | error e => rfl
    | ok summary =>
      have hsize : (summary.redact models).resources.size = summary.resources.size :=
        summary.resources.size_redact models
      rw [Except.map, resultLine, resultLine, hsize]
  have hlogs : diagnostics (result.map (Summary.redact models))
      (s.redact models).passes.context.logs = diagnostics result s.passes.context.logs := by
    cases result <;> rfl
  unfold finish
  dsimp only
  rw [hline, hlogs]
  cases sink <;> rfl

theorem runWith_eq (t : Transform) (provide : AssetProvider) (memory : Memory) (input : RunInput)
    (backend : Backend) (assets : AssetStore) (sink : Sink) :
    t.runWith provide memory input backend assets sink =
      finish sink ((t.steps provide input.schema).on (t.opening memory input backend assets)).1
        ((t.steps provide input.schema).on (t.opening memory input backend assets)).2 := rfl

/-- **A run does without secrets what it does with them.** Where the secrets of some models are
blanked out, in what a run is given and in the backend, it ends with the same fault or with the same
summary, and leaves the same, with these secrets blanked out. -/
theorem runWith_redact {t : Transform}
    (hc : ∀ e ∈ t.chain, Blind (PassState.redact models) e.pass.apply) (provide : AssetProvider)
    (memory : Memory) (input : RunInput) (backend : Backend) (assets : AssetStore) (sink : Sink) :
    t.runWith provide memory (input.redact models) (backend.redact models) assets sink
      = (t.runWith provide memory input backend assets sink).redact models := by
  have hopening : t.opening memory (input.redact models) (backend.redact models) assets
      = (t.opening memory input backend assets).redact models := rfl
  rw [runWith_eq, runWith_eq, hopening, ← finish_redact]
  have hschema : (input.redact models).schema = input.schema := rfl
  rw [hschema, on_steps_redact hc]

end Transform

/-! ### Two runs -/

/-- A summary that tells what another one does, up to the secrets of models of which `differ`
holds. -/
def Summary.SameBut (differ : String → Prop) (s s' : Summary) : Prop :=
  s' = { s with resources := s'.resources } ∧ s.resources.SameBut differ s'.resources

theorem Summary.sameBut_of_redact_eq {differ : String → Prop} (hd : ∀ model ∈ models, differ model)
    {s s' : Summary} (h : s.redact models = s'.redact models) : s.SameBut differ s' := by
  have hresources := ResourceGraph.sameBut_of_redact_eq hd (congrArg Summary.resources h)
  cases s
  cases s'
  obtain ⟨rfl, rfl, rfl, -, rfl⟩ := Summary.mk.inj h
  exact ⟨rfl, hresources⟩

/-- Two runs that are the same up to the secrets of models of which `differ` holds. -/
structure RunReport.SameBut (differ : String → Prop) (p q : RunReport) : Prop where
  /-- Both end well, and tell the same up to resources, or both end with the same fault. -/
  result    : match p.result, q.result with
    | .ok s, .ok s'      => s.SameBut differ s'
    | .error f, .error g => g = f
    | _, _               => False
  /-- The caller receives the same diagnostics. -/
  drains    : q.drains = p.drains
  /-- They leave the same trace, with the diagnostics where these go there. -/
  trace     : q.final.trace = p.final.trace
  /-- They start the same passes. -/
  started   : q.final.stages.map (·.pass) = p.final.stages.map (·.pass)
  schema    : q.final.passes.context.schema = p.final.passes.context.schema
  memory    : q.final.passes.memory = p.final.passes.memory
  assets    : q.final.assets = p.final.assets
  resources : p.final.passes.context.resources.SameBut differ q.final.passes.context.resources
  backend   : p.final.backend.SameBut differ q.final.backend

namespace RunReport

theorem sameBut_of_redact_eq {differ : String → Prop} (hd : ∀ model ∈ models, differ model)
    {p q : RunReport} (h : p.redact models = q.redact models) : p.SameBut differ q where
  result := by
    have hresult : p.result.map (Summary.redact models) = q.result.map (Summary.redact models) :=
      congrArg RunReport.result h
    cases hp : p.result <;> cases hq : q.result <;> rw [hp, hq] at hresult
    · exact (Except.error.inj hresult).symm
    · cases hresult
    · cases hresult
    · exact Summary.sameBut_of_redact_eq hd (Except.ok.inj hresult)
  drains := (congrArg RunReport.drains h).symm
  trace := (congrArg (·.final.trace) h).symm
  started := by
    have hpass : ∀ stages : List Stage,
        (stages.map (Stage.redact models)).map (·.pass) = stages.map (·.pass) := fun _ =>
      List.map_map
    rw [← hpass q.final.stages, ← hpass p.final.stages]
    exact (congrArg (·.final.stages.map (·.pass)) h).symm
  schema := (congrArg (·.final.passes.context.schema) h).symm
  memory := (congrArg (·.final.passes.memory) h).symm
  assets := (congrArg (·.final.assets) h).symm
  resources := ResourceGraph.sameBut_of_redact_eq hd
    (congrArg (·.final.passes.context.resources) h)
  backend := Backend.sameBut_of_redact_eq hd (congrArg (·.final.backend) h)

end RunReport

namespace Transform

theorem chain_blind {config : Config} {t : Transform} (h : (ofConfig config []).1 = .ok t)
    (models : List String) : ∀ e ∈ t.chain, Blind (PassState.redact models) e.pass.apply := by
  intro e he
  rw [chain_ofConfig h, Chain.build, List.map_nil, List.append_nil] at he
  exact Chain.builtin_blind he

/-- Two runs are the same up to the secrets of some models where what they are given is. -/
theorem sameBut_of_redact_input {differ : String → Prop} (hd : ∀ model ∈ models, differ model)
    {t : Transform} (hc : ∀ e ∈ t.chain, Blind (PassState.redact models) e.pass.apply)
    {input input' : RunInput} (hinput : input.redact models = input'.redact models)
    (provide : AssetProvider) (memory : Memory) (backend : Backend) (assets : AssetStore)
    (sink : Sink) : (t.runWith provide memory input backend assets sink).SameBut differ
      (t.runWith provide memory input' backend assets sink) := by
  refine RunReport.sameBut_of_redact_eq hd ?_
  rw [← runWith_redact hc, ← runWith_redact hc, hinput]

/-- **Secrets stay where they belong.** Of two runs of a chain without custom passes that differ in
secrets only, both end well or both with the same fault, and nothing that they leave differs but
these secrets, each in the datasource of its model. -/
theorem sameBut_of_ofConfig {config : Config} {t : Transform} (h : (ofConfig config []).1 = .ok t)
    (provide : AssetProvider) (memory : Memory) (input : RunInput)
    {secrets : Dict ConnectionSecrets} (hkeys : input.datasourceSecrets.keys = secrets.keys)
    (backend : Backend) (assets : AssetStore) (sink : Sink) :
    (t.runWith provide memory input backend assets sink).SameBut
      (fun model => input.datasourceSecrets.find? model ≠ secrets.find? model)
      (t.runWith provide memory { input with datasourceSecrets := secrets } backend assets
        sink) := by
  let models := ConnectionSecrets.differing input.datasourceSecrets secrets
  let input' := { input with datasourceSecrets := secrets }
  have hinput : input.redact models = input'.redact models :=
    congrArg (fun d => { input with datasourceSecrets := d })
      (ConnectionSecrets.redact_differing hkeys)
  exact sameBut_of_redact_input (fun _ => ConnectionSecrets.ne_of_mem_differing)
    (chain_blind h models) hinput provide memory backend assets sink

/-- A transform of the passes that every chain starts with. -/
def plain : Transform := ofChain {} (Chain.build {} [])

/-- A model in a relational database that is reached with some secrets. -/
def hostedPosts (secrets : ConnectionSecrets) : RunInput where
  schema            := "type Post @model \x7b title: String \x7d"
  modelDatasources  := .ofList [("Post", ⟨.mysql, false⟩)]
  datasourceSecrets := .ofList [("Post", secrets)]

/-- Of two runs with other secrets, each has its own in the datasource of the model. -/
theorem sameBut_hostedPosts :
    let secrets  : ConnectionSecrets := ⟨"/user", "/password", "/host", "/database", "/port"⟩
    let secrets' : ConnectionSecrets := ⟨"/admin", "/word", "/server", "/db", "/3306"⟩
    (ofConfig {} []).1 = .ok plain
      ∧ (hostedPosts secrets).datasourceSecrets.keys = (hostedPosts secrets').datasourceSecrets.keys
      ∧ (plain.run {} (hostedPosts secrets) {} ⟨"bucket", ∅⟩ .caller).SameBut
          (fun model => (hostedPosts secrets).datasourceSecrets.find? model
            ≠ (hostedPosts secrets').datasourceSecrets.find? model)
          (plain.run {} (hostedPosts secrets') {} ⟨"bucket", ∅⟩ .caller)
      ∧ [secrets, secrets'].map (fun s =>
          ((plain.run {} (hostedPosts s) {} ⟨"bucket", ∅⟩ .caller).final.backend.resourcesIn
            (.nested "Post")).filterMap (·.get? "secrets"))
        = [[secrets.encode], [secrets'.encode]] := by
  intro secrets secrets'
  have hbuilt : (ofConfig {} []).1 = .ok plain := rfl
  have hkeys : (hostedPosts secrets).datasourceSecrets.keys
      = (hostedPosts secrets').datasourceSecrets.keys := rfl
  exact ⟨hbuilt, hkeys, sameBut_of_ofConfig hbuilt _ _ (hostedPosts secrets) hkeys _ _ _,
    by decide +kernel⟩

end Transform

end ApiCompiler
