import ApiCompiler.Proofs.Synthesis.Complete
import ApiCompiler.Proofs.Transform.Diagnostics

/-!
# Transforms — what a failed run leaves of a backend

A run leaves its backend alone until it hands over the graph of its resources. From there on nothing
is taken back: where a stack refuses a resource, those before it stay where they are.

* `handedOver`: the graph that a run hands to the backend, if it gets that far.
* `backend_of_error`: a failed run leaves the resources before the first that is refused, and no
  output; the backend is as it was exactly where there are none.
-/

namespace ApiCompiler.Transform

open ApiCompiler.Action

/-! ### What comes before the synthesis -/

/-- The steps that come before the synthesis. -/
def preparingSteps (t : Transform) (provide : AssetProvider) (schema : String) :
    RunAction (List String × String × AssetRef) := do
  parseStep schema
  let passes        ← t.passStep
  let (text, asset) ← t.exportStep provide
  return (passes, text, asset)

/-- What is done when the graph is there. -/
def deployingSteps (t : Transform) (p : List String × String × AssetRef) : RunAction Summary := do
  let report ← t.synthesisStep
  return ⟨p.1, p.2.1, p.2.2.uri, (← context).resources, report.nestedStacks⟩

theorem steps_eq_deploying (t : Transform) (provide : AssetProvider) (schema : String) :
    t.steps provide schema = t.preparingSteps provide schema >>= t.deployingSteps := by
  simp only [steps, preparingSteps, deployingSteps, bind_assoc, pure_bind]

/-- What does not touch the backend. -/
def SameBackend (s t : RunState) : Prop := t.backend = s.backend

theorem SameBackend.trans {s t u : RunState} (h : SameBackend s t) (h' : SameBackend t u) :
    SameBackend s u :=
  Eq.trans h' h

theorem parseStep_sameBackend (schema : String) (s : RunState) :
    SameBackend s ((parseStep schema).on s).2 := by
  cases hd : Document.parse schema with
  | error f =>
    obtain ⟨trace, h⟩ := on_parseStep_of_error hd s
    rw [h]
    rfl
  | ok d =>
    obtain ⟨trace, h⟩ := on_parseStep_of_ok hd s
    rw [h]
    rfl

theorem applyEntry_sameBackend (e : Entry) (s : RunState) :
    SameBackend s ((applyEntry e).on s).2 := by
  rw [on_applyEntry]
  split <;> rfl

theorem passStep_sameBackend (t : Transform) (s : RunState) :
    SameBackend s (t.passStep.on s).2 := by
  rw [passStep, on_emit_bind]
  refine bind_rel (R := SameBackend) SameBackend.trans ?_ fun _ _ _ => rfl
  exact forEach_rel (R := SameBackend) (P := fun _ _ => True) (fun _ => rfl) SameBackend.trans
    (fun _ _ _ _ _ => trivial) (fun e _ u _ => applyEntry_sameBackend e u) fun _ _ => trivial

theorem exportStep_sameBackend (t : Transform) (provide : AssetProvider) (s : RunState) :
    SameBackend s ((t.exportStep provide).on s).2 := by
  rw [exportStep, on_emit_bind, on_context_bind, on_get_bind, on_ofExcept_bind]
  split
  · simp only []
    rw [on_change_bind]
    rfl
  · rfl

/-- The backend is left alone until the graph is there. -/
theorem preparingSteps_sameBackend (t : Transform) (provide : AssetProvider) (schema : String)
    (s : RunState) : SameBackend s ((t.preparingSteps provide schema).on s).2 := by
  rw [preparingSteps]
  refine bind_rel (R := SameBackend) SameBackend.trans (parseStep_sameBackend schema s)
    fun _ u _ => ?_
  refine bind_rel (R := SameBackend) SameBackend.trans (t.passStep_sameBackend u) fun _ v _ => ?_
  exact bind_rel (R := SameBackend) SameBackend.trans (t.exportStep_sameBackend provide v)
    fun _ _ _ => rfl

/-- The graph of resources that a run hands to the backend, if it gets that far. -/
def handedOver (t : Transform) (provide : AssetProvider) (memory : Memory) (input : RunInput)
    (backend : Backend) (assets : AssetStore) : Option ResourceGraph :=
  match (t.preparingSteps provide input.schema).on (t.opening memory input backend assets) with
  | (.ok _, s)    => some s.passes.context.resources
  | (.error _, _) => none

/-! ### The synthesis -/

/-- What a failed run leaves of a backend to which it handed a graph: the resources before the first
that is refused, and no output. -/
def StopsAt (mapping : Dict String) (g : ResourceGraph) (before after : Backend) : Prop :=
  ∃ xs r ys, g.toList = xs ++ r :: ys ∧ Synthesis.Received mapping xs before after
    ∧ after.holds (Synthesis.destination mapping r) r.id = true ∧ (after = before ↔ xs = [])

theorem on_synthesisStep {t : Transform} {s : RunState} {result : Except Fault Synthesis.Report}
    {done : Synthesis.State}
    (h : synthesize s.passes.context.resources t.stackMapping
      s.passes.context.parameters.enableTransformerCfnOutputs s.backend = (result, done)) :
    ∃ trace, t.synthesisStep.on s = (result, { s with backend := done.backend, trace }) := by
  rw [synthesisStep, on_emit_bind, on_get_bind]
  simp only []
  rw [on_change_bind, on_ofExcept, h]
  exact ⟨_, rfl⟩

theorem stopsAt_of_deployingSteps {t : Transform} {p : List String × String × AssetRef}
    {s u : RunState} {f : Fault} (h : (t.deployingSteps p).on s = (.error f, u)) :
    StopsAt t.stackMapping s.passes.context.resources s.backend u.backend := by
  rcases hs : synthesize s.passes.context.resources t.stackMapping
      s.passes.context.parameters.enableTransformerCfnOutputs s.backend with ⟨g | report, done⟩
  · obtain ⟨trace, hstep⟩ := on_synthesisStep hs
    rw [deployingSteps, on_bind_error hstep] at h
    cases h
    obtain ⟨xs, r, ys, hlist, hreceived, hheld⟩ := Synthesis.received_of_error hs
    refine ⟨xs, r, ys, hlist, hreceived, hheld, fun he => ?_, fun hx => ?_⟩
    · exact (he ▸ hreceived).eq_nil_of_eq
    · subst hx
      exact hreceived.eq_of_nil
  · obtain ⟨trace, hstep⟩ := on_synthesisStep hs
    rw [deployingSteps, on_bind_ok hstep, on_context_bind, on_pure] at h
    cases h

theorem backend_finish (sink : Sink) (result : Except Fault Summary) (s : RunState) :
    (finish sink result s).final.backend = s.backend := by
  cases sink <;> rfl

/-- **A failed run leaves of a backend what it had, and the resources before the first that is
refused.** Where no graph is handed over, because a text cannot be read, a pass fails or is held, or
an asset is refused, the backend is as it was; else it is exactly where the first resource of the
graph is refused. Outputs and metadata are as they were in any case. -/
theorem backend_of_error {t : Transform} {provide : AssetProvider} {memory : Memory}
    {input : RunInput} {backend : Backend} {assets : AssetStore} {sink : Sink} {f : Fault}
    (h : (t.runWith provide memory input backend assets sink).result = .error f) :
    let after := (t.runWith provide memory input backend assets sink).final.backend
    match t.handedOver provide memory input backend assets with
    | none   => after = backend
    | some g => StopsAt t.stackMapping g backend after := by
  have hrun : t.runWith provide memory input backend assets sink =
      finish sink ((t.steps provide input.schema).on (t.opening memory input backend assets)).1
        ((t.steps provide input.schema).on (t.opening memory input backend assets)).2 := rfl
  rw [hrun, result_finish, steps_eq_deploying] at h
  rw [hrun, backend_finish, steps_eq_deploying, handedOver]
  have hsame := t.preparingSteps_sameBackend provide input.schema
    (t.opening memory input backend assets)
  rcases hp : (t.preparingSteps provide input.schema).on
    (t.opening memory input backend assets) with ⟨g | p, s⟩
  · rw [hp] at hsame
    rw [on_bind_error hp]
    exact hsame
  · rw [hp] at hsame
    rw [on_bind_ok hp] at h ⊢
    have hstop := stopsAt_of_deployingSteps (Prod.ext h rfl)
    rwa [hsame] at hstop

/-! ### Two runs on one backend -/

/-- A run that is the first one on its backend. -/
def notesRun : RunReport :=
  (ofChain {} (Chain.build {} [])).run {}
    { schema := "type Note @model \x7b title: String \x7d" } {} ⟨"test-bucket", ∅⟩ .caller

/-- A run of the same transform on the backend that the first one leaves. -/
def authorsRun : RunReport :=
  (ofChain {} (Chain.build {} [])).run notesRun.final.passes.memory
    { schema := "type Author @model \x7b name: String \x7d" } notesRun.final.backend
    notesRun.final.assets .caller

theorem result_authorsRun : authorsRun.result
    = .error (.backend "resource 'GraphQLAPI' already exists in stack 'root'") := by
  decide +kernel

/-- The second run stops at the API, which the first one has put there. -/
theorem backend_of_authorsRun :
    authorsRun.result = .error (.backend "resource 'GraphQLAPI' already exists in stack 'root'")
      ∧ match (ofChain {} (Chain.build {} [])).handedOver AssetStore.provide
          notesRun.final.passes.memory { schema := "type Author @model \x7b name: String \x7d" }
          notesRun.final.backend notesRun.final.assets with
        | none   => authorsRun.final.backend = notesRun.final.backend
        | some g => StopsAt ∅ g notesRun.final.backend authorsRun.final.backend :=
  ⟨result_authorsRun, backend_of_error result_authorsRun⟩

/-- The resources before the API stay behind, in a stack that was not there before. -/
theorem authorsRun_leaves_resources :
    authorsRun.result = .error (.backend "resource 'GraphQLAPI' already exists in stack 'root'")
      ∧ authorsRun.final.backend ≠ notesRun.final.backend
      ∧ notesRun.final.backend.stack? (.nested "Author") = none
      ∧ (authorsRun.final.backend.resourcesIn (.nested "Author")).map (·.id)
        = ["AuthorDataSource", "AuthorTable"] :=
  ⟨result_authorsRun, by decide +kernel⟩

end ApiCompiler.Transform
