import ApiCompiler.Proofs.Action
import ApiCompiler.Proofs.Resource.Redacted
import ApiCompiler.Synthesis
import Mathlib.Data.List.Forall2

/-!
# Synthesis — the secrets that it does not read

Where a resource goes is said by its id and its stack. So the synthesis of a graph in which the
secrets of some models are blanked out, on a backend in which they are too, does what it does with
the secrets, blanked out.

* `Backend.redact`: a backend with the secrets of some models blanked out.
* `synthesize_redact`: a synthesis with and without secrets.
* `Backend.SameBut`: what is handed over, up to the secrets of some models.
-/

namespace ApiCompiler

open ApiCompiler.Action

variable {models : List String}

namespace Backend

/-- The backend with the secrets of some models blanked out. -/
def redact (models : List String) (b : Backend) : Backend :=
  { b with
    root   := b.root.map (List.map (Resource.redact models))
    nested := b.nested.mapValues fun _ => List.map (Resource.redact models) }

theorem stack?_redact (models : List String) (b : Backend) (s : StackRef) :
    (b.redact models).stack? s = (b.stack? s).map (List.map (Resource.redact models)) := by
  cases s with
  | root => rfl
  | nested name => exact Dict.find?_mapValues _ _ _

theorem resourcesIn_redact (models : List String) (b : Backend) (s : StackRef) :
    (b.redact models).resourcesIn s = (b.resourcesIn s).map (Resource.redact models) := by
  rw [resourcesIn, resourcesIn, stack?_redact]
  cases b.stack? s <;> rfl

theorem holds_redact (models : List String) (b : Backend) (s : StackRef) (id : String) :
    (b.redact models).holds s id = b.holds s id := by
  rw [holds, holds, resourcesIn_redact, List.any_map]
  exact congrArg (List.any _) (funext fun r => by rw [Function.comp, Resource.id_redact])

theorem setStack_redact (b : Backend) (s : StackRef) (resources : List Resource) :
    (b.redact models).setStack s (resources.map (Resource.redact models))
      = (b.setStack s resources).redact models := by
  cases s with
  | root => rfl
  | nested name => simp only [setStack, redact, Dict.mapValues_insert]

theorem openStack_redact (b : Backend) (name : String) :
    (b.redact models).openStack name = (b.openStack name).redact models := by
  rw [openStack, openStack, resourcesIn_redact, setStack_redact]

theorem addResource_redact (b : Backend) (s : StackRef) (r : Resource) :
    (b.redact models).addResource s (r.redact models)
      = (b.addResource s r).map (redact models) := by
  rw [addResource, addResource, Resource.id_redact, holds_redact]
  split
  · rfl
  · have hlist : [r.redact models] = [r].map (Resource.redact models) := rfl
    rw [resourcesIn_redact, hlist, ← List.map_append, setStack_redact]
    rfl

theorem addOutput_redact (b : Backend) (name value : String) :
    (b.redact models).addOutput name value = (b.addOutput name value).map (redact models) := by
  rw [addOutput, addOutput]
  split <;> rfl

/-- A backend that has what another one has, up to the secrets of models of which `differ` holds. -/
structure SameBut (differ : String → Prop) (b b' : Backend) : Prop where
  placed   : ∀ s, Option.Rel (List.Forall₂ (Resource.SameBut differ)) (b.stack? s) (b'.stack? s)
  outputs  : b'.outputs = b.outputs
  metadata : b'.metadata = b.metadata
  writes   : b'.metadataWrites = b.metadataWrites

variable {differ : String → Prop}

theorem forall₂_of_redact_eq (hd : ∀ model ∈ models, differ model) {rs rs' : List Resource}
    (h : rs.map (Resource.redact models) = rs'.map (Resource.redact models)) :
    List.Forall₂ (Resource.SameBut differ) rs rs' := by
  have heq : List.Forall₂ Eq (rs.map (Resource.redact models))
      (rs'.map (Resource.redact models)) := by
    rw [List.forall₂_eq_eq_eq, h]
  rw [List.forall₂_map_left_iff, List.forall₂_map_right_iff] at heq
  exact heq.imp fun _ _ => Resource.sameBut_of_redact_eq hd

/-- Backends that are the same without the secrets of some models differ at most in these. -/
theorem sameBut_of_redact_eq (hd : ∀ model ∈ models, differ model) {b b' : Backend}
    (h : b.redact models = b'.redact models) : b.SameBut differ b' where
  placed s := by
    have hs : (b.redact models).stack? s = (b'.redact models).stack? s := by rw [h]
    rw [stack?_redact, stack?_redact] at hs
    cases hb : b.stack? s <;> cases hb' : b'.stack? s <;> rw [hb, hb'] at hs
    · exact .none
    · cases hs
    · cases hs
    · exact .some (forall₂_of_redact_eq hd (Option.some.inj hs))
  outputs := (congrArg Backend.outputs h).symm
  metadata := (congrArg Backend.metadata h).symm
  writes := (congrArg Backend.metadataWrites h).symm

end Backend

namespace Synthesis

/-- A synthesis with the secrets of some models blanked out. -/
def State.redact (models : List String) (s : State) : State :=
  { s with backend := s.backend.redact models }

theorem destination_redact (mapping : Dict String) (r : Resource) :
    destination mapping (r.redact models) = destination mapping r := by
  rw [destination, destination, stackName?, stackName?, Resource.id_redact, Resource.stack_redact]

theorem emit_blind (level : LogLevel) (message : String) :
    Blind (State.redact models) (emit level message) :=
  blind_change fun _ => rfl

theorem openFor_blind (stack : StackRef) : Blind (State.redact models) (openFor stack) := by
  cases stack with
  | root => exact blind_pure ()
  | nested name =>
    refine mirrors_get_bind fun s => ?_
    change Blind _ (if s.opened.contains name then _ else _)
    split
    · exact blind_pure ()
    · refine blind_bind (blind_change fun t => ?_) fun _ => emit_blind _ _
      simp only [State.redact, Backend.openStack_redact]

theorem onBackend_mirrors {f g : Backend → Except Fault Backend}
    (h : ∀ b, g (b.redact models) = (f b).map (Backend.redact models)) :
    Mirrors (State.redact models) (onBackend f) (onBackend g) := by
  intro s
  have hs : (s.redact models).backend = s.backend.redact models := rfl
  rw [onBackend, onBackend, on_get_bind, on_get_bind, on_ofExcept_bind, on_ofExcept_bind, hs, h]
  cases f s.backend <;> rfl

theorem place_mirrors (mapping : Dict String) (r : Resource) :
    Mirrors (State.redact models) (place mapping r) (place mapping (r.redact models)) := by
  rw [place, place, destination_redact]
  exact mirrors_bind (openFor_blind _) fun _ =>
    onBackend_mirrors fun b => b.addResource_redact _ r

theorem output_blind (name value : String) : Blind (State.redact models) (output name value) := by
  refine mirrors_get_bind fun s => ?_
  refine blind_bind (onBackend_mirrors fun b => b.addOutput_redact name value) fun _ => ?_
  split
  · exact emit_blind _ _
  · exact blind_pure ()

theorem run_mirrors (g : ResourceGraph) (mapping : Dict String) (outputs : Bool) :
    Mirrors (State.redact models) (run g mapping outputs)
      (run (g.redact models) mapping outputs) := by
  rw [run, run, g.size_redact, g.toList_redact, g.contains_redact]
  refine mirrors_bind (emit_blind _ _) fun _ => mirrors_bind
    (mirrors_forEach fun r _ => place_mirrors mapping r) fun _ => ?_
  dsimp only
  split
  · refine blind_bind (output_blind _ _) fun _ => blind_bind (output_blind _ _) fun _ => ?_
    exact mirrors_get_bind fun _ => blind_bind (emit_blind _ _) fun _ => blind_pure _
  · exact mirrors_get_bind fun _ => blind_bind (emit_blind _ _) fun _ => blind_pure _

end Synthesis

/-- A synthesis without the secrets of some models does what it does with them, blanked out. -/
theorem synthesize_redact (g : ResourceGraph) (mapping : Dict String) (outputs : Bool)
    (b : Backend) :
    synthesize (g.redact models) mapping outputs (b.redact models)
      = ((synthesize g mapping outputs b).1, (synthesize g mapping outputs b).2.redact models) :=
  Synthesis.run_mirrors g mapping outputs { backend := b }

end ApiCompiler
