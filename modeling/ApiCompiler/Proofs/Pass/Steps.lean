import ApiCompiler.Pass.Basic
import ApiCompiler.Proofs.Action
import Mathlib.Order.Defs.Unbundled

/-!
# Passes — what the steps of a pass leave

* `on_examine_bind`: a computation on the context changes nothing, and ends the pass where it
  refuses.
* `on_context_bind`, `on_memory_bind`: what is read is there.
* `Follows`: a step leads to states in a relation to those that it starts from, whatever it ends
  with. So does what is made of such steps.
-/

namespace ApiCompiler.PassAction

variable {α β : Type}

theorem on_context_bind (f : Context → PassAction β) (s : PassState) :
    (context >>= f).on s = (f s.context).on s :=
  Action.on_bind_ok (by rw [context, Action.on_get_bind, Action.on_pure]) f

theorem on_memory_bind (f : Memory → PassAction β) (s : PassState) :
    (memory >>= f).on s = (f s.memory).on s :=
  Action.on_bind_ok (by rw [memory, Action.on_get_bind, Action.on_pure]) f

theorem on_onContext (f : Context → Context) (s : PassState) :
    (onContext f).on s = (.ok (), { s with context := f s.context }) := rfl

theorem on_onMemory (f : Memory → Memory) (s : PassState) :
    (onMemory f).on s = (.ok (), { s with memory := f s.memory }) := rfl

theorem on_log (level : LogLevel) (message : String) (s : PassState) :
    (log level message).on s = (.ok (), { s with context := s.context.log level message }) := rfl

theorem on_onContext_bind (f : Context → Context) (g : Unit → PassAction β) (s : PassState) :
    (onContext f >>= g).on s = (g ()).on { s with context := f s.context } :=
  Action.on_bind_ok (on_onContext f s) g

theorem on_onMemory_bind (f : Memory → Memory) (g : Unit → PassAction β) (s : PassState) :
    (onMemory f >>= g).on s = (g ()).on { s with memory := f s.memory } :=
  Action.on_bind_ok (on_onMemory f s) g

theorem on_log_bind (level : LogLevel) (message : String) (g : Unit → PassAction β)
    (s : PassState) :
    (log level message >>= g).on s
      = (g ()).on { s with context := s.context.log level message } :=
  Action.on_bind_ok (on_log level message s) g

theorem on_examine (f : Context → Except Fault α) (s : PassState) :
    (examine f).on s = (f s.context, s) := by
  rw [examine, on_context_bind, Action.on_ofExcept]

/-- A computation on the context changes nothing, and where it refuses, nothing follows. -/
theorem on_examine_bind (f : Context → Except Fault α) (g : α → PassAction β) (s : PassState) :
    (examine f >>= g).on s =
      match f s.context with
      | .ok a    => (g a).on s
      | .error e => (.error e, s) := by
  rw [Action.on_bind, on_examine]
  rcases f s.context with _ | _ <;> rfl

theorem on_reading (role : Role) (s : PassState) :
    (reading role).on s
      = (if (s.leases.of role).canRead then .ok () else .error (.passBusy role.name), s) := by
  rw [reading, Action.on_get_bind]
  split <;> rfl

theorem on_writing (role : Role) (s : PassState) :
    (writing role).on s
      = (if (s.leases.of role).canWrite then .ok () else .error (.passBusy role.name), s) := by
  rw [writing, Action.on_get_bind]
  split <;> rfl

/-- What follows a check is done where the check lets it pass. -/
theorem on_guard (p : Prop) [Decidable p] (e : Fault) (f : Unit → PassAction β) (s : PassState) :
    (if p then throw e >>= f else f ()).on s = if p then (.error e, s) else (f ()).on s := by
  split
  · exact Action.on_throw_bind e f s
  · rfl

/-! ### Relations between states -/

variable {R : PassState → PassState → Prop}

/-- A step leads to states in a relation to those that it starts from, whatever it ends with. -/
def Follows (R : PassState → PassState → Prop) (x : PassAction α) : Prop := ∀ s, R s (x.on s).2

theorem Follows.of_ok {x : PassAction α} {s t : PassState} {a : α} (hx : Follows R x)
    (h : x.on s = (.ok a, t)) : R s t := by
  have := hx s
  rwa [h] at this

variable [IsPreorder PassState R]

/-- A step that changes nothing. -/
theorem follows_of_unchanged {x : PassAction α} (h : ∀ s, (x.on s).2 = s) : Follows R x :=
  fun s => (h s).symm ▸ refl_of R s

theorem follows_pure (a : α) : Follows R (pure a) := follows_of_unchanged fun _ => rfl

theorem follows_throw (e : Fault) : Follows R (throw e : PassAction α) :=
  follows_of_unchanged fun _ => rfl

theorem follows_context : Follows R context :=
  follows_of_unchanged fun s => by rw [context, Action.on_get_bind, Action.on_pure]

theorem follows_memory : Follows R memory :=
  follows_of_unchanged fun s => by rw [memory, Action.on_get_bind, Action.on_pure]

theorem follows_ofExcept (r : Except Fault α) : Follows R (Action.ofExcept r) :=
  follows_of_unchanged fun _ => rfl

theorem follows_examine (f : Context → Except Fault α) : Follows R (examine f) :=
  follows_of_unchanged fun s => by rw [on_examine]

theorem follows_reading (role : Role) : Follows R (reading role) :=
  follows_of_unchanged fun s => by rw [on_reading]

theorem follows_writing (role : Role) : Follows R (writing role) :=
  follows_of_unchanged fun s => by rw [on_writing]

theorem follows_bind {x : PassAction α} {f : α → PassAction β} (hx : Follows R x)
    (hf : ∀ a, Follows R (f a)) : Follows R (x >>= f) :=
  fun s => Action.bind_rel (R := R) (fun h h' => trans_of R h h') (hx s) fun a t _ => hf a t

theorem follows_forEach {f : α → PassAction Unit} {as : List α}
    (hf : ∀ a ∈ as, Follows R (f a)) : Follows R (Action.forEach f as) := by
  induction as with
  | nil => exact follows_pure ()
  | cons a as ih =>
    exact follows_bind (hf a List.mem_cons_self) fun _ =>
      ih fun b hb => hf b (List.mem_cons_of_mem a hb)

theorem follows_guard {p : Prop} [Decidable p] {e : Fault} {f : Unit → PassAction β}
    (h : Follows R (f ())) : Follows R (if p then throw e >>= f else f ()) := by
  split
  · exact follows_bind (follows_throw e) fun _ => h
  · exact h

end ApiCompiler.PassAction

/-- Changes that touch nothing but resources touch nothing else when they are made one after the
other. -/
theorem ApiCompiler.Context.foldl_eq_with {α : Type} {change : Context → α → Context}
    (h : ∀ c a, ∃ resources, change c a = { c with resources }) (as : List α) (c : Context) :
    ∃ resources, as.foldl change c = { c with resources } := by
  induction as generalizing c with
  | nil => exact ⟨_, rfl⟩
  | cons a as ih =>
    obtain ⟨_, hfirst⟩ := h c a
    obtain ⟨_, hrest⟩ := ih (change c a)
    rw [List.foldl_cons, hrest, hfirst]
    exact ⟨_, rfl⟩
