import ApiCompiler.Fault

/-!
# Actions — steps that change a state and may fail

A step that fails keeps the changes that it made before.

* `on_bind_ok`, `on_bind_error`, `on_bind_eq_ok`: how two steps follow one another.
* `on_forEach_cons`, `on_forEach_append`: a list of steps is done item by item and part by part, up
  to the first that fails.
-/

namespace ApiCompiler

/-- A step on a state, which may stop with a fault. -/
abbrev Action (σ α : Type) := ExceptT Fault (StateM σ) α

namespace Action

variable {σ τ α β : Type}

/-- What a step ends with, and the state it leaves. -/
def on (x : Action σ α) (s : σ) : Except Fault α × σ := StateT.run (ExceptT.run x) s

/-- The step that only changes the state. -/
def change (f : σ → σ) : Action σ Unit := modify f

/-- The step that fails where `r` does and has the value of `r` otherwise. -/
def ofExcept (r : Except Fault α) : Action σ α := fun s => (r, s)

/-- A step on a part of the state. -/
def within (get : σ → τ) (set : σ → τ → σ) (x : Action τ α) : Action σ α := fun s =>
  let (r, t) := x.on (get s)
  (r, set s t)

/-- One step for each item, in order. -/
def forEach (f : α → Action σ Unit) : List α → Action σ Unit
  | []      => pure ()
  | a :: as => do f a; forEach f as

@[simp] theorem on_pure (a : α) (s : σ) : (pure a : Action σ α).on s = (.ok a, s) := rfl

@[simp] theorem on_throw (e : Fault) (s : σ) : (throw e : Action σ α).on s = (.error e, s) := rfl

@[simp] theorem on_get (s : σ) : (get : Action σ σ).on s = (.ok s, s) := rfl

@[simp] theorem on_change (f : σ → σ) (s : σ) : (change f).on s = (.ok (), f s) := rfl

@[simp] theorem on_ofExcept (r : Except Fault α) (s : σ) : (ofExcept r).on s = (r, s) := rfl

theorem on_within (get : σ → τ) (set : σ → τ → σ) (x : Action τ α) (s : σ) :
    (within get set x).on s = ((x.on (get s)).1, set s (x.on (get s)).2) := rfl

theorem on_bind (x : Action σ α) (f : α → Action σ β) (s : σ) :
    (x >>= f).on s =
      match x.on s with
      | (.ok a, t)    => (f a).on t
      | (.error e, t) => (.error e, t) := by
  have follow : ∀ p : Except Fault α × σ,
      ExceptT.bindCont f p.1 p.2 =
        match p with
        | (.ok a, t)    => (f a).on t
        | (.error e, t) => (.error e, t) := by
    rintro ⟨_ | _, _⟩ <;> rfl
  exact follow (x.on s)

/-- A step that follows a successful one starts from its state. -/
theorem on_bind_ok {x : Action σ α} {a : α} {s t : σ} (h : x.on s = (.ok a, t))
    (f : α → Action σ β) : (x >>= f).on s = (f a).on t := by
  rw [on_bind, h]

/-- Nothing follows a step that failed. -/
theorem on_bind_error {x : Action σ α} {e : Fault} {s t : σ} (h : x.on s = (.error e, t))
    (f : α → Action σ β) : (x >>= f).on s = (.error e, t) := by
  rw [on_bind, h]

/-- Two steps succeed when the second one does from where the first one succeeded. -/
theorem on_bind_eq_ok {x : Action σ α} {f : α → Action σ β} {s u : σ} {b : β} :
    (x >>= f).on s = (.ok b, u) ↔ ∃ a t, x.on s = (.ok a, t) ∧ (f a).on t = (.ok b, u) := by
  rw [on_bind]
  rcases x.on s with ⟨_ | a, t⟩
  · simp
  · exact ⟨fun h => ⟨a, t, rfl, h⟩, by rintro ⟨_, _, ⟨⟩, h⟩; exact h⟩

theorem on_forEach_cons (f : α → Action σ Unit) (a : α) (as : List α) (s : σ) :
    (forEach f (a :: as)).on s =
      match (f a).on s with
      | (.ok _, t)    => (forEach f as).on t
      | (.error e, t) => (.error e, t) := by
  rw [forEach, on_bind]
  rcases (f a).on s with ⟨_ | _, _⟩ <;> rfl

theorem on_forEach_append (f : α → Action σ Unit) (xs ys : List α) (s : σ) :
    (forEach f (xs ++ ys)).on s =
      match (forEach f xs).on s with
      | (.ok _, t)    => (forEach f ys).on t
      | (.error e, t) => (.error e, t) := by
  induction xs generalizing s with
  | nil => rfl
  | cons a as ih =>
    rw [List.cons_append, on_forEach_cons, on_forEach_cons]
    rcases (f a).on s with ⟨_ | _, t⟩
    · rfl
    · exact ih t

end Action

end ApiCompiler
