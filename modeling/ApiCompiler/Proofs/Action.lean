import ApiCompiler.Action

/-!
# Actions — what steps keep, and what they cannot tell

* `forEach_rel`: a relation that each step of a list keeps is kept by the whole list, wherever the
  list stops.
* `forEach_cons_ok`, `forEach_append_ok`: a list of steps succeeds where its parts do, one after
  the other.
* `forEach_invariant`: what each step of a list that succeeds keeps.
* `forEach_first`, `forEach_latest`: what is there where the first step counts, or the last.
* `Mirrors`, `Blind`: steps that do the same on states that look alike; what is made of such steps
  does so too.
-/

namespace ApiCompiler.Action

variable {σ τ α β : Type}

theorem on_get_bind (f : σ → Action σ β) (s : σ) :
    ((get : Action σ σ) >>= f).on s = (f s).on s :=
  on_bind_ok (on_get s) f

theorem on_change_bind (g : σ → σ) (f : Unit → Action σ β) (s : σ) :
    (change g >>= f).on s = (f ()).on (g s) :=
  on_bind_ok (on_change g s) f

theorem on_throw_bind (e : Fault) (f : α → Action σ β) (s : σ) :
    ((throw e : Action σ α) >>= f).on s = (.error e, s) :=
  on_bind_error (on_throw e s) f

theorem on_ofExcept_bind (r : Except Fault α) (f : α → Action σ β) (s : σ) :
    (ofExcept r >>= f).on s =
      match r with
      | .ok a    => (f a).on s
      | .error e => (.error e, s) := by
  cases r with
  | ok a => exact on_bind_ok rfl f
  | error e => exact on_bind_error rfl f

/-- Two steps keep a relation that each of them keeps, also where the first one fails. -/
theorem bind_rel {R : σ → σ → Prop} (trans : ∀ {s t u}, R s t → R t u → R s u)
    {x : Action σ α} {f : α → Action σ β} {s : σ} (hx : R s (x.on s).2)
    (hf : ∀ a t, x.on s = (.ok a, t) → R t ((f a).on t).2) : R s ((x >>= f).on s).2 := by
  rw [on_bind]
  rcases h : x.on s with ⟨_ | a, t⟩
  · rwa [h] at hx
  · rw [h] at hx
    exact trans hx (hf a t h)

/-- A list of steps keeps a relation that each of them keeps, wherever the list stops. What a step
needs may be what the steps before it keep. -/
theorem forEach_rel {R : σ → σ → Prop} (refl : ∀ s, R s s)
    (trans : ∀ {s t u}, R s t → R t u → R s u) {P : α → σ → Prop}
    (stable : ∀ a s t, P a s → R s t → P a t) {f : α → Action σ Unit} {as : List α}
    (hf : ∀ a ∈ as, ∀ s, P a s → R s ((f a).on s).2) {s : σ} (hs : ∀ a ∈ as, P a s) :
    R s ((forEach f as).on s).2 := by
  induction as generalizing s with
  | nil => exact refl s
  | cons a as ih =>
    have ha := hf a List.mem_cons_self s (hs a List.mem_cons_self)
    rw [forEach]
    refine bind_rel (R := R) trans ha fun _ t ht => ?_
    rw [ht] at ha
    exact ih (fun b hb => hf b (List.mem_cons_of_mem a hb)) fun b hb =>
      stable b s t (hs b (List.mem_cons_of_mem a hb)) ha

/-- A list of steps that succeeds is a first step that does and a rest that does after it. -/
theorem forEach_cons_ok {f : α → Action σ Unit} {a : α} {as : List α} {s u : σ} :
    (forEach f (a :: as)).on s = (.ok (), u) ↔
      ∃ t, (f a).on s = (.ok (), t) ∧ (forEach f as).on t = (.ok (), u) := by
  rw [forEach, on_bind_eq_ok]
  constructor
  · rintro ⟨_, t, h, h'⟩
    exact ⟨t, h, h'⟩
  · rintro ⟨t, h, h'⟩
    exact ⟨(), t, h, h'⟩

/-- Two lists of steps succeed one after the other. -/
theorem forEach_append_ok {f : α → Action σ Unit} {xs ys : List α} {s u : σ} :
    (forEach f (xs ++ ys)).on s = (.ok (), u) ↔
      ∃ t, (forEach f xs).on s = (.ok (), t) ∧ (forEach f ys).on t = (.ok (), u) := by
  rw [on_forEach_append]
  rcases (forEach f xs).on s with ⟨_ | _, t⟩
  · simp
  · exact ⟨fun h => ⟨t, rfl, h⟩, by rintro ⟨_, ⟨⟩, h⟩; exact h⟩

/-- What each step keeps where it succeeds, a list of steps keeps where it does. -/
theorem forEach_invariant {I : σ → Prop} {f : α → Action σ Unit} {as : List α}
    (hf : ∀ a ∈ as, ∀ s t, (f a).on s = (.ok (), t) → I s → I t) {s t : σ}
    (h : (forEach f as).on s = (.ok (), t)) (hs : I s) : I t := by
  induction as generalizing s with
  | nil =>
    cases h
    exact hs
  | cons a as ih =>
    obtain ⟨u, hu, h⟩ := forEach_cons_ok.1 h
    exact ih (fun b hb => hf b (List.mem_cons_of_mem a hb)) h (hf a List.mem_cons_self s u hu hs)

/-- Where each step of a list keeps what was there and else puts something of its own, the first
step that puts something counts. -/
theorem forEach_first {I : σ → Prop} {v : σ → Option β} {n : α → Option β}
    {f : α → Action σ Unit} {as : List α}
    (hf : ∀ a ∈ as, ∀ s t, (f a).on s = (.ok (), t) → I s →
      I t ∧ v t = (v s).or (n a)) {s t : σ}
    (h : (forEach f as).on s = (.ok (), t)) (hs : I s) :
    v t = (v s).or (as.findSome? n) := by
  induction as generalizing s with
  | nil =>
    cases h
    exact Option.or_none.symm
  | cons a as ih =>
    obtain ⟨u, hu, h⟩ := forEach_cons_ok.1 h
    obtain ⟨hI, hview⟩ := hf a List.mem_cons_self s u hu hs
    rw [ih (fun b hb => hf b (List.mem_cons_of_mem a hb)) h hI, hview, Option.or_assoc,
      List.findSome?_cons]
    cases n a <;> rfl

/-- Where each step keeps what was there or puts something of its own in its place, the last step
that puts something counts. -/
theorem forEach_latest {I : σ → Prop} {v : σ → Option β} {n : α → Option β}
    {f : α → Action σ Unit} {as : List α}
    (hf : ∀ a ∈ as, ∀ s t, (f a).on s = (.ok (), t) → I s →
      I t ∧ v t = (n a).or (v s)) {s t : σ}
    (h : (forEach f as).on s = (.ok (), t)) (hs : I s) :
    v t = (as.reverse.findSome? n).or (v s) := by
  induction as generalizing s with
  | nil =>
    cases h
    rfl
  | cons a as ih =>
    obtain ⟨u, hu, h⟩ := forEach_cons_ok.1 h
    obtain ⟨hI, hview⟩ := hf a List.mem_cons_self s u hu hs
    rw [ih (fun b hb => hf b (List.mem_cons_of_mem a hb)) h hI, hview, List.reverse_cons,
      List.findSome?_append, List.findSome?_singleton, Option.or_assoc]

/-- What a step that succeeds ends with. -/
theorem on_eq_of_isOk {x : Action σ Unit} {s : σ} (h : (x.on s).1.isOk = true) :
    x.on s = (.ok (), (x.on s).2) := by
  rcases hon : x.on s with ⟨_ | _, t⟩
  · rw [hon] at h
    cases h
  · rfl

/-! ### Steps on states that look alike -/

variable {ρ : σ → σ}

/-- On what `ρ` makes of a state, `y` ends as `x` does on the state, and leaves what `ρ` makes of
what `x` leaves. -/
def Mirrors (ρ : σ → σ) (x y : Action σ α) : Prop :=
  ∀ s, y.on (ρ s) = ((x.on s).1, ρ (x.on s).2)

/-- A step that does not tell a state from what `ρ` makes of it. -/
def Blind (ρ : σ → σ) (x : Action σ α) : Prop := Mirrors ρ x x

theorem blind_pure (a : α) : Blind ρ (pure a) := fun _ => rfl

theorem blind_throw (e : Fault) : Blind ρ (throw e : Action σ α) := fun _ => rfl

theorem blind_ofExcept (r : Except Fault α) : Blind ρ (ofExcept r) := fun _ => rfl

theorem mirrors_change {f g : σ → σ} (h : ∀ s, g (ρ s) = ρ (f s)) :
    Mirrors ρ (change f) (change g) := fun s => by
  rw [on_change, on_change, h]

theorem blind_change {f : σ → σ} (h : ∀ s, f (ρ s) = ρ (f s)) : Blind ρ (change f) :=
  mirrors_change h

theorem mirrors_bind {x y : Action σ α} {f g : α → Action σ β} (hx : Mirrors ρ x y)
    (hf : ∀ a, Mirrors ρ (f a) (g a)) : Mirrors ρ (x >>= f) (y >>= g) := by
  intro s
  rw [on_bind, on_bind, hx s]
  rcases x.on s with ⟨_ | a, t⟩
  · rfl
  · exact hf a t

theorem blind_bind {x : Action σ α} {f : α → Action σ β} (hx : Blind ρ x)
    (hf : ∀ a, Blind ρ (f a)) : Blind ρ (x >>= f) :=
  mirrors_bind hx hf

theorem mirrors_get_bind {f g : σ → Action σ β} (h : ∀ s, Mirrors ρ (f s) (g (ρ s))) :
    Mirrors ρ (get >>= f) (get >>= g) := fun s => by
  rw [on_get_bind, on_get_bind, h s s]

/-- A list of steps is mirrored by the steps for what `k` makes of the items. -/
theorem mirrors_forEach {k : α → β} {f : α → Action σ Unit} {g : β → Action σ Unit} {as : List α}
    (h : ∀ a ∈ as, Mirrors ρ (f a) (g (k a))) :
    Mirrors ρ (forEach f as) (forEach g (as.map k)) := by
  induction as with
  | nil => exact blind_pure ()
  | cons a as ih =>
    exact mirrors_bind (h a List.mem_cons_self) fun _ =>
      ih fun b hb => h b (List.mem_cons_of_mem a hb)

theorem blind_forEach {f : α → Action σ Unit} {as : List α} (h : ∀ a ∈ as, Blind ρ (f a)) :
    Blind ρ (forEach f as) := by
  have hmap : Mirrors ρ (forEach f as) (forEach f (as.map id)) := mirrors_forEach h
  rwa [List.map_id] at hmap

theorem blind_guard {p : Prop} [Decidable p] {e : Fault} {f : Unit → Action σ β}
    (h : Blind ρ (f ())) : Blind ρ (if p then throw e >>= f else f ()) := by
  split
  · exact blind_bind (blind_throw e) fun _ => h
  · exact h

theorem blind_within {ρ' : τ → τ} {part : σ → τ} {put : σ → τ → σ} {x : Action τ α}
    (hpart : ∀ s, part (ρ s) = ρ' (part s)) (hput : ∀ s t, put (ρ s) (ρ' t) = ρ (put s t))
    (hx : Blind ρ' x) : Blind ρ (within part put x) := fun s => by
  rw [on_within, on_within, hpart, hx, hput]

end ApiCompiler.Action
