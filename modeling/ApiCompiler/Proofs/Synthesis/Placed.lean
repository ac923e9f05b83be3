import ApiCompiler.Proofs.Action
import ApiCompiler.Proofs.Resource.Graph
import ApiCompiler.Synthesis

/-!
# Synthesis — where resources are placed

* `Received`, `Placed`: what a list of resources leaves of a backend, read off where each of them
  goes, and the nested stacks that are opened for them.
* `on_place`, `forEach_place_cases`: one resource, and then a list of them, is placed, or stops at
  the first whose id its stack has.
-/

namespace ApiCompiler

open ApiCompiler.Action

namespace Backend

/-- Two backends that differ in their stacks alone. -/
def SameRecords (b c : Backend) : Prop :=
  c.outputs = b.outputs ∧ c.metadata = b.metadata ∧ c.metadataWrites = b.metadataWrites

theorem SameRecords.refl (b : Backend) : SameRecords b b := ⟨rfl, rfl, rfl⟩

theorem SameRecords.trans {b c d : Backend} (h : SameRecords b c) (h' : SameRecords c d) :
    SameRecords b d :=
  ⟨h'.1.trans h.1, h'.2.1.trans h.2.1, h'.2.2.trans h.2.2⟩

theorem sameRecords_setStack (b : Backend) (s : StackRef) (resources : List Resource) :
    SameRecords b (b.setStack s resources) := by
  cases s <;> exact ⟨rfl, rfl, rfl⟩

theorem resourcesIn_setStack (b : Backend) (s t : StackRef) (resources : List Resource) :
    (b.setStack s resources).resourcesIn t = if t = s then resources else b.resourcesIn t := by
  rw [resourcesIn, stack?_setStack]
  split <;> rfl

/-- A stack that has been used is left as it is when it is opened. -/
theorem openStack_eq_self {b : Backend} {name : String}
    (h : (b.stack? (.nested name)).isSome = true) : b.openStack name = b := by
  obtain ⟨resources, hr⟩ := Option.isSome_iff_exists.1 h
  have hin : b.resourcesIn (.nested name) = resources := by rw [resourcesIn, hr, Option.getD_some]
  rw [openStack, hin, setStack, Dict.insert_eq_self hr]

theorem isSome_of_holds {b : Backend} {s : StackRef} {id : String} (h : b.holds s id = true) :
    (b.stack? s).isSome = true := by
  rw [holds, resourcesIn] at h
  cases hs : b.stack? s with
  | none =>
    rw [hs] at h
    cases h
  | some _ => rfl

end Backend

namespace Synthesis

variable {mapping : Dict String}

/-- The line of a trace that tells of a nested stack which was opened. -/
def nestedLine (name : String) : LogEntry :=
  ⟨.debug, "[SYNTH] " ++ ("Nested stack '" ++ name ++ "'")⟩

/-! ### Stacks are opened -/

/-- The nested stacks of some names are opened, but for those that were opened before: each of them
once, and leaves its line. -/
def Opens (wanted : String → Prop) (s t : State) : Prop :=
  ∃ names : List String,
    (∀ name, name ∈ names ↔ s.opened.contains name = false ∧ wanted name)
    ∧ names.Nodup ∧ t.trace = s.trace ++ names.map nestedLine
    ∧ ∀ name, t.opened.contains name = true ↔ s.opened.contains name = true ∨ name ∈ names

namespace Opens

variable {wanted wanted' : String → Prop} {s t u : State}

theorem nothing (h : ∀ name, wanted name → s.opened.contains name = true) : Opens wanted s s := by
  refine ⟨[], fun name => ⟨nofun, fun ⟨hn, hw⟩ => ?_⟩, List.nodup_nil, (List.append_nil _).symm,
    fun name => ?_⟩
  · rw [h name hw] at hn
    cases hn
  · rw [List.mem_nil_iff, or_false]

theorem of_iff (h : Opens wanted s t) (hw : ∀ name, wanted name ↔ wanted' name) :
    Opens wanted' s t := by
  obtain ⟨names, hnames, hrest⟩ := h
  exact ⟨names, fun name => by rw [hnames, hw], hrest⟩

/-- What is opened first is not opened again. -/
theorem trans (h : Opens wanted s t) (h' : Opens wanted' t u) :
    Opens (fun name => wanted name ∨ wanted' name) s u := by
  obtain ⟨ns, hns, hn, htrace, hopened⟩ := h
  obtain ⟨ms, hms, hm, htrace', hopened'⟩ := h'
  refine ⟨ns ++ ms, fun name => ?_, List.nodup_append.2 ⟨hn, hm, fun name hin _ hin' he => ?_⟩, ?_,
    fun name => ?_⟩
  · rw [List.mem_append, hms, ← Bool.not_eq_true, hopened, hns]
    by_cases hs : s.opened.contains name = true
    · simp [hs]
    · by_cases hw : wanted name <;> simp [hs, hw]
  · have hopen := (hopened name).2 (.inr hin)
    rw [he, ((hms _).1 hin').1] at hopen
    cases hopen
  · rw [htrace', htrace, List.map_append, List.append_assoc]
  · rw [hopened', hopened, List.mem_append, or_assoc]

end Opens

theorem on_openNested (name : String) (s : State) :
    (openNested name).on s = (.ok (),
      if s.opened.contains name then s
      else
        { backend := s.backend.openStack name
          opened  := s.opened.insert name ()
          trace   := s.trace ++ [nestedLine name] }) := by
  rw [openNested, on_get_bind]
  split
  · rfl
  · rw [on_change_bind]
    rfl

/-- What is left when a stack is made ready for a resource. -/
structure Opened (stack : StackRef) (s t : State) : Prop where
  resources : ∀ other, t.backend.resourcesIn other = s.backend.resourcesIn other
  others    : ∀ other, other ≠ stack → t.backend.stack? other = s.backend.stack? other
  records   : s.backend.SameRecords t.backend
  kept      : (s.backend.stack? stack).isSome = true → t.backend = s.backend
  opens     : Opens (fun name => stack = .nested name) s t

theorem Opened.nothing {stack : StackRef} {s : State}
    (h : ∀ name, stack = .nested name → s.opened.contains name = true) : Opened stack s s where
  resources _ := rfl
  others _ _ := rfl
  records := .refl _
  kept _ := rfl
  opens := .nothing h

theorem on_openFor (stack : StackRef) (s : State) :
    ∃ t, (openFor stack).on s = (.ok (), t) ∧ Opened stack s t := by
  cases stack with
  | root => exact ⟨s, rfl, .nothing nofun⟩
  | nested name =>
    refine ⟨_, on_openNested name s, ?_⟩
    split
    · next h => exact .nothing fun _ he => by cases he; exact h
    · next h =>
      rw [Bool.not_eq_true] at h
      refine ⟨fun other => ?_, fun other hne => ?_, Backend.sameRecords_setStack _ _ _,
        Backend.openStack_eq_self, [name], fun other => ?_, List.pairwise_singleton _ name, rfl,
        fun other => ?_⟩
      · rw [Backend.openStack, Backend.resourcesIn_setStack]
        split
        · next he => rw [he]
        · rfl
      · rw [Backend.openStack, Backend.stack?_setStack, if_neg hne]
      · rw [List.mem_singleton]
        constructor
        · rintro rfl
          exact ⟨h, rfl⟩
        · rintro ⟨-, he⟩
          cases he
          rfl
      · rw [Dict.contains_insert, Bool.or_eq_true, decide_eq_true_eq, List.mem_singleton, or_comm]

/-! ### Resources are placed -/

/-- What a list of resources leaves of a backend, read off where each of them goes. -/
structure Received (mapping : Dict String) (rs : List Resource) (b c : Backend) : Prop where
  /-- A stack has what it had, and then the resources that go to it, in their order. -/
  resources : ∀ stack,
    c.resourcesIn stack = b.resourcesIn stack ++ rs.filter fun r => destination mapping r = stack
  /-- The stacks are those that there were, and those that a resource goes to. -/
  used      : ∀ stack, (c.stack? stack).isSome = true ↔
    (b.stack? stack).isSome = true ∨ ∃ r ∈ rs, destination mapping r = stack
  records   : b.SameRecords c
  /-- No resource was in its stack before. -/
  free      : ∀ r ∈ rs, b.holds (destination mapping r) r.id = false

namespace Received

variable {xs ys : List Resource} {b c d : Backend}

theorem nil (b : Backend) : Received mapping [] b b where
  resources _ := (List.append_nil _).symm
  used _ := by simp
  records := .refl _
  free _ hr := nomatch hr

/-- A stack has an id that it had before, or that of a resource that went to it. -/
theorem holds_iff (h : Received mapping xs b c) {stack : StackRef} {id : String} :
    c.holds stack id = true ↔
      b.holds stack id = true ∨ ∃ r ∈ xs, destination mapping r = stack ∧ r.id = id := by
  rw [Backend.holds, Backend.holds, h.resources, List.any_append, Bool.or_eq_true, List.any_filter]
  simp

theorem append (h : Received mapping xs b c) (h' : Received mapping ys c d) :
    Received mapping (xs ++ ys) b d where
  resources stack := by rw [h'.resources, h.resources, List.filter_append, List.append_assoc]
  used stack := by
    rw [h'.used, h.used, or_assoc]
    simp only [List.mem_append, or_and_right, exists_or]
  records := h.records.trans h'.records
  free r hr := by
    rcases List.mem_append.1 hr with hr | hr
    · exact h.free r hr
    · rw [Bool.eq_false_iff]
      exact fun hb => Bool.eq_false_iff.1 (h'.free r hr) (h.holds_iff.2 (.inl hb))

/-- Only a backend that received nothing is as it was. -/
theorem eq_nil_of_eq (h : Received mapping xs b b) : xs = [] := by
  cases xs with
  | nil => rfl
  | cons r rs =>
    have hin := h.resources (destination mapping r)
    rw [List.self_eq_append_right, List.filter_eq_nil_iff] at hin
    exact absurd (decide_eq_true rfl) (hin r List.mem_cons_self)

/-- A backend that received nothing is as it was. -/
theorem eq_of_nil (h : Received mapping [] b c) : c = b := by
  obtain ⟨houtputs, hmetadata, hwrites⟩ := h.records
  have hstack : ∀ stack, c.stack? stack = b.stack? stack := fun stack => by
    have hin := h.resources stack
    have hused := h.used stack
    rw [List.filter_nil, List.append_nil, Backend.resourcesIn, Backend.resourcesIn] at hin
    cases hc : c.stack? stack <;> cases hb : b.stack? stack <;> simp_all
  have hroot : c.root = b.root := hstack .root
  have hnested : c.nested = b.nested := Dict.ext_find? fun name => hstack (.nested name)
  cases b
  cases c
  cases houtputs
  cases hmetadata
  cases hwrites
  cases hroot
  cases hnested
  rfl

end Received

/-- Resources that are placed: a backend receives them, and stacks are opened for them. -/
structure Placed (mapping : Dict String) (rs : List Resource) (s t : State) : Prop where
  received : Received mapping rs s.backend t.backend
  opens    : Opens (fun name => ∃ r ∈ rs, destination mapping r = .nested name) s t

theorem Placed.nil (s : State) : Placed mapping [] s s :=
  ⟨.nil _, .nothing fun _ ⟨_, hr, _⟩ => nomatch hr⟩

theorem Placed.append {xs ys : List Resource} {s t u : State} (h : Placed mapping xs s u)
    (h' : Placed mapping ys u t) : Placed mapping (xs ++ ys) s t where
  received := h.received.append h'.received
  opens := (h.opens.trans h'.opens).of_iff fun name => by
    simp only [List.mem_append, or_and_right, exists_or]

/-- A resource is refused by a stack that has its id, and leaves the backend as it was then; else
it is placed. -/
theorem on_place (mapping : Dict String) (r : Resource) (s : State) :
    (s.backend.holds (destination mapping r) r.id = true
        ∧ ∃ f t, (place mapping r).on s = (.error f, t) ∧ t.backend = s.backend)
      ∨ (s.backend.holds (destination mapping r) r.id = false
        ∧ ∃ t, (place mapping r).on s = (.ok (), t) ∧ Placed mapping [r] s t) := by
  obtain ⟨u, hu, hopen⟩ := on_openFor (destination mapping r) s
  have hholds : u.backend.holds (destination mapping r) r.id
      = s.backend.holds (destination mapping r) r.id := by
    rw [Backend.holds, hopen.resources, Backend.holds]
  have hon : (place mapping r).on s =
      (onBackend (·.addResource (destination mapping r) r)).on u := on_bind_ok hu _
  rw [hon, onBackend, on_get_bind, on_ofExcept_bind, Backend.addResource, hholds]
  cases h : s.backend.holds (destination mapping r) r.id with
  | true => exact .inl ⟨rfl, _, u, rfl, hopen.kept (Backend.isSome_of_holds h)⟩
  | false =>
    refine .inr ⟨rfl, _, rfl, ⟨fun stack => ?_, fun stack => ?_, ?_, fun q hq => ?_⟩, ?_⟩
    · rw [Backend.resourcesIn_setStack, hopen.resources, hopen.resources]
      by_cases he : stack = destination mapping r
      · simp [he]
      · simp [he, Ne.symm he]
    · rw [Backend.stack?_setStack]
      by_cases he : stack = destination mapping r
      · simp [he]
      · simp [he, hopen.others stack he, Ne.symm he]
    · exact hopen.records.trans (Backend.sameRecords_setStack _ _ _)
    · rw [List.mem_singleton.1 hq, h]
    · exact hopen.opens.of_iff fun name => by simp

/-- What becomes of a list of resources: all of them are placed, or those before the first that its
stack refuses. -/
theorem forEach_place_cases (mapping : Dict String) (rs : List Resource) (s : State) :
    (∃ t, (forEach (place mapping) rs).on s = (.ok (), t) ∧ Placed mapping rs s t)
      ∨ ∃ xs r ys u f t, rs = xs ++ r :: ys ∧ Placed mapping xs s u
        ∧ u.backend.holds (destination mapping r) r.id = true
        ∧ (forEach (place mapping) rs).on s = (.error f, t) ∧ t.backend = u.backend := by
  induction rs generalizing s with
  | nil => exact .inl ⟨s, rfl, .nil s⟩
  | cons r rs ih =>
    rw [on_forEach_cons]
    rcases on_place mapping r s with ⟨h, f, t, hr, hb⟩ | ⟨-, u, hr, hplaced⟩
    · rw [hr]
      exact .inr ⟨[], r, rs, s, f, t, rfl, .nil s, h, rfl, hb⟩
    · rw [hr]
      rcases ih u with ⟨t, ht, hrest⟩ | ⟨xs, q, ys, v, f, t, rfl, hxs, h, ht, hb⟩
      · exact .inl ⟨t, ht, hplaced.append hrest⟩
      · exact .inr ⟨r :: xs, q, ys, v, f, t, rfl, hplaced.append hxs, h, ht, hb⟩

end Synthesis

end ApiCompiler
