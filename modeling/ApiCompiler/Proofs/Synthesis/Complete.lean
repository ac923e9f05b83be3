import ApiCompiler.Proofs.Synthesis.Placed
import Mathlib.Data.List.Count
import Mathlib.Data.List.Nodup

/-!
# Synthesis — all of a graph, once

* `BelongsIn`: the stack in which a resource belongs.
* `synthesize_cases`: what a synthesis ends with, by whether every resource finds a stack without
  its id.
* `synthesize_exact`: **a synthesis places every resource of a graph once**, in the stack in which
  it belongs. It succeeds exactly where no resource is in its stack already, and then nothing
  but the stacks that resources go to, and the outputs of the API, is changed.

A graph lists no id twice, so that no resource stands in the way of another one.
-/

namespace ApiCompiler

open ApiCompiler.Action

namespace Synthesis

variable {mapping : Dict String}

/-! ### Where resources belong -/

/-- A stack is chosen for a resource by its name: the id of the resource is mapped to the name, or
it is not mapped and the resource is of that stack itself. -/
def IsChosen (mapping : Dict String) (r : Resource) (name : String) : Prop :=
  mapping.find? r.id = some name ∨ mapping.find? r.id = none ∧ r.stack = some name

instance (mapping : Dict String) (r : Resource) (name : String) :
    Decidable (IsChosen mapping r name) := inferInstanceAs (Decidable (_ ∨ _ ∧ _))

/-- A resource belongs in the nested stack that is chosen for it, and in the root stack where that
one is chosen, or none. -/
def BelongsIn (mapping : Dict String) (r : Resource) : StackRef → Prop
  | .root        => IsChosen mapping r "root" ∨ mapping.find? r.id = none ∧ r.stack = none
  | .nested name => IsChosen mapping r name ∧ name ≠ "root"

instance (mapping : Dict String) (r : Resource) :
    (stack : StackRef) → Decidable (BelongsIn mapping r stack)
  | .root     => inferInstanceAs (Decidable (_ ∨ _ ∧ _))
  | .nested _ => inferInstanceAs (Decidable (_ ∧ _))

theorem isChosen_iff {r : Resource} {name : String} :
    IsChosen mapping r name ↔ stackName? mapping r = some name := by
  rw [IsChosen, stackName?]
  cases mapping.find? r.id <;> simp

theorem stackName?_eq_none_iff {r : Resource} :
    stackName? mapping r = none ↔ mapping.find? r.id = none ∧ r.stack = none := by
  rw [stackName?]
  cases mapping.find? r.id <;> simp

/-- A resource belongs where it goes. -/
theorem belongsIn_iff {r : Resource} {stack : StackRef} :
    BelongsIn mapping r stack ↔ destination mapping r = stack := by
  rw [destination]
  cases stack with
  | root =>
    rw [BelongsIn, isChosen_iff, ← stackName?_eq_none_iff]
    cases stackName? mapping r with
    | none => simp
    | some name => by_cases h : name = "root" <;> simp [rootStack, h]
  | nested name =>
    rw [BelongsIn, isChosen_iff]
    cases stackName? mapping r with
    | none => simp
    | some other =>
      by_cases h : other = rootStack
      · simp [h, rootStack, eq_comm]
      · simp only [if_neg h, Option.some.injEq, StackRef.nested.injEq]
        exact and_iff_left_of_imp fun he => he ▸ h

theorem existsUnique_belongsIn (mapping : Dict String) (r : Resource) :
    ∃! stack, BelongsIn mapping r stack :=
  ⟨destination mapping r, belongsIn_iff.2 rfl, fun _ h => (belongsIn_iff.1 h).symm⟩

/-! ### Lines of the trace -/

/-- The line of a trace that tells of an output which was replaced. -/
def replacedLine (name : String) : LogEntry :=
  ⟨.debug, "[SYNTH] " ++ ("Output '" ++ name ++ "' replaced")⟩

/-- The line with which a trace ends. -/
def doneLine (report : Report) : LogEntry :=
  ⟨.info, "[SYNTH] " ++ ("Done (" ++ toString report.resourceCount ++ " resources across "
    ++ toString report.nestedStacks.length ++ " nested stacks)")⟩

theorem nestedLine_injective : Function.Injective nestedLine := by
  intro m n h
  have htext := congrArg LogEntry.message h
  simpa [nestedLine, String.append_right_inj, String.append_left_inj] using htext

theorem nestedLine_ne_replacedLine (m n : String) : nestedLine m ≠ replacedLine n := by
  intro h
  have htext := congrArg (fun e => e.message.toList) h
  simp [nestedLine, replacedLine, String.toList_append] at htext

/-- The lines that tell of an output, where it was replaced. -/
def replacedLines (outputs : Dict String) (name : String) : List LogEntry :=
  if outputs.contains name then [replacedLine name] else []

theorem nestedLine_notMem_replacedLines (outputs : Dict String) (m n : String) :
    nestedLine m ∉ replacedLines outputs n := by
  rw [replacedLines]
  split
  · exact fun hm => nestedLine_ne_replacedLine m n (List.mem_singleton.1 hm)
  · exact List.not_mem_nil

/-! ### Outputs -/

theorem on_output {name : String} (hname : name ≠ "") (value : String) (s : State) :
    (output name value).on s = (.ok (),
      { s with
        backend := { s.backend with outputs := s.backend.outputs.insert name value }
        trace   := s.trace ++ replacedLines s.backend.outputs name }) := by
  rw [output, on_get_bind, onBackend, bind_assoc, on_get_bind, bind_assoc, on_ofExcept_bind,
    Backend.addOutput, if_neg hname]
  simp only
  rw [on_change_bind, replacedLines]
  split
  · rfl
  · rw [List.append_nil]
    rfl

/-- The outputs with those of the API, whose values are filled in when it is deployed. -/
def withApiOutputs (outputs : Dict String) : Dict String :=
  (outputs.insert "GraphQLAPIIdOutput" "$\x7bGraphQLAPI.ApiId\x7d").insert
    "GraphQLAPIEndpointOutput" "$\x7bGraphQLAPI.GraphQLUrl\x7d"

/-- A backend with the outputs of the API, if they are wanted. -/
def setOutputs (wanted : Bool) (b : Backend) : Backend :=
  if wanted then { b with outputs := withApiOutputs b.outputs } else b

theorem resourcesIn_setOutputs (wanted : Bool) (b : Backend) (s : StackRef) :
    (setOutputs wanted b).resourcesIn s = b.resourcesIn s := by
  cases wanted <;> cases s <;> rfl

theorem stack?_setOutputs (wanted : Bool) (b : Backend) (s : StackRef) :
    (setOutputs wanted b).stack? s = b.stack? s := by
  cases wanted <;> cases s <;> rfl

theorem outputs_setOutputs (wanted : Bool) (b : Backend) :
    (setOutputs wanted b).outputs = if wanted then withApiOutputs b.outputs else b.outputs := by
  cases wanted <;> rfl

theorem metadata_setOutputs (wanted : Bool) (b : Backend) :
    (setOutputs wanted b).metadata = b.metadata
      ∧ (setOutputs wanted b).metadataWrites = b.metadataWrites := by
  cases wanted <;> exact ⟨rfl, rfl⟩

/-! ### A synthesis -/

variable {g : ResourceGraph} {outputs : Bool}

/-- The state from which the resources of a graph are placed. -/
def started (g : ResourceGraph) (b : Backend) : State :=
  { backend := b
    trace   := [⟨.info, "[SYNTH] " ++ ("Synthesizing " ++ toString g.size ++ " resources")⟩] }

/-- What follows the resources: the outputs, and the report. -/
def finish (g : ResourceGraph) (outputs : Bool) : Action State Report := do
  if outputs && g.contains apiResourceId then
    output apiIdOutput (apiAttribute "ApiId")
    output apiEndpointOutput (apiAttribute "GraphQLUrl")
  let report : Report := ⟨g.size, (← get).opened.keys⟩
  emit .info ("Done (" ++ toString report.resourceCount ++ " resources across "
    ++ toString report.nestedStacks.length ++ " nested stacks)")
  return report

theorem synthesize_eq (b : Backend) : synthesize g mapping outputs b =
    (forEach (place mapping) g.toList >>= fun _ => finish g outputs).on (started g b) := rfl

/-- Once all resources are placed, nothing stands in the way of the outputs. -/
theorem on_finish (g : ResourceGraph) (outputs : Bool) (s : State) : ∃ lines,
    (∀ name, nestedLine name ∉ lines) ∧ (finish g outputs).on s = (.ok ⟨g.size, s.opened.keys⟩,
      { s with
        backend := setOutputs (outputs && g.contains apiResourceId) s.backend
        trace   := s.trace ++ lines }) := by
  have hdone : ∀ name, nestedLine name ∉ [doneLine ⟨g.size, s.opened.keys⟩] := fun _ hm =>
    nomatch congrArg LogEntry.level (List.mem_singleton.1 hm)
  rw [finish]
  cases hw : outputs && g.contains apiResourceId with
  | false =>
    exact ⟨[doneLine ⟨g.size, s.opened.keys⟩], hdone, rfl⟩
  | true =>
    rw [if_pos rfl, on_bind_ok (on_output (by decide) _ _), on_bind_ok (on_output (by decide) _ _)]
    refine ⟨replacedLines s.backend.outputs apiIdOutput
      ++ replacedLines (s.backend.outputs.insert apiIdOutput (apiAttribute "ApiId"))
        apiEndpointOutput
      ++ [doneLine ⟨g.size, s.opened.keys⟩], fun name hm => ?_, ?_⟩
    · rw [List.mem_append, List.mem_append] at hm
      rcases hm with (hm | hm) | hm
      · exact nestedLine_notMem_replacedLines _ _ _ hm
      · exact nestedLine_notMem_replacedLines _ _ _ hm
      · exact hdone _ hm
    · rw [← List.append_assoc, ← List.append_assoc]
      rfl

/-- What a synthesis that succeeds leaves of a backend, and what it reports. -/
structure Complete (g : ResourceGraph) (mapping : Dict String) (outputs : Bool) (b : Backend)
    (report : Report) (t : State) : Prop where
  /-- The resources of a graph are listed by rising id. -/
  sorted         : (g.toList.map (·.id)).Pairwise (· < ·)
  once           : ∀ r ∈ g.toList, ∃! stack, BelongsIn mapping r stack
  /-- A stack has what it had, and then the resources of the graph that belong in it. -/
  resources      : ∀ stack, t.backend.resourcesIn stack
    = b.resourcesIn stack ++ g.toList.filter fun r => BelongsIn mapping r stack
  /-- The stacks are those that there were, and those in which a resource belongs. -/
  used           : ∀ stack, (t.backend.stack? stack).isSome = true ↔
    (b.stack? stack).isSome = true ∨ ∃ r ∈ g.toList, BelongsIn mapping r stack
  outputs        : t.backend.outputs =
    if outputs = true ∧ ∃ r ∈ g.toList, r.id = "GraphQLAPI" then withApiOutputs b.outputs
    else b.outputs
  metadata       : t.backend.metadata = b.metadata
  metadataWrites : t.backend.metadataWrites = b.metadataWrites
  resourceCount  : report.resourceCount = g.toList.length
  /-- The nested stacks are reported by name, none of them twice. -/
  nestedSorted   : report.nestedStacks.Pairwise (· < ·)
  nestedStacks   : ∀ name, name ∈ report.nestedStacks ↔
    ∃ r ∈ g.toList, BelongsIn mapping r (.nested name)
  /-- The line of a nested stack, which comes with its opening, comes once. -/
  openedOnce     : ∀ name,
    t.trace.count (nestedLine name) = if name ∈ report.nestedStacks then 1 else 0

/-- No resource is in the stack in which it belongs already. -/
def IsFree (g : ResourceGraph) (mapping : Dict String) (b : Backend) : Prop :=
  ∀ r ∈ g.toList, ∀ stack, BelongsIn mapping r stack → ∀ q ∈ b.resourcesIn stack, q.id ≠ r.id

theorem isFree_iff {b : Backend} :
    IsFree g mapping b ↔ ∀ r ∈ g.toList, b.holds (destination mapping r) r.id = false := by
  simp only [IsFree, belongsIn_iff, forall_eq', Backend.holds, List.any_eq_false, beq_iff_eq]

/-- The lines of the nested stacks come where the stacks are opened, and nowhere else. -/
theorem count_nestedLine {t : State} {lines : List LogEntry} {b : Backend} {wanted : String → Prop}
    (h : Opens wanted (started g b) t) (hlines : ∀ name, nestedLine name ∉ lines) (name : String) :
    (t.trace ++ lines).count (nestedLine name) = if name ∈ t.opened.keys then 1 else 0 := by
  obtain ⟨names, -, hnodup, htrace, hopened⟩ := h
  have hstart : nestedLine name ∉ (started g b).trace := fun hm =>
    nomatch congrArg LogEntry.level (List.mem_singleton.1 hm)
  have hkeys : name ∈ t.opened.keys ↔ name ∈ names := by
    rw [Dict.mem_keys_iff, hopened]
    exact or_iff_right nofun
  rw [List.count_append, htrace, List.count_append, List.count_eq_zero.2 hstart,
    List.count_eq_zero.2 (hlines name), List.count_map_of_injective _ _ nestedLine_injective,
    hnodup.count, Nat.zero_add, Nat.add_zero]
  simp only [hkeys]

theorem complete_of_placed (hg : g.OwnIds) {b : Backend} {t : State} {lines : List LogEntry}
    (h : Placed mapping g.toList (started g b) t) (hlines : ∀ name, nestedLine name ∉ lines) :
    Complete g mapping outputs b ⟨g.size, t.opened.keys⟩
      { t with
        backend := setOutputs (outputs && g.contains apiResourceId) t.backend
        trace   := t.trace ++ lines } where
  sorted := hg.map_id_toList ▸ g.byId.sorted_keys
  once r _ := existsUnique_belongsIn mapping r
  resources stack := by
    rw [resourcesIn_setOutputs, h.received.resources]
    simp only [belongsIn_iff]
    rfl
  used stack := by
    rw [stack?_setOutputs, h.received.used]
    simp only [belongsIn_iff]
    rfl
  outputs := by
    have hsame : t.backend.outputs = b.outputs := h.received.records.1
    have hwanted : (outputs && g.contains apiResourceId) = true ↔
        outputs = true ∧ ∃ r ∈ g.toList, r.id = "GraphQLAPI" := by
      rw [Bool.and_eq_true, hg.contains_iff, apiResourceId]
    rw [outputs_setOutputs, hsame, if_congr hwanted rfl rfl]
  metadata := (metadata_setOutputs _ _).1.trans h.received.records.2.1
  metadataWrites := (metadata_setOutputs _ _).2.trans h.received.records.2.2
  resourceCount := by
    rw [ResourceGraph.size, Dict.size, ResourceGraph.toList, Dict.values, List.length_map]
  nestedSorted := t.opened.sorted_keys
  nestedStacks name := by
    obtain ⟨names, hnames, -, -, hopened⟩ := h.opens
    rw [Dict.mem_keys_iff, hopened, hnames]
    have hnone : (started g b).opened.contains name = false := rfl
    simp [hnone, belongsIn_iff]
  openedOnce name := count_nestedLine h.opens hlines name

/-- A synthesis is complete where every resource is free to be placed, and else it is refused. -/
theorem synthesize_cases (hg : g.OwnIds) (mapping : Dict String) (outputs : Bool) (b : Backend) :
    (IsFree g mapping b ∧ ∃ report t, synthesize g mapping outputs b = (.ok report, t)
        ∧ Complete g mapping outputs b report t)
      ∨ (¬ IsFree g mapping b ∧ ∃ f t, synthesize g mapping outputs b = (.error f, t)) := by
  rw [synthesize_eq]
  rcases forEach_place_cases mapping g.toList (started g b) with
    ⟨t, ht, hplaced⟩ | ⟨xs, r, ys, u, f, t, hlist, hplaced, hheld, ht, -⟩
  · obtain ⟨lines, hlines, hfinish⟩ := on_finish g outputs t
    exact .inl ⟨isFree_iff.2 hplaced.received.free, _, _, (on_bind_ok ht _).trans hfinish,
      complete_of_placed hg hplaced hlines⟩
  · refine .inr ⟨fun hfree => ?_, f, t, on_bind_error ht _⟩
    rcases hplaced.received.holds_iff.1 hheld with hb | ⟨q, hq, -, hid⟩
    · have hr := isFree_iff.1 hfree r (hlist ▸ List.mem_append_right xs List.mem_cons_self)
      exact Bool.false_ne_true (hr.symm.trans hb)
    · -- the ids of a graph differ, so that no resource before this one has its id
      have hnodup := hg.nodup_ids
      rw [hlist, List.map_append, List.nodup_append] at hnodup
      exact hnodup.2.2 _ (List.mem_map_of_mem hq) _ (List.mem_map_of_mem List.mem_cons_self) hid

/-- A synthesis that stops leaves the resources before the one that its stack refuses. -/
theorem received_of_error {b : Backend} {f : Fault} {t : State}
    (h : synthesize g mapping outputs b = (.error f, t)) :
    ∃ xs r ys, g.toList = xs ++ r :: ys ∧ Received mapping xs b t.backend
      ∧ t.backend.holds (destination mapping r) r.id = true := by
  rw [synthesize_eq] at h
  rcases forEach_place_cases mapping g.toList (started g b) with
    ⟨u, hu, -⟩ | ⟨xs, r, ys, u, f', t', hlist, hplaced, hheld, ht, hb⟩
  · obtain ⟨lines, -, hfinish⟩ := on_finish g outputs u
    rw [on_bind_ok hu, hfinish] at h
    cases h
  · rw [on_bind_error ht] at h
    cases h
    rw [hb]
    exact ⟨xs, r, ys, hlist, hplaced.received, hheld⟩

end Synthesis

open Synthesis in
/-- **A synthesis places every resource of a graph once**, in the stack in which it belongs by the
mapping, and else by itself. It succeeds exactly where no resource of the graph is in that stack
already, and is complete then. -/
theorem synthesize_exact (resources : List Resource) (mapping : Dict String) (outputs : Bool)
    (b : Backend) :
    let g := ResourceGraph.ofList resources
    ((∃ report t, synthesize g mapping outputs b = (.ok report, t)) ↔ IsFree g mapping b)
      ∧ ∀ report t, synthesize g mapping outputs b = (.ok report, t) →
        Complete g mapping outputs b report t := by
  intro g
  rcases synthesize_cases (ResourceGraph.ownIds_ofList resources) mapping outputs b with
    ⟨hfree, report, t, h, hc⟩ | ⟨hfree, f, t, h⟩
  · refine ⟨⟨fun _ => hfree, fun _ => ⟨report, t, h⟩⟩, fun report' t' h' => ?_⟩
    rw [h] at h'
    cases h'
    exact hc
  · refine ⟨⟨?_, fun hf => absurd hf hfree⟩, fun report' t' h' => ?_⟩
    · rintro ⟨report, t', h'⟩
      rw [h] at h'
      cases h'
    · rw [h] at h'
      cases h'

namespace Synthesis

/-- An API of notes, and what a model keeps in a stack of its own. -/
def noteResources : List Resource :=
  [{ id := "GraphQLAPI", kind := .graphqlApi },
    { id := "NoteTable", kind := .table, stack := some "Note" },
    { id := "NoteDataSource", kind := .dataSource, stack := some "Note" },
    { id := "NotePolicy", kind := .policy, stack := some "Note" }]

/-- Tables are kept together, and policies in the root stack. -/
def noteMapping : Dict String := Dict.ofList [("NoteTable", "Tables"), ("NotePolicy", "root")]

/-- A backend with a table, and with a resource in the root stack. -/
def noteBackend (table root : String) : Backend where
  outputs := Dict.ofList [("GraphQLAPIIdOutput", "old"), ("Region", "eu")]
  root    := some [{ id := root, kind := .table }]
  nested  := Dict.ofList [("Tables", [{ id := table, kind := .table }])]

end Synthesis

open Synthesis in
/-- The table goes where it is mapped to and is not refused for the one of its id in the root
stack, the policy goes to the root stack, and the data source to the stack that both of them are of.
The table is refused where the stack of tables has it. -/
theorem complete_notes :
    let g := ResourceGraph.ofList noteResources
    let b := noteBackend "TagTable" "NoteTable"
    IsFree g noteMapping b
      ∧ (∃ t, synthesize g noteMapping true b = (.ok ⟨4, ["Note", "Tables"]⟩, t)
        ∧ Complete g noteMapping true b ⟨4, ["Note", "Tables"]⟩ t
        ∧ (t.backend.resourcesIn .root).map (·.id) = ["NoteTable", "GraphQLAPI", "NotePolicy"]
        ∧ (t.backend.resourcesIn (.nested "Note")).map (·.id) = ["NoteDataSource"]
        ∧ (t.backend.resourcesIn (.nested "Tables")).map (·.id) = ["TagTable", "NoteTable"]
        ∧ t.backend.outputs.toList =
          [("GraphQLAPIEndpointOutput", "$\x7bGraphQLAPI.GraphQLUrl\x7d"),
            ("GraphQLAPIIdOutput", "$\x7bGraphQLAPI.ApiId\x7d"), ("Region", "eu")])
      ∧ ¬ ∃ report t,
          synthesize g noteMapping true (noteBackend "NoteTable" "TagTable") = (.ok report, t) := by
  intro g b
  obtain ⟨-, complete⟩ := synthesize_exact noteResources noteMapping true b
  have hfree : IsFree g noteMapping b := isFree_iff.2 (by decide +kernel)
  have htaken : ¬ IsFree g noteMapping (noteBackend "NoteTable" "TagTable") :=
    isFree_iff.not.2 (by decide +kernel)
  have hreport : (synthesize g noteMapping true b).1 = .ok ⟨4, ["Note", "Tables"]⟩ := by
    decide +kernel
  have h : synthesize g noteMapping true b =
      (.ok ⟨4, ["Note", "Tables"]⟩, (synthesize g noteMapping true b).2) :=
    Prod.ext hreport rfl
  have hc := complete _ _ h
  refine ⟨hfree, ⟨_, h, hc, ?_, ?_, ?_, ?_⟩,
    (synthesize_exact noteResources noteMapping true _).1.not.2 htaken⟩
  · rw [hc.resources]
    decide +kernel
  · rw [hc.resources]
    decide +kernel
  · rw [hc.resources]
    decide +kernel
  · rw [hc.outputs]
    decide +kernel

end ApiCompiler
