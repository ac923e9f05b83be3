import ApiCompiler.Proofs.Chain.Spelled
import ApiCompiler.Proofs.Transform.Diagnostics

/-!
# Transforms — the schema that a run exports

A run tells the text of the schema that its passes leave. The text need not be that of the schema
alone: the printer writes some values as it writes others, and spells a name that a directive gives
as it is given.

* `exists_of_runWith`: a run that ends well ends with the schema that the passes of its chain leave,
  and with its text.
* `parse_schema_iff`: where the text is read back as the schema.
-/

namespace ApiCompiler.Transform

open ApiCompiler.Action

/-! ### The passes, and what comes behind them -/

/-- Where all passes go well, what they share is as the chain leaves it. -/
theorem forEach_of_passStep {t : Transform} {s u : RunState} {passes : List String}
    (h : t.passStep.on s = (.ok passes, u)) :
    (forEach Entry.apply t.chain).on s.passes = (.ok (), u.passes) := by
  rw [passStep, on_emit_bind, on_bind_eq_ok] at h
  obtain ⟨_, v, hv, h⟩ := h
  obtain ⟨-, rfl⟩ := Prod.mk.inj h
  obtain ⟨hresult, hpasses, -⟩ := on_forEach_applyEntry t.chain
    { s with trace := s.trace ++ [traceLine .info "Phase 2: Applying passes..."] }
  rw [hv] at hresult hpasses
  exact Prod.ext hresult.symm hpasses.symm

theorem schema_addApi (t : Transform) (uri : String) (c : Context) :
    (t.addApi uri c).schema = c.schema := by
  obtain ⟨_, hapi⟩ := t.addApi_eq uri c
  rw [hapi]

/-- What is exported is the text of the schema, which stays. -/
theorem schema_of_exportStep {t : Transform} {provide : AssetProvider} {s u : RunState}
    {text : String} {asset : AssetRef}
    (h : (t.exportStep provide).on s = (.ok (text, asset), u)) :
    text = s.passes.context.schema.toText
      ∧ u.passes.context.schema = s.passes.context.schema := by
  rw [exportStep, on_emit_bind, on_context_bind, on_get_bind, on_ofExcept_bind] at h
  split at h
  · simp only [] at h
    rw [on_change_bind] at h
    obtain ⟨hresult, rfl⟩ := Prod.mk.inj h
    cases hresult
    exact ⟨rfl, schema_addApi t _ _⟩
  · cases (Prod.mk.inj h).1

/-- Handing the resources over leaves them as they are. -/
theorem passes_synthesisStep (t : Transform) (s : RunState) :
    (t.synthesisStep.on s).2.passes = s.passes := by
  rw [synthesisStep, on_emit_bind, on_get_bind]
  simp only []
  rw [on_change_bind]
  rfl

theorem schema_of_concludingSteps {t : Transform} {provide : AssetProvider}
    {passes : List String} {s u : RunState} {summary : Summary}
    (h : (t.concludingSteps provide passes).on s = (.ok summary, u)) :
    summary.schema = s.passes.context.schema.toText
      ∧ u.passes.context.schema = s.passes.context.schema := by
  rw [concludingSteps, on_bind_eq_ok] at h
  obtain ⟨⟨text, asset⟩, v, hv, h⟩ := h
  rw [on_bind_eq_ok] at h
  obtain ⟨report, w, hw, h⟩ := h
  rw [on_context_bind, on_pure] at h
  obtain ⟨hsummary, rfl⟩ := Prod.mk.inj h
  cases hsummary
  obtain ⟨rfl, hschema⟩ := schema_of_exportStep hv
  have hkept := t.passes_synthesisStep v
  rw [hw] at hkept
  exact ⟨rfl, (congrArg (·.context.schema) hkept).trans hschema⟩

/-! ### Runs -/

/-- The context in which the passes of a run begin on a document. -/
def begin (t : Transform) (input : RunInput) (d : Document) : Context :=
  { t.start input with schema := d }

/-- A fresh run that ends well has read its schema, and its passes have ended well on it; its
summary tells the text of the schema that they leave. -/
theorem exists_of_runWith {args : FactoryArgs} {t : Transform} (ht : t.chain = Chain.builtin args)
    {provide : AssetProvider} {input : RunInput} {backend : Backend} {assets : AssetStore}
    {sink : Sink} {summary : Summary}
    (h : (t.runWith provide {} input backend assets sink).result = .ok summary) :
    ∃ d s, Document.parse input.schema = .ok d ∧ Chain.Completes args (t.begin input d) s
      ∧ summary.schema = s.context.schema.toText
      ∧ (t.runWith provide {} input backend assets sink).final.passes.context.schema
        = s.context.schema := by
  have hrun : t.runWith provide {} input backend assets sink
      = finish sink ((t.steps provide input.schema).on (t.opening {} input backend assets)).1
        ((t.steps provide input.schema).on (t.opening {} input backend assets)).2 := rfl
  rcases hsteps : (t.steps provide input.schema).on (t.opening {} input backend assets) with
    ⟨result, u⟩
  rw [hrun, hsteps, result_finish] at h
  obtain rfl : result = .ok summary := h
  rw [hrun, hsteps, passes_finish]
  rw [steps_eq] at hsteps
  cases hd : Document.parse input.schema with
  | error f =>
    obtain ⟨trace, hparse⟩ := on_parseStep_of_error hd (t.opening {} input backend assets)
    rw [on_bind_error hparse] at hsteps
    exact nomatch (Prod.mk.inj hsteps).1
  | ok d =>
    obtain ⟨trace, hparse⟩ := on_parseStep_of_ok hd (t.opening {} input backend assets)
    rw [on_bind_ok hparse, on_bind_eq_ok] at hsteps
    obtain ⟨passes, v, hpasses, hconclude⟩ := hsteps
    obtain ⟨hschema, hleft⟩ := schema_of_concludingSteps hconclude
    refine ⟨d, v.passes, rfl, ?_, hschema, hleft⟩
    -- a fresh run holds nothing
    have free : t.chain.leases = {} := by
      rw [ht]
      rfl
    have shared : (⟨t.begin input d, {}, t.chain.leases⟩ : PassState)
        = { context := t.begin input d } := by rw [free]
    have hall := forEach_of_passStep hpasses
    rw [ht] at hall
    rw [Chain.Completes, ← shared]
    exact hall

/-- **The schema that a run exports is read back as it is** exactly where the schema of the run is
readable, the queries that its indexes ask for and the join models of its relations have names, and
no definition has got fields that its kind has no room for. -/
theorem parse_schema_iff {config : Config} {t : Transform}
    (ht : (ofConfig config []).1 = .ok t) {provide : AssetProvider} {input : RunInput}
    {backend : Backend} {assets : AssetStore} {sink : Sink} {summary : Summary}
    (h : (t.runWith provide {} input backend assets sink).result = .ok summary) :
    let left := (t.runWith provide {} input backend assets sink).final.passes.context.schema
    ∃ d, Document.parse input.schema = .ok d ∧ summary.schema = left.toText ∧
      (Document.parse summary.schema = .ok left ↔
        d.isReadable = true ∧ (∀ q, (t.begin input d).AsksQuery q → Schema.isName q = true)
          ∧ (∀ join, d.IsJoin join → Schema.isName join = true)
          ∧ ∀ u ∈ left.definitions, u.fitsKind = true) := by
  intro left
  have hchain : t.chain = Chain.builtin config.factory :=
    (chain_ofConfig ht).trans (List.append_nil _)
  obtain ⟨d, s, hd, hs, hsummary, hleft⟩ := exists_of_runWith hchain h
  have hleft : left = s.context.schema := hleft
  refine ⟨d, hd, hsummary.trans (congrArg Document.toText hleft.symm), ?_⟩
  rw [hsummary, hleft]
  exact Chain.parse_toText_iff_of_completes hs (Document.isWellFormed_of_parse hd)

/-! ### Two runs -/

/-- A fresh run of the passes that every chain starts with. -/
def freshRun (schema : String) : RunReport :=
  (ofChain {} (Chain.build {} [])).run {} { schema } {} ⟨"test-bucket", ∅⟩ .caller

/-- Whether a run ends well, and leaves a schema with a property. -/
def endsWell (r : RunReport) (p : Document → Bool) : Bool :=
  match r.result with
  | .ok _    => p r.final.passes.context.schema
  | .error _ => false

theorem exists_of_endsWell {r : RunReport} {p : Document → Bool} (h : endsWell r p = true) :
    ∃ summary, r.result = .ok summary ∧ p r.final.passes.context.schema = true := by
  rw [endsWell] at h
  split at h
  · exact ⟨_, ‹_›, h⟩
  · cases h

/-- A schema with an index that asks for a query. -/
def indexedText : String :=
  "type Post @model \x7b title: String @index(queryField: \"postsByTitle\") \x7d"

def indexedPost : Document :=
  ⟨[{
    kind := .object, name := "Post", directives := [⟨"model", []⟩],
    fields := [{
      name := "title", type := .named "String",
      directives := [⟨"index", [("queryField", .string "postsByTitle")]⟩] }] }]⟩

theorem parse_indexedText : Document.parse indexedText = .ok indexedPost := by
  decide +kernel

theorem queryField_postsByTitle :
    ((⟨"index", [("queryField", .string "postsByTitle")]⟩ : Directive).decodeArguments
      IndexPass.decode IndexPass.defaults true).map IndexPass.Arguments.queryField
      = .ok (some "postsByTitle") := by
  decide +kernel

/-- The text that a run with an index exports is read back. -/
theorem parse_schema_iff_indexedText :
    (ofConfig {} []).1 = .ok (ofChain {} (Chain.build {} []))
      ∧ ∃ summary, (freshRun indexedText).result = .ok summary
        ∧ Document.parse summary.schema
          = .ok (freshRun indexedText).final.passes.context.schema := by
  have built : (ofConfig {} []).1 = .ok (ofChain {} (Chain.build {} [])) := rfl
  obtain ⟨summary, hresult, hfits⟩ := exists_of_endsWell
    (show endsWell (freshRun indexedText) (·.definitions.all (·.fitsKind)) = true by
      decide +kernel)
  obtain ⟨d, hd, -, hiff⟩ := parse_schema_iff built hresult
  obtain rfl : indexedPost = d := Except.ok.inj (parse_indexedText.symm.trans hd)
  refine ⟨built, summary, hresult, hiff.2 ⟨by decide, fun q hq => ?_, fun join hj => ?_, ?_⟩⟩
  · obtain ⟨_, t, ht, -, f, hf, i, hi, -, args, hargs, hq⟩ := hq
    obtain rfl := List.mem_singleton.1 ht
    obtain rfl := List.mem_singleton.1 hf
    obtain rfl := List.mem_singleton.1 hi
    have decoded := congrArg (Except.map IndexPass.Arguments.queryField) hargs
    have given := Except.ok.inj (queryField_postsByTitle.symm.trans decoded)
    obtain rfl := Option.some.inj (given.trans hq)
    decide
  · obtain ⟨_, t, ht, -, f, hf, m, relation, hm, -⟩ := hj
    obtain rfl := List.mem_singleton.1 ht
    obtain rfl := List.mem_singleton.1 hf
    exact nomatch hm
  · exact List.all_eq_true.1 hfits

/-- A number that is written with a fraction of zero is exported without it. -/
def weighedText : String := "type Post @model @note(weight: 1.0) \x7b title: String \x7d"

/-- The text that a run exports need not be read back as the schema that it leaves. -/
theorem parse_schema_ne_weighedText :
    ∃ summary, (freshRun weighedText).result = .ok summary
      ∧ Document.parse summary.schema
        ≠ .ok (freshRun weighedText).final.passes.context.schema := by
  obtain ⟨summary, hresult, hleft⟩ := exists_of_endsWell
    (show endsWell (freshRun weighedText) (! ·.isReadable) = true by decide +kernel)
  obtain ⟨d, s, -, -, hsummary, hs⟩ := exists_of_runWith rfl hresult
  have hs : (freshRun weighedText).final.passes.context.schema = s.context.schema := hs
  refine ⟨summary, hresult, fun h => ?_⟩
  rw [hsummary, hs, Document.parse_toText_iff] at h
  rw [hs, h.2] at hleft
  cases hleft

end ApiCompiler.Transform
