import ApiCompiler.Proofs.Chain.Started
import ApiCompiler.Proofs.Pass.Join

/-!
# Chains — what counts as a model

The pass of models remembers the models that it made. Other passes ask the resources: a type with a
table or a datasource of its own counts as a model. The datasources of bound fields have ids of the
same form, so a type counts as a model also where a field is bound to a datasource of its name.

* `Context.Binds`: the types whose datasource a field is bound to, by the pass that binds it.
* `Agrees`: what counts as a model is remembered as one, or has a datasource for another reason.
* `isModel_of_apply`, one for each pass that binds fields.
* `Chain.isModel_iff_of_started`: what counts as a model when a pass is started.
-/

namespace ApiCompiler

open PassAction

/-! ### Fields that are bound -/

namespace Context

/-- A field of the schema is bound by the pass of some name, to what has the id of the datasource
of a type. -/
inductive Binds (c : Context) (pass model : String) : Prop where
  | function {type field function : String} (hp : pass = "function")
      (hf : c.schema.HasField type fun name directives => name = field ∧ ∃ d ∈ directives,
        d.name = "function" ∧ (d.argument? "name").bind Value.asString? = some function)
      (hm : datasourceId model
        = FunctionPass.datasource (FunctionPass.functionName c ⟨type, field, function⟩))
  | http {type : String} {url : HttpPass.Url} (hp : pass = "http")
      (hf : c.schema.HasField type fun _ directives => ∃ d text,
        findDirective? "http" directives = some d
          ∧ (d.argument? "url").bind Value.asString? = some text
          ∧ HttpPass.splitUrl text.toList = some url)
      (hm : datasourceId model = HttpPass.datasource url)
  | predictions {type : String} (hp : pass = "predictions")
      (hf : c.schema.HasField type fun _ directives =>
        (findDirective? "predictions" directives).isSome = true)
      (hm : model = "Predictions")

variable {known : String → Prop} {ready : Document → String → Prop} {c d : Context}

/-- No change touches what the values of parameters come from. -/
theorem Edit.resolveParameter (h : Edit known ready c d) :
    d.resolveParameter = c.resolveParameter := by
  cases h with
  | store _ h => rcases ModelPass.addStore_eq h with rfl | ⟨_, _, rfl⟩ <;> rfl
  | _ => rfl

theorem Edits.resolveParameter (h : Edits known ready c d) :
    d.resolveParameter = c.resolveParameter := by
  induction h with
  | refl => rfl
  | tail _ h ih => exact h.resolveParameter.trans ih

theorem Edits.functionName (h : Edits known ready c d) :
    FunctionPass.functionName d = FunctionPass.functionName c := by
  funext b
  simp only [FunctionPass.functionName, FunctionPass.environment, h.resolveParameter]

/-- Nor what the addresses of functions are made of. -/
theorem Edit.synth (h : Edit known ready c d) : d.synth = c.synth := by
  cases h with
  | store _ h => rcases ModelPass.addStore_eq h with rfl | ⟨_, _, rfl⟩ <;> rfl
  | _ => rfl

theorem Edits.synth (h : Edits known ready c d) : d.synth = c.synth := by
  induction h with
  | refl => rfl
  | tail _ h ih => exact h.synth.trans ih

/-- Changes leave the fields that are bound, and bind no further ones. -/
theorem Edits.binds_iff (h : Edits known ready c d) {pass model : String} :
    d.Binds pass model ↔ c.Binds pass model := by
  constructor
  · intro hb
    cases hb with
    | function hp hf hm =>
      rw [h.functionName] at hm
      exact .function hp (hf.of_grownTo h.grownTo fun _ ⟨_, _, hd, _⟩ => nomatch hd) hm
    | http hp hf hm =>
      exact .http hp (hf.of_grownTo h.grownTo fun _ ⟨_, _, hd, _⟩ => nomatch hd) hm
    | predictions hp hf hm =>
      exact .predictions hp (hf.of_grownTo h.grownTo fun _ hd => nomatch hd) hm
  · intro hb
    cases hb with
    | function hp hf hm =>
      rw [← h.functionName] at hm
      exact .function hp (hf.mono h.grownTo) hm
    | http hp hf hm => exact .http hp (hf.mono h.grownTo) hm
    | predictions hp hf hm => exact .predictions hp (hf.mono h.grownTo) hm

/-- Each of a list of changes makes some types count as models. -/
theorem isModel_foldl_iff {α : Type} {f : Context → α → Context} {p : α → Prop} {type : String}
    {as : List α} (hf : ∀ a ∈ as, ∀ d, Edits AnyName AnyTime c d →
      Edits AnyName AnyTime d (f d a) ∧
        ((f d a).isModel type = true ↔ d.isModel type = true ∨ p a)) :
    (as.foldl f c).isModel type = true ↔ c.isModel type = true ∨ ∃ a ∈ as, p a := by
  induction as generalizing c with
  | nil => simp
  | cons a as ih =>
    obtain ⟨hfirst, hiff⟩ := hf a List.mem_cons_self c .refl
    rw [List.foldl_cons, ih fun b hb d hd => hf b (List.mem_cons_of_mem a hb) d (hfirst.trans hd),
      hiff, List.exists_mem_cons_iff, or_assoc]

end Context

/-! ### Passes that bind fields -/

namespace FunctionPass

theorem isModel_bind (functions : Dict FunctionHandle) (c : Context) (b : Binding)
    (type : String) : (bind functions c b).isModel type = true ↔
      c.isModel type = true ∨ datasourceId type = datasource (functionName c b) := by
  have made : ∀ d : Context, d.isModel = c.isModel →
      ((((d.addResource (datasourceOf (functionName c b)
        (functionArn functions d (functionName c b)))).addResolver b.type b.field
          (datasource (functionName c b)) stack
            (·.push "pipelineFunctions" (.str (functionName c b)))).log .debug
              ("Bound " ++ b.type ++ "." ++ b.field ++ " to function "
                ++ functionName c b)).isModel type = true ↔
        c.isModel type = true ∨ datasourceId type = datasource (functionName c b)) := by
    intro d hd
    rw [Context.isModel_log, Context.isModel_addResolver, Context.isModel_addResource_datasource
      (r := datasourceOf _ _) (datasource_eq (functionName c b)), hd, or_comm, datasource_eq]
    exact or_congr_right ⟨congrArg datasourceId, datasourceId_inj⟩
  unfold bind
  dsimp only
  split
  · exact made _ rfl
  · exact made c rfl

/-- Each directive on a field binds it to a function. -/
theorem exists_binding {c : Context} {bs : List Binding} (h : bindings c = .ok bs)
    {t : TypeDefinition} {f : FieldDefinition} (ht : t ∈ c.schema.definitions) (hf : f ∈ t.fields)
    {d : Directive} (hd : d ∈ f.directives) (hname : d.name = "function") :
    ∃ function, (d.argument? "name").bind Value.asString? = some function
      ∧ ⟨t.name, f.name, function⟩ ∈ bs := by
  have hdirected : f.hasDirective "function" = true :=
    List.find?_isSome.2 ⟨d, hd, beq_iff_eq.2 hname⟩
  have hfield := Document.mem_fieldsWith.2 ⟨ht, hf, hdirected⟩
  have hbound : d ∈ f.directives.filter (·.name == "function") :=
    List.mem_filter.2 ⟨hd, beq_iff_eq.2 hname⟩
  obtain ⟨b, hb, hof⟩ := Except.exists_of_mapM h
    (List.mem_flatMap.2 ⟨(t, f), hfield, List.mem_map.2 ⟨d, hbound, rfl⟩⟩)
  obtain ⟨function, hfunction, hof⟩ := Except.bind_eq_ok hof
  cases hof
  exact ⟨function, Directive.requiredString_eq_ok.1 hfunction, hb⟩

/-- The fields that are bound to functions are those that the pass finds. -/
theorem exists_binding_iff {c : Context} {bs : List Binding} (h : bindings c = .ok bs)
    {model : String} : (∃ b ∈ bs, datasourceId model = datasource (functionName c b)) ↔
      c.Binds "function" model := by
  constructor
  · rintro ⟨b, hb, hm⟩
    obtain ⟨⟨t, f, d⟩, hd, hof⟩ := Except.mem_of_mapM h hb
    obtain ⟨function, hfunction, hof⟩ := Except.bind_eq_ok hof
    cases hof
    obtain ⟨⟨t', f'⟩, htf, hd⟩ := List.mem_flatMap.1 hd
    obtain ⟨d', hd, he⟩ := List.mem_map.1 hd
    cases he
    obtain ⟨hmem, hname⟩ := List.mem_filter.1 hd
    obtain ⟨ht, hf, -⟩ := Document.mem_fieldsWith.1 htf
    exact .function rfl ⟨t, ht, rfl, f, hf, rfl, d, hmem, eq_of_beq hname,
      Directive.requiredString_eq_ok.1 hfunction⟩ hm
  · intro hb
    cases hb with
    | http hp | predictions hp => exact absurd hp (by decide)
    | function _ hf hm =>
      obtain ⟨t, ht, rfl, f, hf, rfl, d, hd, hname, hfunction⟩ := hf
      obtain ⟨_, hfunction', hb⟩ := exists_binding h ht hf hd hname
      cases hfunction.symm.trans hfunction'
      exact ⟨_, hb, hm⟩

theorem isModel_of_apply {functions : Dict FunctionHandle} {s t : PassState}
    (h : (apply functions).on s = (.ok (), t)) (type : String) :
    t.context.isModel type = true ↔
      s.context.isModel type = true ∨ s.context.Binds "function" type := by
  rw [apply, on_examine_bind] at h
  split at h
  · next bs hbs =>
    cases h
    rw [← exists_binding_iff hbs]
    refine Context.isModel_foldl_iff fun b hb d hd =>
      ⟨bind_edits functions ((attaches_of_bindings hbs hb).mono hd), ?_⟩
    rw [isModel_bind, hd.functionName]
  · exact nomatch (Prod.mk.inj h).1

end FunctionPass

namespace HttpPass

theorem isModel_bind (c : Context) (b : Binding) (type : String) :
    (bind c b).isModel type = true ↔
      c.isModel type = true ∨ datasourceId type = datasource b.url := by
  refine (Bool.eq_iff_iff.1 (congrFun (Context.isModel_addResolver
    { c with resources := c.resources.ensure (datasourceOf b.url) } _ _ _ _ _) type)).trans ?_
  have hid : (datasourceOf b.url).id = datasourceId (String.ofList (b.url.host.filter
      Char.isAlphanum)) := rfl
  rw [ResourceGraph.ensure]
  split
  · next hc =>
    -- where the datasource is there, its type counts as a model already
    refine (or_iff_left_of_imp fun he => ?_).symm
    rw [Context.isModel_iff, he]
    exact .inr hc
  · refine (Context.isModel_addResource_datasource (c := c) hid).trans ?_
    rw [or_comm]
    exact or_congr_right ⟨congrArg datasourceId, datasourceId_inj⟩

theorem bindingOf_eq_ok {t : TypeDefinition} {f : FieldDefinition} {d : Directive} {b : Binding}
    (h : bindingOf t f d = .ok b) : b.type = t.name ∧ b.field = f.name ∧ ∃ text,
      (d.argument? "url").bind Value.asString? = some text ∧ splitUrl text.toList = some b.url := by
  obtain ⟨text, htext, h⟩ := Except.bind_eq_ok h
  split at h
  · cases h
  · next url hurl =>
    dsimp only at h
    split at h
    · cases h
      exact ⟨rfl, rfl, text, Directive.requiredString_eq_ok.1 htext, hurl⟩
    · cases h

/-- The fields that are bound to endpoints are those that the pass finds. -/
theorem exists_binding_iff {c : Context} {bs : List Binding} (h : bindings c = .ok bs)
    {model : String} : (∃ b ∈ bs, datasourceId model = datasource b.url) ↔
      c.Binds "http" model := by
  constructor
  · rintro ⟨b, hb, hm⟩
    obtain ⟨⟨t, f, d⟩, hd, hof⟩ := Except.mem_of_mapM h hb
    obtain ⟨ht, hf, hdirective⟩ := mem_directedFields hd
    obtain ⟨-, -, text, htext, hurl⟩ := bindingOf_eq_ok hof
    exact .http rfl ⟨t, ht, rfl, f, hf, d, text, hdirective, htext, hurl⟩ hm
  · intro hb
    cases hb with
    | function hp | predictions hp => exact absurd hp (by decide)
    | http _ hf hm =>
      obtain ⟨t, ht, rfl, f, hf, d, text, hdirective, htext, hurl⟩ := hf
      have hlisted : (t, f, d) ∈ directedFields c "http" := List.mem_filterMap.2 ⟨(t, f),
        Document.mem_fieldsWith.2 ⟨ht, hf, Option.isSome_iff_exists.2 ⟨d, hdirective⟩⟩,
        Option.map_eq_some_iff.2 ⟨d, hdirective, rfl⟩⟩
      obtain ⟨b, hb, hof⟩ := Except.exists_of_mapM h hlisted
      obtain ⟨-, -, text', htext', hurl'⟩ := bindingOf_eq_ok hof
      obtain rfl := Option.some.inj (htext.symm.trans htext')
      obtain rfl := Option.some.inj (hurl.symm.trans hurl')
      exact ⟨b, hb, hm⟩

theorem isModel_of_apply {s t : PassState} (h : apply.on s = (.ok (), t)) (type : String) :
    t.context.isModel type = true ↔
      s.context.isModel type = true ∨ s.context.Binds "http" type := by
  rw [apply, on_examine_bind] at h
  split at h
  · next bs hbs =>
    cases h
    rw [← exists_binding_iff hbs]
    exact Context.isModel_foldl_iff fun b hb d hd =>
      ⟨bind_edits ((attaches_of_bindings hbs hb).mono hd), isModel_bind d b type⟩
  · exact nomatch (Prod.mk.inj h).1

end HttpPass

namespace PredictionsPass

theorem isModel_provide (c : Context) (bucket type : String) :
    ((c.addResource (storageAccess bucket)).addResource datasource).isModel type = true ↔
      c.isModel type = true ∨ type = "Predictions" := by
  have access : (c.addResource (storageAccess bucket)).isModel = c.isModel :=
    Context.isModel_addResource_of_kind (by decide : kindOfId? "PredictionsStorageAccess" ≠ _)
      (by decide : kindOfId? "PredictionsStorageAccess" ≠ _)
  have hid : datasource.id = datasourceId "Predictions" := rfl
  rw [Context.isModel_addResource_datasource hid, access, or_comm]

theorem usages_eq_nil_iff {c : Context} {us : List (String × List String)}
    (h : usages c = .ok us) {model : String} :
    c.Binds "predictions" model ↔ us ≠ [] ∧ model = "Predictions" := by
  constructor
  · intro hb
    cases hb with
    | function hp | http hp => exact absurd hp (by decide)
    | predictions _ hf hm =>
      obtain ⟨t, ht, -, f, hf, hd⟩ := hf
      obtain ⟨u, hu, -⟩ := Except.exists_of_mapM h (Document.mem_fieldsWith.2 ⟨ht, hf, hd⟩)
      exact ⟨List.ne_nil_of_mem hu, hm⟩
  · rintro ⟨hne, hm⟩
    obtain ⟨u, hu⟩ := List.exists_mem_of_ne_nil us hne
    obtain ⟨⟨t, f⟩, htf, -⟩ := Except.mem_of_mapM h hu
    obtain ⟨ht, hf, hd⟩ := Document.mem_fieldsWith.1 htf
    exact .predictions rfl ⟨t, ht, rfl, f, hf, hd⟩ hm

theorem isModel_of_apply {storage : Option Json} {s t : PassState}
    (h : (apply storage).on s = (.ok (), t)) (type : String) :
    t.context.isModel type = true ↔
      s.context.isModel type = true ∨ s.context.Binds "predictions" type := by
  rw [apply, on_examine_bind] at h
  split at h
  · next us hus =>
    rw [usages_eq_nil_iff hus]
    split at h
    · next hempty =>
      cases h
      exact (or_iff_left fun hb => hb.1 (List.isEmpty_iff.1 hempty)).symm
    · next hsome =>
      rw [and_iff_right fun he => hsome (List.isEmpty_iff.2 he)]
      split at h
      · exact nomatch (Prod.mk.inj h).1
      · next bucket _ =>
        cases h
        have resolved := Context.isModel_foldl (f := bind)
          (fun c _ => c.isModel_addResolver _ _ _ _ _) us
          ((s.context.addResource (storageAccess bucket)).addResource datasource)
        exact (Bool.eq_iff_iff.1 (congrFun resolved type)).trans (isModel_provide _ bucket type)
  · exact nomatch (Prod.mk.inj h).1

end PredictionsPass

/-! ### Models -/

/-- What counts as a model is remembered as one, or is `bound`. -/
def PassState.Agrees (bound : String → Prop) (s : PassState) : Prop :=
  ∀ type, s.context.isModel type = true ↔
    s.memory.models.contains type = true ∨ bound type

namespace PassState.Agrees

variable {bound : String → Prop} {s t : PassState}

theorem congr {bound' : String → Prop} (h : s.Agrees bound)
    (hb : ∀ type, bound type ↔ bound' type) : s.Agrees bound' :=
  fun type => (h type).trans (or_congr_right (hb type))

theorem of_same (h : s.Agrees bound) (hs : Part.stores.Same s t) (hm : Part.models.Same s t) :
    t.Agrees bound := by
  have hs : t.context.isModel = s.context.isModel := hs
  have hm : t.memory.models = s.memory.models := hm
  intro type
  rw [hs, hm]
  exact h type

/-- A pass that makes types count as models which it does not remember. -/
theorem of_bound {p : String → Prop} (h : s.Agrees bound) (hm : Part.models.Same s t)
    (hp : ∀ type, t.context.isModel type = true ↔ s.context.isModel type = true ∨ p type) :
    t.Agrees fun type => bound type ∨ p type := by
  have hm : t.memory.models = s.memory.models := hm
  intro type
  rw [hp, hm, h type, or_assoc]

end PassState.Agrees

namespace ModelPass

variable {bound : String → Prop} {s t : PassState}

theorem isModel_addStore {c d : Context} {model : String} (h : addStore c model = .ok d)
    (type : String) : d.isModel type = true ↔ type = model ∨ c.isModel type = true := by
  rcases addStore_eq h with rfl | ⟨dbType, secrets, rfl⟩
  · have htable : datasourceId type ≠ tableId model := fun he => by
      have := (kindOfId?_datasourceId type).symm.trans (he ▸ kindOfId?_tableId model)
      cases this
    rw [Context.isModel_addResource_datasource (id_tableDatasource model),
      Context.isModel_addResource, id_table, or_iff_left htable]
    exact ⟨fun h => h.elim .inl fun h => h.imp_left tableId_inj, fun h => h.imp_right .inr⟩
  · exact Context.isModel_addResource_datasource (id_relationalDatasource c model dbType secrets)

theorem isModel_addOperations (c : Context) (model : String) :
    (addOperations c model).isModel = c.isModel := by
  have operation : ∀ root (e : Context) f, (addOperation root model e f).isModel = e.isModel :=
    fun _ e _ => e.isModel_addResolver _ _ _ _ _
  exact (Context.isModel_foldl (operation _) _ _).trans (Context.isModel_foldl (operation _) _ _)

theorem isModel_addFields {c d : Context} {model : String} (h : addFields c model = .ok d) :
    d.isModel = c.isModel := by
  obtain ⟨t, ht, -⟩ := addFields_eq_ok h
  rw [addFields_of_getType? ht] at h
  cases h
  rfl

/-- A model that is made is remembered, and counts as one. -/
theorem agrees_of_materialize {model : String} {synthesized : Bool} (hs : s.Agrees bound)
    (h : (materialize model synthesized).on s = (.ok (), t)) : t.Agrees bound := by
  obtain ⟨c, d, hstore, hfields, ht, hm⟩ := materialize_ok h
  have operated : t.context.isModel = c.isModel := by
    rw [ht, Context.isModel_log, isModel_addOperations, isModel_addFields hfields]
  intro type
  rw [operated, isModel_addStore hstore, hs type, hm, Dict.contains_insert, Bool.or_eq_true,
    decide_eq_true_eq, or_assoc]

theorem agrees_of_addSynthesized {model : String} {fields : List FieldDefinition}
    (hs : s.Agrees bound) (h : (addSynthesized model fields).on s = (.ok (), t)) :
    t.Agrees bound := by
  rw [on_addSynthesized] at h
  split at h
  · exact nomatch (Prod.mk.inj h).1
  · have declared : PassState.Agrees bound { s with context := declare model fields s.context } :=
      hs
    exact agrees_of_materialize declared h

theorem agrees_of_apply (hs : s.Agrees bound) (h : apply.on s = (.ok (), t)) :
    t.Agrees bound := by
  rw [apply, on_context_bind] at h
  obtain ⟨_, u, hu, hlog⟩ := Action.on_bind_eq_ok.1 h
  have made : u.Agrees bound := by
    refine Action.forEach_invariant (fun model _ v w hw hv => ?_) hu hs
    rw [materializeDeclared, on_memory_bind] at hw
    split at hw
    · cases hw
      exact hv
    · exact agrees_of_materialize hv hw
  exact made.of_same ((spares_log _ _).of_ok hlog) ((spares_log _ _).of_ok hlog)

end ModelPass

namespace ManyToManyPass

theorem agrees_of_apply {bound : String → Prop} {s t : PassState} (hs : s.Agrees bound)
    (h : apply.on s = (.ok (), t)) : t.Agrees bound := by
  obtain ⟨g, u, hg, hlinked⟩ := Action.on_bind_eq_ok.1 h
  obtain rfl : s = u := ((Prod.mk.inj ((on_examine groups s).symm.trans hg)).2 :)
  refine Action.forEach_invariant (fun p _ v w hw hv => ?_) hlinked hs
  obtain ⟨a, b, -, hlink⟩ := linkedBy_of_linkGroup hw
  obtain ⟨x, hx, hends⟩ := hlink.made
  have made : x.Agrees bound := ModelPass.agrees_of_addSynthesized hv hx
  exact made.of_same ((linkEnds_spares p.1 a b (by decide)).of_ok hends)
    ((linkEnds_spares p.1 a b (by decide)).of_ok hends)

end ManyToManyPass

/-! ### Chains -/

namespace Chain

variable {args : FactoryArgs} {bound : String → Prop} {e : Entry} {s t : PassState}

/-- A pass that binds no fields binds none. -/
theorem not_binds {c : Context} {pass model : String}
    (h : pass ∉ ["function", "http", "predictions"]) : ¬ c.Binds pass model := by
  intro hb
  have hp : pass = "function" ∨ pass = "http" ∨ pass = "predictions" := by
    cases hb with
    | function hp => exact .inl hp
    | http hp => exact .inr (.inl hp)
    | predictions hp => exact .inr (.inr hp)
  simp only [List.mem_cons, List.not_mem_nil, or_false] at h
  exact h hp

/-- Behind each pass, what counts as a model is remembered as one, or has been bound. -/
theorem agrees_of_builtin (he : e ∈ (builtin args).dropLast)
    (h : e.pass.apply.on s = (.ok (), t)) (hs : s.Agrees bound) :
    t.Agrees fun type => bound type ∨ s.context.Binds e.pass.name type := by
  have unbound (hn : e.pass.name ∉ ["function", "http", "predictions"]) (ht : t.Agrees bound) :
      t.Agrees fun type => bound type ∨ s.context.Binds e.pass.name type :=
    ht.congr fun _ => (or_iff_left (not_binds hn)).symm
  have kept (hstores : Part.stores ∉ touched e.pass.name)
      (hmodels : Part.models ∉ touched e.pass.name) : t.Agrees bound :=
    hs.of_same ((builtin_spares (List.dropLast_subset _ he) hstores).of_ok h)
      ((builtin_spares (List.dropLast_subset _ he) hmodels).of_ok h)
  simp only [builtin, List.dropLast_cons_cons, List.dropLast_singleton, List.mem_cons,
    List.not_mem_nil, or_false] at he
  rcases he with rfl | rfl | rfl | rfl | rfl | rfl | rfl | rfl | rfl | rfl | rfl | rfl | rfl
  · exact unbound (by decide) (ModelPass.agrees_of_apply hs h)
  · exact hs.of_bound ((FunctionPass.apply_spares _ (by decide)).of_ok h)
      (FunctionPass.isModel_of_apply h)
  · exact hs.of_bound ((HttpPass.apply_spares (by decide)).of_ok h) (HttpPass.isModel_of_apply h)
  · exact hs.of_bound ((PredictionsPass.apply_spares _ (by decide)).of_ok h)
      (PredictionsPass.isModel_of_apply h)
  · exact unbound (by decide) (kept (by decide) (by decide))
  · exact unbound (by decide) (kept (by decide) (by decide))
  · exact unbound (by decide) (kept (by decide) (by decide))
  · exact unbound (by decide) (kept (by decide) (by decide))
  · exact unbound (by decide) (ManyToManyPass.agrees_of_apply hs h)
  · exact unbound (by decide) (kept (by decide) (by decide))
  · exact unbound (by decide) (kept (by decide) (by decide))
  · exact unbound (by decide : "auth" ∉ _)
      (kept (by decide : _ ∉ touched "auth") (by decide : _ ∉ touched "auth"))
  · exact unbound (by decide) (kept (by decide) (by decide))

/-- Behind a list of passes, what counts as a model is remembered as one, or has been bound by one
of them. -/
theorem agrees_of_entries {c : Context} {es : Chain} (hes : ∀ e ∈ es, e ∈ (builtin args).dropLast)
    (hc : Context.Edits Context.AnyName Context.AnyTime c s.context) (hs : s.Agrees bound)
    (h : (Action.forEach Entry.apply es).on s = (.ok (), t)) :
    t.Agrees fun type => bound type ∨ ∃ e ∈ es, c.Binds e.pass.name type := by
  induction es generalizing s bound with
  | nil =>
    cases h
    exact hs.congr fun _ => by simp
  | cons e es ih =>
    obtain ⟨u, hu, h⟩ := Action.forEach_cons_ok.1 h
    have he := hes e List.mem_cons_self
    have hpass := on_pass_of_apply hu
    have edits : EditsAt Context.AnyName _ e.pass.apply s :=
      builtin_edits (List.dropLast_subset _ he) fun _ _ => trivial
    have hlater := hc.trans ((edits.of_ok hpass).mono (fun _ => id) fun _ _ _ => trivial)
    refine (ih (fun d hd => hes d (List.mem_cons_of_mem e hd)) hlater
      (agrees_of_builtin he hpass hs) h).congr fun type => ?_
    rw [hc.binds_iff, List.exists_mem_cons_iff, or_assoc]

/-- **What counts as a model when a pass is started** is what the pass of models remembers, and
besides the types whose datasource a field has been bound to by then. -/
theorem isModel_iff_of_started {c : Context} {i : Nat} {x : Start} (hc : c.resources = {})
    (hx : (started (builtin args) { context := c })[i]? = some x) (type : String) :
    x.before.context.isModel type = true ↔ x.before.memory.models.contains type = true
      ∨ ∃ e ∈ (builtin args).take i, c.Binds e.pass.name type := by
  obtain ⟨he, hrun⟩ := on_take_of_started hx
  have hi : i ≤ (builtin args).dropLast.length :=
    Nat.le_of_lt_succ (List.getElem?_eq_some_iff.1 he).1
  have hes : ∀ e ∈ (builtin args).take i, e ∈ (builtin args).dropLast := by
    intro e he
    rw [List.dropLast_eq_take] at hi ⊢
    exact List.take_subset_take_left _ (by simpa using hi) he
  have fresh : PassState.Agrees (fun _ => False) { context := c } := by
    intro type
    rw [Context.isModel, hc]
    exact iff_of_false Bool.false_ne_true fun h => h.elim Bool.false_ne_true id
  refine (agrees_of_entries hes .refl fresh hrun type).trans (or_congr_right ?_)
  exact or_iff_right id

/-- A schema with a field that is bound to a host, which has the name of a type that is no model. -/
def hostedPost : Context where
  schema := ⟨[{
    kind := .object, name := "Query",
    fields := [{
      name := "post", type := .named "String",
      directives := [⟨"http", [("url", .string "https://Post/1")]⟩] }] }, {
    kind := .object, name := "Post",
    fields := [{ name := "title", type := .named "String" }] }]⟩

/-- The pass of recognition is started for it. -/
theorem isSome_startedHosted :
    ((started (builtin {}) { context := hostedPost })[3]?).isSome = true := by decide +kernel

/-- The pass of recognition as it is started for it. -/
def hostedStart : Start :=
  ((started (builtin {}) { context := hostedPost })[3]?).get isSome_startedHosted

theorem started_hostedPost :
    (started (builtin {}) { context := hostedPost })[3]? = some hostedStart :=
  (Option.some_get isSome_startedHosted).symm

theorem isModel_iff_hostedPost : hostedPost.resources = {}
    ∧ (started (builtin {}) { context := hostedPost })[3]? = some hostedStart
    ∧ (hostedStart.before.context.isModel "Post" = true ↔
      hostedStart.before.memory.models.contains "Post" = true
        ∨ ∃ e ∈ (builtin {}).take 3, hostedPost.Binds e.pass.name "Post") :=
  ⟨rfl, started_hostedPost, isModel_iff_of_started rfl started_hostedPost "Post"⟩

/-- Once a field is bound to a host of its name, a type counts as a model that is not remembered as
one. -/
theorem not_isModel_iff_contains_hostedPost :
    ¬ ∀ (args : FactoryArgs) (c : Context) (i : Nat) (x : Start), c.resources = {} → 0 < i →
      (started (builtin args) { context := c })[i]? = some x → ∀ type, c.schema.IsTyped type →
        (x.before.context.isModel type = true ↔ x.before.memory.models.contains type = true) := by
  intro h
  have typed : hostedPost.schema.IsTyped "Post" :=
    ⟨_, List.mem_cons_of_mem _ List.mem_cons_self, by decide⟩
  have agree := h {} hostedPost 3 hostedStart rfl (by decide) started_hostedPost "Post" typed
  revert agree
  decide +kernel

end Chain

end ApiCompiler
