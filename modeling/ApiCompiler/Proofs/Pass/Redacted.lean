import ApiCompiler.Chain
import ApiCompiler.Proofs.Pass.Relation
import ApiCompiler.Proofs.Resource.Links
import ApiCompiler.Proofs.Resource.Redacted

/-!
# Passes — the secrets that no pass reads

Where the secrets of some models are blanked out, a pass ends as it does with them, and leaves what
it leaves with them, blanked out.

* `Context.redact`, `PassState.redact`: what passes share, with the secrets of some models blanked
  out.
* `apply_blind`, one for each pass.
* `Chain.builtin_blind`: the passes that every chain starts with.
-/

namespace ApiCompiler

open PassAction ApiCompiler.Action

variable {models : List String}

/-! ### Contexts -/

namespace Context

/-- The context with the secrets of some models blanked out. -/
def redact (models : List String) (c : Context) : Context :=
  { c with
    resources         := c.resources.redact models
    datasourceSecrets := ConnectionSecrets.redact models c.datasourceSecrets }

theorem contains_redact (models : List String) (c : Context) (id : String) :
    (c.redact models).resources.contains id = c.resources.contains id :=
  c.resources.contains_redact models id

theorem isModel_redact (models : List String) (c : Context) :
    (c.redact models).isModel = c.isModel := by
  funext type
  rw [isModel, isModel, contains_redact, contains_redact]

theorem log_redact (c : Context) (level : LogLevel) (message : String) :
    (c.redact models).log level message = (c.log level message).redact models := rfl

theorem addResource_redact' (c : Context) (r : Resource) :
    (c.redact models).addResource (r.redact models) = (c.addResource r).redact models := by
  simp only [addResource, redact, ResourceGraph.redact_add]

/-- A resource without secrets may as well be put into a context where these are blanked out. -/
theorem addResource_redact {r : Resource} (h : r.get? "secrets" = none) (c : Context) :
    (c.redact models).addResource r = (c.addResource r).redact models := by
  rw [← addResource_redact', Resource.redact_of_get?_none h]

theorem ensure_redact {r : Resource} (h : r.get? "secrets" = none) (c : Context) :
    { c.redact models with resources := (c.redact models).resources.ensure r }
      = redact models { c with resources := c.resources.ensure r } := by
  simp only [redact, ResourceGraph.redact_ensure, Resource.redact_of_get?_none h]

theorem modifyResource_redact {f : Resource → Resource} (hf : Resource.Overt models f)
    (c : Context) (id : String) :
    (c.redact models).modifyResource id f = (c.modifyResource id f).redact models := by
  simp only [modifyResource, redact, ResourceGraph.redact_modify hf]

theorem addResolver_redact {f : Resource → Resource} (hf : Resource.Overt models f) (c : Context)
    (typeName fieldName datasource stack : String) :
    (c.redact models).addResolver typeName fieldName datasource stack f
      = (c.addResolver typeName fieldName datasource stack f).redact models := by
  have hnone : (c.newResolver typeName fieldName datasource stack).get? "secrets" = none := by
    rw [ResourceGraph.get?_newResolver _ _ _ _ _ (by decide)]
    rfl
  exact (congrArg (fun d : Context => d.modifyResource (resolverId typeName fieldName) f)
    (ensure_redact hnone c)).trans (modifyResource_redact hf _ _)

theorem foldl_redact {α : Type} {f : Context → α → Context}
    (h : ∀ c a, f (c.redact models) a = (f c a).redact models) (as : List α) (c : Context) :
    as.foldl f (c.redact models) = (as.foldl f c).redact models := by
  induction as generalizing c with
  | nil => rfl
  | cons a as ih => rw [List.foldl_cons, List.foldl_cons, h, ih]

end Context

open Context

/-- What passes share, with the secrets of some models blanked out. -/
def PassState.redact (models : List String) (s : PassState) : PassState :=
  { s with context := s.context.redact models }

/-! ### Steps -/

namespace PassAction

variable {α β : Type}

theorem blind_context_bind {f : Context → PassAction β}
    (h : ∀ c, Mirrors (PassState.redact models) (f c) (f (c.redact models))) :
    Blind (PassState.redact models) (context >>= f) := fun s => by
  rw [on_context_bind, on_context_bind]
  exact h s.context s

theorem blind_memory_bind {f : Memory → PassAction β}
    (h : ∀ m, Blind (PassState.redact models) (f m)) :
    Blind (PassState.redact models) (memory >>= f) := fun s => by
  rw [on_memory_bind, on_memory_bind]
  exact h s.memory s

theorem blind_onContext {f : Context → Context}
    (h : ∀ c, f (c.redact models) = (f c).redact models) :
    Blind (PassState.redact models) (onContext f) :=
  blind_change fun s => congrArg (fun c : Context => { s with context := c }) (h s.context)

theorem blind_onMemory (f : Memory → Memory) : Blind (PassState.redact models) (onMemory f) :=
  blind_change fun _ => rfl

theorem blind_log (level : LogLevel) (message : String) :
    Blind (PassState.redact models) (PassAction.log level message) :=
  blind_onContext fun _ => rfl

theorem blind_examine {f : Context → Except Fault α} (h : ∀ c, f (c.redact models) = f c) :
    Blind (PassState.redact models) (examine f) := fun s => by
  rw [on_examine, on_examine]
  exact congrArg (·, s.redact models) (h s.context)

theorem blind_reading (role : Role) : Blind (PassState.redact models) (reading role) := fun s => by
  rw [on_reading, on_reading]
  rfl

theorem blind_writing (role : Role) : Blind (PassState.redact models) (writing role) := fun s => by
  rw [on_writing, on_writing]
  rfl

end PassAction

/-! ### Bound fields -/

namespace FunctionPass

theorem bind_redact (functions : Dict FunctionHandle) (c : Context) (b : Binding) :
    bind functions (c.redact models) b = (bind functions c b).redact models := by
  have bound : ∀ (function arn : String) (d : Context),
      ((d.redact models).addResource (datasourceOf function arn)).addResolver b.type b.field
          (datasource function) stack (·.push "pipelineFunctions" (.str function))
        = ((d.addResource (datasourceOf function arn)).addResolver b.type b.field
          (datasource function) stack (·.push "pipelineFunctions" (.str function))).redact models :=
    fun function arn d => by
      rw [addResource_redact rfl, addResolver_redact (.push (by decide) _)]
  by_cases h : (namesEnv b.function && environment c == "NONE") = true
  · have h' : (namesEnv b.function && environment (c.redact models) == "NONE") = true := h
    rw [bind, bind, if_pos h, if_pos h']
    exact congrArg (fun d : Context => d.log _ _) (bound _ _ (c.log _ _))
  · have h' : ¬(namesEnv b.function && environment (c.redact models) == "NONE") = true := h
    rw [bind, bind, if_neg h, if_neg h']
    exact congrArg (fun d : Context => d.log _ _) (bound _ _ c)

theorem apply_blind (functions : Dict FunctionHandle) :
    Blind (PassState.redact models) (apply functions) :=
  blind_bind (blind_examine fun _ => rfl) fun bs =>
    blind_onContext (foldl_redact (bind_redact functions) bs)

end FunctionPass

namespace HttpPass

theorem bind_redact (c : Context) (b : Binding) :
    bind (c.redact models) b = (bind c b).redact models := by
  rw [bind, ensure_redact rfl,
    addResolver_redact (.comp (.set (by decide) _) (.set (by decide) _))]
  rfl

theorem apply_blind : Blind (PassState.redact models) apply :=
  blind_bind (blind_examine fun _ => rfl) fun bs => blind_onContext (foldl_redact bind_redact bs)

end HttpPass

namespace PredictionsPass

theorem bind_redact (c : Context) (usage : String × List String) :
    bind (c.redact models) usage = (bind c usage).redact models :=
  addResolver_redact (.set (by decide) _) c _ _ _ _

theorem apply_blind (storage : Option Json) : Blind (PassState.redact models) (apply storage) := by
  refine blind_bind (blind_examine fun _ => rfl) fun us => ?_
  split
  · exact blind_pure ()
  · split
    · exact blind_throw _
    · refine blind_onContext fun c => ?_
      rw [addResource_redact rfl, addResource_redact rfl, foldl_redact bind_redact]

end PredictionsPass

/-! ### Keys -/

namespace PrimaryKeyPass

theorem keys_redact (c : Context) : keys (c.redact models) = keys c := by
  have hkey : keyOf (c.redact models) = keyOf c := by
    funext ks t f
    rw [keyOf, keyOf, isModel_redact]
  rw [keys, keys, hkey]
  rfl

theorem setKey_redact (c : Context) (k : Key) :
    setKey (c.redact models) k = (setKey c k).redact models := by
  have hholder : holder (c.redact models) k.model = holder c k.model := by
    rw [holder, holder, contains_redact]
  rw [setKey, setKey, hholder, contains_redact]
  split
  · rw [modifyResource_redact (.comp (.set (by decide) _) (.set (by decide) _)), log_redact]
  · rfl

theorem apply_blind : Blind (PassState.redact models) apply :=
  blind_bind (blind_examine keys_redact) fun ks => blind_onContext (foldl_redact setKey_redact ks)

end PrimaryKeyPass

namespace IndexPass

theorem addQuery_redact (c : Context) (r : IndexRecord) :
    addQuery (c.redact models) r = (addQuery c r).redact models := by
  rw [addQuery, addQuery]
  split
  · rfl
  · rw [addResolver_redact (.set (by decide) _)]
    rfl

theorem attach_redact (c : Context) (r : IndexRecord) :
    attach (c.redact models) r = (attach c r).redact models := by
  have hlist : listedUnder c ≠ "secrets" := by
    unfold listedUnder
    split <;> decide
  rw [attach, attach, ← addQuery_redact, ← modifyResource_redact (.push hlist _)]
  rfl

theorem addIndex_blind (r : IndexRecord) : Blind (PassState.redact models) (addIndex r) := by
  refine blind_context_bind fun c => ?_
  rw [isModel_redact]
  exact blind_guard (blind_memory_bind fun m => blind_guard
    (blind_bind (blind_onContext fun c => attach_redact c r) fun _ =>
      blind_bind (blind_log _ _) fun _ => blind_onMemory _))

theorem apply_blind : Blind (PassState.redact models) apply :=
  blind_bind (blind_examine fun _ => rfl) fun _ => blind_forEach fun r _ => addIndex_blind r

end IndexPass

/-! ### Relations -/

theorem linkedFields_redact (c : Context) (directive : String) :
    linkedFields (c.redact models) directive = linkedFields c directive := by
  have hlink : linkOf (c.redact models) = linkOf c := by
    funext directive t f
    rw [linkOf, linkOf, isModel_redact]
  rw [linkedFields, linkedFields, hlink]
  rfl

theorem addLinkResolver_redact (c : Context) (l : Link) {properties : List (String × Json)}
    (h : "secrets" ∉ properties.map (·.1)) :
    addLinkResolver (c.redact models) l properties
      = (addLinkResolver c l properties).redact models :=
  addResolver_redact (.foldl_set fun _ hp he => h (he ▸ List.mem_map_of_mem hp)) c _ _ _ _

namespace HasManyPass

theorem attach_redact (c : Context) (l : Link) :
    attach (c.redact models) l = (attach c l).redact models := by
  have hkey : ensureForeignKey (c.redact models) l.target l.foreignKey
      = (ensureForeignKey c l.target l.foreignKey).redact models := rfl
  rw [attach, attach, hkey, modifyResource_redact (.push (by decide) _),
    ← addLinkResolver_redact _ _ (by simp)]
  rfl

theorem link_blind (l : Link) : Blind (PassState.redact models) (link l) := by
  rw [link]
  exact blind_guard (blind_onContext fun c => attach_redact c l)

theorem apply_blind : Blind (PassState.redact models) apply :=
  blind_bind (blind_examine fun c => linkedFields_redact c _) fun _ =>
    blind_forEach fun l _ => link_blind l

end HasManyPass

namespace HasOnePass

theorem attach_redact (c : Context) (l : Link) :
    attach (c.redact models) l = (attach c l).redact models := by
  rw [attach, attach, ← addLinkResolver_redact _ _ (by simp)]
  rfl

theorem link_blind (l : Link) : Blind (PassState.redact models) (link l) := by
  rw [link]
  exact blind_guard
    (blind_bind (blind_onContext fun c => attach_redact c l) fun _ => blind_onMemory _)

theorem apply_blind : Blind (PassState.redact models) apply := by
  refine blind_bind (blind_examine fun c => linkedFields_redact c _) fun _ =>
    blind_bind (blind_forEach fun l _ => link_blind l) fun _ => blind_memory_bind fun m => ?_
  split
  · exact blind_throw _
  · exact blind_pure ()

end HasOnePass

namespace BelongsToPass

theorem attach_redact (c : Context) (l : Link) :
    attach (c.redact models) l = (attach c l).redact models := by
  rw [attach, attach, ← addLinkResolver_redact _ _ (by simp)]
  rfl

theorem link_blind (l : Link) : Blind (PassState.redact models) (link l) := by
  rw [link]
  exact blind_guard (blind_context_bind fun _ =>
    blind_guard (blind_onContext fun c => attach_redact c l))

theorem apply_blind : Blind (PassState.redact models) apply :=
  blind_bind (blind_examine fun c => linkedFields_redact c _) fun _ =>
    blind_forEach fun l _ => link_blind l

end BelongsToPass

/-! ### Models -/

namespace ModelPass

theorem holdsSecrets_relationalDatasource (c : Context) (model : String) (dbType : DbType)
    (secrets : ConnectionSecrets) :
    (relationalDatasource c model dbType secrets).HoldsSecrets models ↔ model ∈ models := by
  have hsome : ((relationalDatasource c model dbType secrets).get? "secrets").isSome = true := by
    unfold relationalDatasource
    split <;> simp [Resource.get?_set]
  rw [Resource.HoldsSecrets, and_iff_left hsome, id_relationalDatasource, List.mem_map]
  constructor
  · rintro ⟨m, hm, he⟩
    exact datasourceId_inj he ▸ hm
  · exact fun hm => ⟨model, hm, rfl⟩

/-- The datasource of a model, blanked out, is the one for blank secrets. -/
theorem relationalDatasource_redact (c : Context) (model : String) (dbType : DbType)
    (secrets : ConnectionSecrets) :
    (relationalDatasource c model dbType secrets).redact models
      = relationalDatasource c model dbType (if model ∈ models then .blank else secrets) := by
  have hholds : _ ↔ model ∈ models := holdsSecrets_relationalDatasource c model dbType secrets
  rw [Resource.redact]
  by_cases h : model ∈ models
  · rw [if_pos (hholds.2 h), if_pos h]
    unfold relationalDatasource
    split
    · rw [Resource.set_comm _ (by decide), Resource.set_set]
    · rw [Resource.set_set]
  · rw [if_neg (mt hholds.1 h), if_neg h]

theorem secrets_table (c : Context) (model : String) : (table c model).get? "secrets" = none := by
  unfold table
  split <;> simp [Resource.get?_set, ResourceGraph.get?_bare]

theorem secrets_tableDatasource (model : String) :
    (tableDatasource model).get? "secrets" = none := by
  simp [tableDatasource, Resource.get?_set, ResourceGraph.get?_bare]

theorem addRelational_redact (c : Context) (model : String) (dbType : DbType)
    (secrets : ConnectionSecrets) :
    (c.redact models).addResource (relationalDatasource (c.redact models) model dbType
        (if model ∈ models then .blank else secrets))
      = (c.addResource (relationalDatasource c model dbType secrets)).redact models := by
  rw [← addResource_redact', relationalDatasource_redact]
  rfl

theorem addTable_redact (c : Context) (model : String) :
    ((c.redact models).addResource (table (c.redact models) model)).addResource
        (tableDatasource model)
      = ((c.addResource (table c model)).addResource (tableDatasource model)).redact models := by
  rw [← addResource_redact (secrets_tableDatasource model),
    ← addResource_redact (secrets_table c model)]
  rfl

/-- A model has a store without its secrets where it has one with them. -/
theorem addStore_redact (c : Context) (model : String) :
    addStore (c.redact models) model = (addStore c model).map (Context.redact models) := by
  have hdb : (c.redact models).datasourceFor model = c.datasourceFor model := rfl
  have hsecrets : (c.redact models).datasourceSecrets.find? model
      = (c.datasourceSecrets.find? model).map fun s => if model ∈ models then .blank else s :=
    Dict.find?_mapValues _ _ _
  unfold addStore
  dsimp only
  rw [hdb, hsecrets]
  split
  · cases c.datasourceSecrets.find? model with
    | none => rfl
    | some secrets =>
      simp only [Option.map_some, Except.map]
      rw [addRelational_redact]
  · rw [addTable_redact]
    rfl

theorem addFields_redact (c : Context) (model : String) :
    addFields (c.redact models) model = (addFields c model).map (Context.redact models) := by
  have hschema : (c.redact models).schema.getType? model = c.schema.getType? model := rfl
  cases ht : c.schema.getType? model with
  | none => rw [addFields, addFields, hschema, ht]; rfl
  | some t => rw [addFields_of_getType? ht, addFields_of_getType? (hschema.trans ht)]; rfl

theorem addOperation_redact (root model : String) (c : Context) (field : FieldDefinition) :
    addOperation root model (c.redact models) field
      = (addOperation root model c field).redact models := by
  have hid : Resource.Overt models id := .refl
  rw [addOperation, addResolver_redact hid]
  rfl

theorem addOperations_redact (c : Context) (model : String) :
    addOperations (c.redact models) model = (addOperations c model).redact models := by
  rw [addOperations, foldl_redact (addOperation_redact _ _), foldl_redact (addOperation_redact _ _)]
  rfl

theorem materialize_blind (model : String) (synthesized : Bool) :
    Blind (PassState.redact models) (materialize model synthesized) := by
  -- what is examined here is a context with its secrets, so the steps are not blind one by one
  intro s
  have hcontext : (s.redact models).context = s.context.redact models := rfl
  have hdb : (s.context.redact models).datasourceFor model = s.context.datasourceFor model := rfl
  rw [on_materialize, on_materialize, hcontext, hdb, addStore_redact]
  cases addStore s.context model with
  | error e => rfl
  | ok c =>
    simp only [Except.map]
    rw [addFields_redact]
    cases addFields c model with
    | error e => rfl
    | ok d =>
      simp only [Except.map]
      rw [addOperations_redact, log_redact]
      rfl

theorem addSynthesized_blind (model : String) (fields : List FieldDefinition) :
    Blind (PassState.redact models) (addSynthesized model fields) := by
  rw [addSynthesized]
  refine blind_memory_bind fun m => blind_guard ?_
  exact blind_bind (blind_onContext fun _ => rfl) fun _ =>
    blind_bind (blind_onContext fun _ => rfl) fun _ => materialize_blind model true

theorem apply_blind : Blind (PassState.redact models) apply := by
  refine blind_context_bind fun c => blind_bind (blind_forEach fun m _ => ?_) fun _ => blind_log _ _
  refine blind_memory_bind fun _ => ?_
  split
  · exact blind_pure ()
  · exact materialize_blind m false

end ModelPass

/-! ### Many to many -/

namespace ManyToManyPass

theorem attach_redact (join : String) (c : Context) (m : Member) :
    attach join (c.redact models) m = (attach join c m).redact models :=
  addResolver_redact (.set (by decide) _) (retypeField c _ _ _) _ _ _ _

theorem requireModel_blind (m : Member) : Blind (PassState.redact models) (requireModel m) := by
  refine blind_bind (blind_reading _) fun _ => blind_memory_bind fun _ => ?_
  split
  · exact blind_pure ()
  · exact blind_throw _

theorem indexEnd_blind (join : String) (m : Member) :
    Blind (PassState.redact models) (indexEnd join m) :=
  blind_bind (blind_writing _) fun _ => IndexPass.addIndex_blind _

theorem buildJoin_blind (join : String) (a b : Member) :
    Blind (PassState.redact models) (buildJoin join a b) :=
  blind_bind (blind_writing _) fun _ =>
    blind_bind (ModelPass.addSynthesized_blind _ _) fun _ =>
      blind_bind (blind_forEach fun m _ => indexEnd_blind join m) fun _ =>
        blind_bind (blind_writing _) fun _ => blind_bind (blind_onMemory _) fun _ =>
          blind_bind (blind_writing _) fun _ => blind_bind (blind_onMemory _) fun _ =>
            blind_bind (blind_onContext (foldl_redact (attach_redact join) _)) fun _ =>
              blind_log _ _

theorem apply_blind : Blind (PassState.redact models) apply :=
  blind_bind (blind_examine fun _ => rfl) fun _ => blind_forEach fun (join, _) _ =>
    blind_bind (blind_ofExcept _) fun (a, b) => blind_bind (requireModel_blind a) fun _ =>
      blind_bind (requireModel_blind b) fun _ => buildJoin_blind join a b

end ManyToManyPass

/-! ### Values, rules and tables elsewhere -/

namespace DefaultPass

theorem defaults_redact (c : Context) : defaults (c.redact models) = defaults c := by
  have hdefault : defaultOf (c.redact models) = defaultOf c := by
    funext t f d
    rw [defaultOf, defaultOf, isModel_redact]
    rfl
  rw [defaults, defaults, hdefault]
  rfl

theorem setDefault_overt (field : String) (value : Json) :
    Resource.Overt models (setDefault field value) := by
  intro r
  rw [setDefault, setDefault, Resource.get?_redact models r (by decide)]
  split
  · exact (Resource.redact_set (by decide) r _).symm
  · rfl

theorem attach_redact (c : Context) (d : Default) :
    attach (c.redact models) d = (attach c d).redact models :=
  addResolver_redact (setDefault_overt _ _) c _ _ _ _

theorem apply_blind : Blind (PassState.redact models) apply :=
  blind_bind (blind_examine defaults_redact) fun ds =>
    blind_onContext (foldl_redact attach_redact ds)

end DefaultPass

namespace AuthPass

theorem rulesOf_redact (t : TypeDefinition) (c : Context) :
    rulesOf (c.redact models) t = rulesOf c t := by
  rw [rulesOf, rulesOf, isModel_redact]

theorem collectRules_blind : Blind (PassState.redact models) collectRules :=
  blind_context_bind fun _ => blind_forEach fun t _ =>
    blind_bind (blind_examine (rulesOf_redact t)) fun _ => blind_onMemory _

theorem settleModel_blind (model : String) :
    Blind (PassState.redact models) (settleModel model) := by
  refine blind_memory_bind fun _ => ?_
  split
  · exact blind_pure ()
  · refine blind_context_bind fun c => ?_
    change Blind _ (if isSandbox c then _ else _)
    split
    · exact blind_onMemory _
    · exact blind_log _ _

theorem attachRules_redact (m : Memory) (c : Context) (model : String) :
    attachRules m (c.redact models) model = (attachRules m c model).redact models := by
  have hresolver : ∀ r, isResolverOf model (r.redact models) = isResolverOf model r := fun r => by
    rw [isResolverOf, isResolverOf, Resource.kind_redact, Resource.get?_redact _ _ (by decide)]
  have hresources : (c.redact models).resources = c.resources.redact models := rfl
  rw [attachRules, attachRules, hresources, ResourceGraph.ids_filter_redact hresolver]
  exact foldl_redact (fun c id => modifyResource_redact (.set (by decide) _) c id) _ c

theorem addOptional_redact {r : Option Resource} (h : ∀ r', r = some r' → r'.get? "secrets" = none)
    (c : Context) : addOptional (c.redact models) r = (addOptional c r).redact models := by
  cases r with
  | none => rfl
  | some r => exact addResource_redact (h r rfl) c

theorem secrets_policy {args : FactoryArgs} {r : Resource} (h : policy? args = some r) :
    r.get? "secrets" = none := by
  obtain ⟨f, hf, rfl⟩ := exists_of_policy? h
  exact (hf.get? _ _ (by decide)).trans rfl

theorem secrets_apiKey {c : Context} {r : Resource} (h : apiKey? c = some r) :
    r.get? "secrets" = none := by
  obtain ⟨f, hf, rfl⟩ := exists_of_apiKey? h
  exact (hf.get? _ _ (by decide)).trans rfl

theorem apply_blind (args : FactoryArgs) : Blind (PassState.redact models) (apply args) := by
  refine blind_bind collectRules_blind fun _ => blind_bind (blind_onMemory _) fun _ =>
    blind_context_bind fun c => blind_bind (blind_forEach fun m _ => settleModel_blind m) fun _ =>
      blind_memory_bind fun m => blind_bind (blind_examine fun _ => rfl) fun _ =>
        blind_bind (blind_onContext (foldl_redact (attachRules_redact m) _)) fun _ =>
          blind_bind (blind_onContext fun c => ?_) fun _ => blind_log _ _
  have hkey : apiKey? (c.redact models) = apiKey? c := rfl
  rw [hkey, addOptional_redact fun _ => secrets_policy, addOptional_redact fun _ => secrets_apiKey]

end AuthPass

namespace MapsToPass

theorem mappings_redact (c : Context) : mappings (c.redact models) = mappings c := by
  have hmapping : mappingOf (c.redact models) = mappingOf c := by
    funext t d
    rw [mappingOf, mappingOf, isModel_redact]
  rw [mappings, mappings, hmapping]
  rfl

theorem rename_redact (c : Context) (m : Mapping) :
    rename (c.redact models) m = (rename c m).redact models := by
  have hname : Resource.Overt models (·.setName m.table) := .set (by decide) _
  rw [rename, rename, modifyResource_redact (hname.comp (.set (by decide) _)),
    modifyResource_redact hname, log_redact]

theorem apply_blind : Blind (PassState.redact models) apply :=
  blind_bind (blind_examine mappings_redact) fun ms =>
    blind_onContext (foldl_redact rename_redact ms)

end MapsToPass

namespace SearchPass

theorem models_redact (c : Context) :
    SearchPass.models (c.redact models) = SearchPass.models c := by
  have hmodel : modelOf (c.redact models) = modelOf c := by
    funext t
    rw [modelOf, modelOf, contains_redact]
  rw [SearchPass.models, SearchPass.models, hmodel]
  rfl

theorem attach_redact (c : Context) (model : String) :
    attach (c.redact models) model = (attach c model).redact models := by
  rw [attach, attach, modifyResource_redact (.set (by decide) _),
    addResolver_redact (.set (by decide) _)]
  rfl

theorem provision_redact (c : Context) (ms : List String) :
    provision (c.redact models) ms = (provision c ms).redact models := by
  have hstreaming : (streaming ms).get? "secrets" = none :=
    ((ResourceGraph.streaming_decorates ms).get? _ _ (by decide)).trans rfl
  rw [provision, provision, log_redact, addResource_redact rfl, addResource_redact rfl,
    addResource_redact hstreaming]
  rfl

theorem apply_blind : Blind (PassState.redact models) apply := by
  refine blind_bind (blind_examine models_redact) fun ms => ?_
  split
  · exact blind_pure ()
  · refine blind_onContext fun c => ?_
    rw [provision_redact, foldl_redact attach_redact]

end SearchPass

/-! ### Chains -/

namespace Chain

/-- **No pass of a chain's own tells secrets apart.** -/
theorem builtin_blind {args : FactoryArgs} {e : Entry} (he : e ∈ builtin args) :
    Blind (PassState.redact models) e.pass.apply := by
  simp only [builtin, List.mem_cons, List.not_mem_nil, or_false] at he
  rcases he with rfl | rfl | rfl | rfl | rfl | rfl | rfl | rfl | rfl | rfl | rfl | rfl | rfl | rfl
  · exact ModelPass.apply_blind
  · exact FunctionPass.apply_blind _
  · exact HttpPass.apply_blind
  · exact PredictionsPass.apply_blind _
  · exact PrimaryKeyPass.apply_blind
  · exact IndexPass.apply_blind
  · exact HasManyPass.apply_blind
  · exact HasOnePass.apply_blind
  · exact ManyToManyPass.apply_blind
  · exact BelongsToPass.apply_blind
  · exact DefaultPass.apply_blind
  · exact AuthPass.apply_blind args
  · exact MapsToPass.apply_blind
  · exact SearchPass.apply_blind

end Chain

end ApiCompiler
