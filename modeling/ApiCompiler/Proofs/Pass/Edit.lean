import ApiCompiler.Pass.Access
import ApiCompiler.Pass.Binding
import ApiCompiler.Pass.Join
import ApiCompiler.Pass.Key
import ApiCompiler.Pass.Model
import ApiCompiler.Pass.Relation
import ApiCompiler.Pass.Storage
import ApiCompiler.Proofs.Pass.Steps
import ApiCompiler.Proofs.Schema.Closed
import Mathlib.Logic.Relation

/-!
# Passes — the changes that passes make

Whatever a pass of a chain's own does to the context, it does by small changes of a few kinds
(`Context.Edit`). What each kind of change keeps, every pass keeps, and every run of passes.
The fields and types that are added are those that some pass makes (`Context.Gains`,
`Context.Founds`).

* `Decorates`: a function on resources that touches only some of their properties.
* `Edit.contains`, `Edit.logs`: no change takes a resource away, or a diagnostic.
* `Edit.grownTo`: the schema grows, whatever the change.
* `Edits.addResolver`, `Edits.ensureObjectField`, `Edits.foldl`: larger changes as runs of small
  ones.
* `EditsAt`: a step that does what it does by such changes, whatever it ends with.

A type that a change refers to may be one that the schema referred to when the pass began, which is
what `known` is for. The store of a model may ask something of the schema, which `ready` says. It
comes before the fields of the model, but where these are not refused, it may as well come after
them; so a pass that ends well only adds stores that the schema is ready for.
-/

namespace ApiCompiler

/-! ### Properties that are set later -/

/-- `f` keeps what a resource is, and each of its properties that is not among `keys`. -/
structure Decorates (keys : List String) (f : Resource → Resource) : Prop where
  id    : ∀ r, (f r).id = r.id
  kind  : ∀ r, (f r).kind = r.kind
  stack : ∀ r, (f r).stack = r.stack
  get?  : ∀ r key, key ∉ keys → (f r).get? key = r.get? key

namespace Decorates

variable {keys : List String} {f g : Resource → Resource}

theorem refl : Decorates keys fun r => r :=
  ⟨fun _ => rfl, fun _ => rfl, fun _ => rfl, fun _ _ _ => rfl⟩

theorem comp (hg : Decorates keys g) (hf : Decorates keys f) : Decorates keys fun r => g (f r) where
  id r        := (hg.id _).trans (hf.id r)
  kind r      := (hg.kind _).trans (hf.kind r)
  stack r     := (hg.stack _).trans (hf.stack r)
  get? r k hk := (hg.get? _ k hk).trans (hf.get? r k hk)

theorem set {k : String} (hk : k ∈ keys) (value : Json) : Decorates keys (·.set k value) where
  id _    := rfl
  kind _  := rfl
  stack _ := rfl
  get? r key hn := by
    rw [Resource.get?_set, if_neg]
    rintro rfl
    exact hn hk

/-- A function that sets a property to a value that it takes from the resource. -/
theorem set' {k : String} (hk : k ∈ keys) (h : ∀ r, f r = r ∨ ∃ value, f r = r.set k value) :
    Decorates keys f where
  id r := by rcases h r with h | ⟨v, h⟩ <;> rw [h]; rfl
  kind r := by rcases h r with h | ⟨v, h⟩ <;> rw [h]; rfl
  stack r := by rcases h r with h | ⟨v, h⟩ <;> rw [h]; rfl
  get? r k hn := by
    rcases h r with h | ⟨v, h⟩ <;> rw [h]
    exact (set hk v).get? r k hn

theorem push {k : String} (hk : k ∈ keys) (value : Json) : Decorates keys (·.push k value) := by
  refine set' hk fun r => .inr ?_
  unfold Resource.push
  split
  · exact ⟨_, rfl⟩
  · exact ⟨_, rfl⟩

theorem foldl_set {properties : List (String × Json)} (hk : ∀ p ∈ properties, p.1 ∈ keys) :
    Decorates keys fun r => properties.foldl (fun r p => r.set p.1 p.2) r := by
  induction properties with
  | nil => exact refl
  | cons p ps ih =>
    exact (ih fun q hq => hk q (List.mem_cons_of_mem p hq)).comp (set (hk p List.mem_cons_self) p.2)

end Decorates

/-- The properties that passes set on resources that are there already, whatever they are. -/
def decorations : List String :=
  ["index", "relation", "foreignKey", "pipelineFunctions", "method", "resourcePath", "actions",
    "defaults", "authRules", Resource.nameKey, "streamViewType"]

/-- The properties that say which table holds the records of a model. -/
def tableNaming : List String := ["tableName", Resource.nameKey]

/-- The properties that list the indexes of a table. -/
def indexLists : List String := ["globalSecondaryIndexes", "localSecondaryIndexes"]

/-- The properties that name fields of a model. -/
def keyProperties : List String := "hashKey" :: "sortKeys" :: indexLists

theorem Decorates.rename (table : String) :
    Decorates tableNaming fun r => (r.set "tableName" (.str table)).setName table :=
  (Decorates.set (by decide) _).comp (.set (by decide) _)

theorem Decorates.setKey (partitionKey : String) (sortKeys : List String) :
    Decorates ["hashKey", "sortKeys"] fun r =>
      (r.set "hashKey" (.str partitionKey)).set "sortKeys" (.ofStrings sortKeys) :=
  (Decorates.set (by decide) _).comp (.set (by decide) _)

theorem Decorates.pushIndex {list : String} (hl : list ∈ indexLists) (value : Json) :
    Decorates keyProperties (·.push list value) :=
  .push (List.mem_cons_of_mem _ (List.mem_cons_of_mem _ hl)) value

namespace AuthPass

/-- The policy for the administrators has a few properties of its own. -/
theorem exists_of_policy? {args : FactoryArgs} {r : Resource} (h : policy? args = some r) :
    ∃ f, Decorates ["roles", "identityPoolId"] f
      ∧ r = f { id := adminPolicy, kind := .policy } := by
  have roles : Decorates ["roles", "identityPoolId"] (·.set "roles" (.ofStrings args.adminRoles)) :=
    .set List.mem_cons_self _
  rw [policy?] at h
  split at h
  · cases h
  · have he := (Option.some.inj h).symm
    split at he
    · exact ⟨_, (Decorates.set (by decide) _).comp roles, he⟩
    · exact ⟨_, roles, he⟩

/-- So has the key that callers use by default. -/
theorem exists_of_apiKey? {c : Context} {r : Resource} (h : apiKey? c = some r) :
    ∃ f, Decorates ["expirationDays"] f ∧ r = f { id := defaultApiKey, kind := .apiKey } := by
  rw [apiKey?] at h
  dsimp only at h
  split at h
  · exact ⟨_, .set List.mem_cons_self _, (Option.some.inj h).symm⟩
  · cases h

end AuthPass

/-! ### Changes of the context -/

/-- The name that a type asks for the table of its records. -/
def TypeDefinition.tableName? (t : TypeDefinition) : Option String :=
  (t.directive? "mapsTo").bind fun d => (d.argument? "name").bind Value.asString?

/-- The names that types ask for their tables, in their order. -/
def Document.tableNames (d : Document) : List (String × String) :=
  (d.typesWith "mapsTo").filterMap fun t => t.tableName?.map fun table => (t.name, table)

/-- The type of what a search for records of a model finds. -/
def SearchPass.resultName (model : String) : String := "Searchable" ++ model ++ "Connection"

namespace Context

/-- Whether a datasource is there, or the table that comes with it. -/
def Reaches (c : Context) (datasource : String) : Prop :=
  ∃ model, datasource = datasourceId model ∧ c.isModel model = true

/-- The resources that passes add as they are, apart from the stores of models and resolvers. -/
inductive Supplies (c : Context) : Resource → Prop where
  | function (name arn : String) : Supplies c (FunctionPass.datasourceOf name arn)
  | endpoint (u : HttpPass.Url) (h : c.resources.contains (HttpPass.datasource u) = false) :
      Supplies c (HttpPass.datasourceOf u)
  | storage (bucket : String) : Supplies c (PredictionsPass.storageAccess bucket)
  | recognition : Supplies c PredictionsPass.datasource
  | policy {args : FactoryArgs} {r : Resource} (h : AuthPass.policy? args = some r) : Supplies c r
  | apiKey {d : Context} {r : Resource} (h : AuthPass.apiKey? d = some r) : Supplies c r
  | domain (encrypted : Bool) : Supplies c (SearchPass.domain encrypted)
  | search (h : c.resources.contains SearchPass.domainId = true) :
      Supplies c SearchPass.datasource
  | streaming (models : List String)
      (h : ∀ m ∈ models, c.resources.contains (tableId m) = true) :
      Supplies c (SearchPass.streaming models)

/-- An index of the schema asks for a query of a name. -/
def AsksQuery (c : Context) (name : String) : Prop :=
  ∃ type, c.schema.HasField type fun _ directives =>
    ∃ i ∈ directives, i.name = "index" ∧ ∃ args : IndexPass.Arguments,
      i.decodeArguments IndexPass.decode IndexPass.defaults
        c.parameters.shouldDeepMergeDirectiveConfigDefaults = .ok args
      ∧ args.queryField = some name

/-- The names that passes give to the queries of indexes: those that are asked for, and those that
come from the field of an index. -/
inductive NamesQuery (c : Context) : String → Prop where
  | given {name : String} (h : c.AsksQuery name) : NamesQuery c name
  | default {type field : String} (h : c.schema.Declares type field) :
      NamesQuery c (IndexPass.defaultQuery type field)

/-- The types that passes make where they are missing. -/
inductive Founds (c : Context) : String → Prop where
  | query : Founds c "Query"
  | mutation : Founds c "Mutation"
  | connection {model : String} (h : c.schema.IsTyped model) : Founds c (connectionName model)
  | join {name : String} (h : c.schema.IsJoin name) : Founds c name

/-- The fields that passes add to a type, where `known` are names that the schema has referred
to. -/
inductive Gains (known : String → Prop) (c : Context) : String → FieldDefinition → Prop where
  | record {model : String} {f : FieldDefinition} (h : c.schema.IsTyped model)
      (hf : f ∈ ModelPass.idField :: ModelPass.timeFields ++ ModelPass.versionFields) :
      Gains known c model f
  | page {model : String} {f : FieldDefinition} (h : c.schema.IsTyped model)
      (hf : f ∈ ModelPass.connectionFields model) : Gains known c (connectionName model) f
  | query {model : String} {f : FieldDefinition} (h : c.schema.IsTyped model)
      (hp : c.schema.IsTyped (connectionName model)) (hf : f ∈ ModelPass.queryFields model) :
      Gains known c "Query" f
  | mutation {model : String} {f : FieldDefinition} (h : c.schema.IsTyped model)
      (hf : f ∈ ModelPass.mutationFields model) : Gains known c "Mutation" f
  | index {model field name : String} (hm : c.isModel model = true)
      (hd : c.schema.Declares model field) (hn : c.NamesQuery name) :
      Gains known c "Query" { name, type := .named (connectionName model) }
  | key {type source field name : String} (h : c.schema.Declares source field)
      (hn : name = Text.lowerFirst source ++ Text.capitalize field ++ "Id"
        ∨ name = field ++ "Id") : Gains known c type { name, type := .named "ID" }
  | link {join : String} {a b : ManyToManyPass.Member} {f : FieldDefinition} (ha : known a.type)
      (hb : known b.type) (hf : f ∈ ManyToManyPass.joinFields a b) : Gains known c join f
  | search {t : TypeDefinition} (h : t ∈ c.schema.typesWith "searchable") :
      Gains known c "Query"
        { name := SearchPass.queryName t.name,
          type := .named (SearchPass.resultName t.name) }

/-- The fields that passes attach resolvers to: those that carry directives, those of the types of
operations, and creations of records that have default values, which need not be fields. -/
inductive Attaches (c : Context) : String → String → Prop where
  | directed {type field : String}
      (h : c.schema.HasField type fun name directives => name = field ∧ directives ≠ []) :
      Attaches c type field
  | operation {root field : String} (hr : root ∈ ["Query", "Mutation"])
      (h : c.schema.Declares root field) : Attaches c root field
  | creation {model : String}
      (h : c.schema.HasField model fun _ directives =>
        (findDirective? "default" directives).isSome = true) :
      Attaches c "Mutation" ("create" ++ model)

/-- One change that a pass makes to the context, where the stores that are added are those of models
that the schema is `ready` for, and the schema has referred to the names that are `known`. -/
inductive Edit (known : String → Prop) (ready : Document → String → Prop) (c : Context) :
    Context → Prop where
  | log (level : LogLevel) (message : String) : Edit known ready c (c.log level message)
  | object {name : String} (h : c.Founds name) :
      Edit known ready c { c with schema := c.schema.ensureObject name }
  | field {type : String} {field : FieldDefinition} (h : c.Gains known type field) :
      Edit known ready c (c.modifyType type (·.ensureField field))
  | mark {type : String} (h : c.schema.IsJoin type) :
      Edit known ready c (c.modifyType type ModelPass.markModel)
  | retype {type field model : String} (h : c.schema.LinksToMany type field)
      (hm : c.isModel model = true) (hk : known model ∨ c.schema.IsJoin model) :
      Edit known ready c (retypeField c type field (.named (connectionName model)))
  | store {model : String} {d : Context} (hr : ready c.schema model)
      (h : ModelPass.addStore c model = .ok d) : Edit known ready c d
  | supply {r : Resource} (h : Supplies c r) : Edit known ready c (c.addResource r)
  | resolver (typeName fieldName : String) {datasource : String} (stack : String)
      (hn : c.resources.contains (resolverId typeName fieldName) = false)
      (hd : c.Reaches datasource) (ha : c.Attaches typeName fieldName) :
      Edit known ready c (c.addResource (c.newResolver typeName fieldName datasource stack))
  | decorate (id : String) {f : Resource → Resource} (hf : Decorates decorations f) :
      Edit known ready c (c.modifyResource id f)
  | rename {model table : String} (h : (model, table) ∈ c.schema.tableNames) :
      Edit known ready c (c.modifyResource (tableId model) fun r =>
        (r.set "tableName" (.str table)).setName table)
  | key {k : PrimaryKeyPass.Key} (h : c.schema.HasKey k.model k.partitionKey k.sortKeys) :
      Edit known ready c (c.modifyResource (PrimaryKeyPass.holder c k.model) fun r =>
        (r.set "hashKey" (.str k.partitionKey)).set "sortKeys" (.ofStrings k.sortKeys))
  | index {model list : String} (name : String) {partitionKey : String} {sortKeys : List String}
      (hl : list ∈ indexLists)
      (h : c.schema.IsTyped model → c.schema.HasKey model partitionKey sortKeys) :
      Edit known ready c (c.modifyResource (tableId model)
        (·.push list (IndexPass.entry name partitionKey sortKeys)))

/-- Changes of the context one after the other. -/
abbrev Edits (known : String → Prop) (ready : Document → String → Prop) :
    Context → Context → Prop :=
  Relation.ReflTransGen (Edit known ready)

/-- A schema is as ready for a model as any other one. -/
def AnyTime (_ : Document) (_ : String) : Prop := True

/-- Any name may have been referred to. -/
def AnyName (_ : String) : Prop := True

end Context

theorem ResourceGraph.contains_add (g : ResourceGraph) (r : Resource) (id : String) :
    (g.add r).contains id = (decide (id = r.id) || g.contains id) :=
  Dict.contains_insert g.byId r.id id r

theorem ResourceGraph.contains_add_iff {g : ResourceGraph} {r : Resource} {id : String} :
    (g.add r).contains id = true ↔ id = r.id ∨ g.contains id = true := by
  rw [contains_add, Bool.or_eq_true, decide_eq_true_eq]

theorem ResourceGraph.contains_modify (g : ResourceGraph) (id other : String)
    (f : Resource → Resource) : (g.modify id f).contains other = g.contains other := by
  have h : ∀ h : ResourceGraph, h.contains other = (h.get? other).isSome := fun _ => rfl
  rw [h, h, get?_modify]
  split
  · next he => rw [he, Option.isSome_map]
  · rfl

namespace ModelPass

/-- The store of a model is a table with its datasource, or a relational datasource. -/
theorem addStore_eq {c d : Context} {model : String} (h : addStore c model = .ok d) :
    d = (c.addResource (table c model)).addResource (tableDatasource model)
      ∨ ∃ dbType secrets, d = c.addResource (relationalDatasource c model dbType secrets) := by
  simp only [addStore] at h
  split at h
  · split at h
    · exact .inr ⟨_, _, (Except.ok.inj h).symm⟩
    · cases h
  · exact .inl (Except.ok.inj h).symm

@[simp] theorem id_table (c : Context) (model : String) : (table c model).id = tableId model := by
  unfold table
  split <;> rfl

@[simp] theorem id_tableDatasource (model : String) :
    (tableDatasource model).id = datasourceId model := rfl

@[simp] theorem id_relationalDatasource (c : Context) (model : String) (dbType : DbType)
    (secrets : ConnectionSecrets) :
    (relationalDatasource c model dbType secrets).id = datasourceId model := by
  unfold relationalDatasource
  split <;> rfl

end ModelPass

namespace Context

variable {known : String → Prop} {ready : Document → String → Prop} {c d : Context}

theorem resources_addResource (c : Context) (r : Resource) :
    (c.addResource r).resources = c.resources.add r := rfl

theorem schema_log (c : Context) (level : LogLevel) (message : String) :
    (c.log level message).schema = c.schema := rfl

theorem resources_log (c : Context) (level : LogLevel) (message : String) :
    (c.log level message).resources = c.resources := rfl

theorem resources_modifyResource (c : Context) (id : String) (f : Resource → Resource) :
    (c.modifyResource id f).resources = c.resources.modify id f := rfl

theorem contains_addResource (c : Context) (r : Resource) :
    (c.addResource r).resources.contains r.id = true :=
  ResourceGraph.contains_add_iff.2 (.inl rfl)

/-- The fields that passes add carry no directives, and their arguments no defaults. -/
theorem Gains.isPlain {type : String} {f : FieldDefinition} (h : c.Gains known type f) :
    f.directives = [] ∧ ∀ a ∈ f.arguments, a.default = none := by
  cases h with
  | index | key | search => exact ⟨rfl, nofun⟩
  | record _ hf =>
    have plain : ∀ f ∈ ModelPass.idField :: ModelPass.timeFields ++ ModelPass.versionFields,
        f.directives = [] ∧ ∀ a ∈ f.arguments, a.default = none := by decide
    exact plain f hf
  | page _ hf =>
    simp only [ModelPass.connectionFields, List.mem_cons, List.not_mem_nil, or_false] at hf
    rcases hf with rfl | rfl <;> exact ⟨rfl, nofun⟩
  | query _ _ hf =>
    simp only [ModelPass.queryFields, List.mem_cons, List.not_mem_nil, or_false] at hf
    rcases hf with rfl | rfl
    · exact ⟨rfl, fun a ha => by rw [List.mem_singleton.1 ha]⟩
    · exact ⟨rfl, nofun⟩
  | mutation _ hf =>
    obtain ⟨op, -, rfl⟩ := List.mem_map.1 hf
    exact ⟨rfl, nofun⟩
  | link _ _ hf =>
    simp only [ManyToManyPass.joinFields, List.mem_cons, List.not_mem_nil, or_false] at hf
    rcases hf with rfl | rfl | rfl | rfl | rfl <;> exact ⟨rfl, nofun⟩

/-- No change takes a resource away. -/
theorem Edit.contains (h : Edit known ready c d) {id : String}
    (hc : c.resources.contains id = true) : d.resources.contains id = true := by
  have add : ∀ (g : ResourceGraph) r, g.contains id = true → (g.add r).contains id = true :=
    fun g r hg => ResourceGraph.contains_add_iff.2 (.inr hg)
  cases h with
  | log | object | field | mark | retype => exact hc
  | store _ h =>
    rcases ModelPass.addStore_eq h with rfl | ⟨_, _, rfl⟩
    · exact add _ _ (add _ _ hc)
    · exact add _ _ hc
  | supply _ => exact add _ _ hc
  | resolver => exact add _ _ hc
  | decorate | rename | key | index =>
    rwa [resources_modifyResource, ResourceGraph.contains_modify]

/-- No change takes a diagnostic away, or puts one in front of another. -/
theorem Edit.logs (h : Edit known ready c d) : c.logs <+: d.logs := by
  cases h with
  | log level message => exact List.prefix_append _ _
  | object | field | mark | retype | supply _ | resolver | decorate | rename | key | index =>
    exact List.prefix_rfl
  | store _ h =>
    rcases ModelPass.addStore_eq h with rfl | ⟨_, _, rfl⟩ <;> exact List.prefix_rfl

/-- **The schema grows, whatever the change.** -/
theorem Edit.grownTo (h : Edit known ready c d) : c.schema.GrownTo d.schema := by
  cases h with
  | log | supply | resolver | decorate | rename | key | index => exact .refl _
  | object => exact Document.grownTo_ensureObject _ _
  | field h => exact Document.grownTo_modifyType fun t _ => t.grownTo_ensureField _ h.isPlain.1
  | mark h =>
    refine Document.grownTo_modifyType fun t ht => ?_
    unfold ModelPass.markModel
    split
    · exact .refl _ t
    · next hl => exact TypeDefinition.grownTo_addModel (Bool.eq_false_iff.2 hl) (ht ▸ h)
  | retype h =>
    exact Document.grownTo_modifyType fun t ht => TypeDefinition.grownTo_retype (ht ▸ h) _
  | store _ h =>
    rcases ModelPass.addStore_eq h with rfl | ⟨_, _, rfl⟩ <;> exact .refl _

/-- No change touches what a run was given. -/
theorem Edit.parameters (h : Edit known ready c d) : d.parameters = c.parameters := by
  cases h with
  | store _ h => rcases ModelPass.addStore_eq h with rfl | ⟨_, _, rfl⟩ <;> rfl
  | _ => rfl

theorem Edit.authConfig (h : Edit known ready c d) : d.authConfig = c.authConfig := by
  cases h with
  | store _ h => rcases ModelPass.addStore_eq h with rfl | ⟨_, _, rfl⟩ <;> rfl
  | _ => rfl

theorem Edit.slots (h : Edit known ready c d) : d.slots = c.slots := by
  cases h with
  | store _ h => rcases ModelPass.addStore_eq h with rfl | ⟨_, _, rfl⟩ <;> rfl
  | _ => rfl

theorem Gains.imp {known' : String → Prop} {type : String} {f : FieldDefinition}
    (h : c.Gains known type f) (hk : ∀ name, known name → known' name) :
    c.Gains known' type f := by
  cases h with
  | record h hf => exact .record h hf
  | page h hf => exact .page h hf
  | query h hp hf => exact .query h hp hf
  | mutation h hf => exact .mutation h hf
  | index hm hd hn => exact .index hm hd hn
  | key h hn => exact .key h hn
  | link ha hb hf => exact .link (hk _ ha) (hk _ hb) hf
  | search h => exact .search h

/-- Less may be asked of the schema. -/
theorem Edit.mono {known' : String → Prop} {ready' : Document → String → Prop}
    (h : Edit known ready c d) (hk : ∀ name, known name → known' name)
    (hr : ∀ e model, ready e model → ready' e model) : Edit known' ready' c d := by
  cases h with
  | log => exact .log _ _
  | object h => exact .object h
  | field h => exact .field (h.imp hk)
  | mark h => exact .mark h
  | retype h hm hn => exact .retype h hm (hn.imp_left (hk _))
  | store hm h => exact .store (hr _ _ hm) h
  | supply h => exact .supply h
  | resolver _ _ _ hn hd ha => exact .resolver _ _ _ hn hd ha
  | decorate _ hf => exact .decorate _ hf
  | rename h => exact .rename h
  | key h => exact .key h
  | index _ hl h => exact .index _ hl h

theorem Edits.mono {known' : String → Prop} {ready' : Document → String → Prop}
    (h : Edits known ready c d) (hk : ∀ name, known name → known' name)
    (hr : ∀ e model, ready e model → ready' e model) : Edits known' ready' c d :=
  Relation.ReflTransGen.mono (fun _ _ he => he.mono hk hr) _ _ h

theorem Edits.parameters (h : Edits known ready c d) : d.parameters = c.parameters := by
  induction h with
  | refl => rfl
  | tail _ h ih => exact h.parameters.trans ih

theorem Edits.authConfig (h : Edits known ready c d) : d.authConfig = c.authConfig := by
  induction h with
  | refl => rfl
  | tail _ h ih => exact h.authConfig.trans ih

theorem Edits.slots (h : Edits known ready c d) : d.slots = c.slots := by
  induction h with
  | refl => rfl
  | tail _ h ih => exact h.slots.trans ih

theorem Edits.grownTo (h : Edits known ready c d) : c.schema.GrownTo d.schema := by
  induction h with
  | refl => exact .refl _
  | tail _ h ih => exact ih.trans h.grownTo

theorem Edits.contains (h : Edits known ready c d) {id : String}
    (hc : c.resources.contains id = true) : d.resources.contains id = true := by
  induction h with
  | refl => exact hc
  | tail _ h ih => exact h.contains ih

theorem Edits.logs (h : Edits known ready c d) : c.logs <+: d.logs := by
  induction h with
  | refl => exact List.prefix_rfl
  | tail _ h ih => exact ih.trans h.logs

theorem Edits.isModel (h : Edits known ready c d) {model : String} (hm : c.isModel model = true) :
    d.isModel model = true := by
  simp only [Context.isModel, Bool.or_eq_true] at hm ⊢
  exact hm.imp h.contains h.contains

theorem reaches_of_isModel {model : String} (h : c.isModel model = true) :
    c.Reaches (datasourceId model) :=
  ⟨model, rfl, h⟩

theorem reaches_of_contains (model : String)
    (h : c.resources.contains (datasourceId model) = true) : c.Reaches (datasourceId model) := by
  refine ⟨model, rfl, ?_⟩
  rw [isModel, h, Bool.or_true]

theorem Reaches.mono {datasource : String} (h : c.Reaches datasource)
    (hd : Edits known ready c d) : d.Reaches datasource :=
  h.imp fun _ hm => hm.imp_right hd.isModel

theorem Attaches.mono {typeName fieldName : String} (h : c.Attaches typeName fieldName)
    (hd : Edits known ready c d) : d.Attaches typeName fieldName := by
  cases h with
  | directed h => exact .directed (h.mono hd.grownTo)
  | operation hr h => exact .operation hr (h.mono hd.grownTo)
  | creation h => exact .creation (h.mono hd.grownTo)

/-- A field with a directive may have a resolver. -/
theorem attaches_of_hasField {typeName fieldName : String} {p : List Directive → Prop}
    (h : c.schema.HasField typeName fun name directives => name = fieldName ∧ p directives)
    (hp : ¬ p []) : c.Attaches typeName fieldName := by
  refine .directed (h.imp fun _ directives hd => ⟨hd.1, ?_⟩)
  rintro rfl
  exact hp hd.2

theorem attaches_of_directed {typeName fieldName directive : String}
    (h : c.schema.HasField typeName fun name directives =>
      name = fieldName ∧ (findDirective? directive directives).isSome = true) :
    c.Attaches typeName fieldName :=
  attaches_of_hasField h nofun

theorem attaches_of_linksToMany {typeName fieldName : String}
    (h : c.schema.LinksToMany typeName fieldName) : c.Attaches typeName fieldName :=
  attaches_of_hasField h fun hp => hp.elim nofun nofun

/-! ### Larger changes -/

theorem Edits.of (h : Edit known ready c d) : Edits known ready c d := .single h

/-- A fold of changes, each of which may rely on what the changes before it keep. -/
theorem Edits.foldl {α : Type} {f : Context → α → Context} {as : List α}
    (h : ∀ a ∈ as, ∀ d, Edits known ready c d → Edits known ready d (f d a)) :
    Edits known ready c (as.foldl f c) :=
  List.foldlRecOn (motive := Edits known ready c) as f .refl fun d hd a ha => hd.trans (h a ha d hd)

theorem AsksQuery.mono {name : String} (h : c.AsksQuery name) (hd : Edits known ready c d) :
    d.AsksQuery name := by
  obtain ⟨type, h⟩ := h
  exact ⟨type, (h.mono hd.grownTo).imp fun _ _ hi => hd.parameters ▸ hi⟩

/-- No change makes the schema ask for a query. -/
theorem AsksQuery.of_edit {name : String} (h : d.AsksQuery name) (hd : Edit known ready c d) :
    c.AsksQuery name := by
  obtain ⟨type, h⟩ := h
  rw [hd.parameters] at h
  exact ⟨type, h.of_grownTo hd.grownTo fun _ ⟨_, hi, _⟩ => nomatch hi⟩

theorem NamesQuery.mono {name : String} (h : c.NamesQuery name) (hd : Edits known ready c d) :
    d.NamesQuery name := by
  cases h with
  | given h => exact .given (h.mono hd)
  | default h => exact .default (h.mono hd.grownTo)

/-- What may be added to a type may as well be added later. -/
theorem Gains.mono {type : String} {f : FieldDefinition} (h : c.Gains known type f)
    (hd : Edits known ready c d) : d.Gains known type f := by
  have typed : ∀ {name}, c.schema.IsTyped name → d.schema.IsTyped name :=
    fun h => h.mono hd.grownTo
  cases h with
  | record h hf => exact .record (typed h) hf
  | page h hf => exact .page (typed h) hf
  | query h hp hf => exact .query (typed h) (typed hp) hf
  | mutation h hf => exact .mutation (typed h) hf
  | index hm hf hn => exact .index (hd.isModel hm) (hf.mono hd.grownTo) (hn.mono hd)
  | key h hn => exact .key (h.mono hd.grownTo) hn
  | link ha hb hf => exact .link ha hb hf
  | search h =>
    obtain ⟨t', ht', hname, -⟩ := Document.exists_mem_typesWith h hd.grownTo
    rw [← hname]
    exact .search ht'

theorem Edits.ensureObjectField {type : String} {field : FieldDefinition} (ht : c.Founds type)
    (hf : c.Gains known type field) : Edits known ready c (c.ensureObjectField type field) :=
  have made : Edits known ready c { c with schema := c.schema.ensureObject type } :=
    .of (.object ht)
  made.tail (.field (hf.mono made))

/-- A resolver is new or there already, and has its properties set. -/
theorem Edits.addResolver {datasource : String} (hd : c.Reaches datasource)
    {typeName fieldName : String} (ha : c.Attaches typeName fieldName) (stack : String)
    {f : Resource → Resource} (hf : Decorates decorations f) :
    Edits known ready c (c.addResolver typeName fieldName datasource stack f) := by
  have hid := id_newResolver c typeName fieldName datasource stack
  cases hn : c.resources.contains (resolverId typeName fieldName) with
  | true =>
    have he : c.addResolver typeName fieldName datasource stack f
        = c.modifyResource (resolverId typeName fieldName) f := by
      rw [Context.addResolver, ResourceGraph.ensure, hid, hn, if_pos rfl, modifyResource]
    rw [he]
    exact .of (.decorate _ hf)
  | false =>
    have he : c.addResolver typeName fieldName datasource stack f
        = (c.addResource (c.newResolver typeName fieldName datasource stack)).modifyResource
          (resolverId typeName fieldName) f := by
      rw [Context.addResolver, ResourceGraph.ensure, hid, hn,
        if_neg Bool.false_ne_true, modifyResource, addResource]
    rw [he]
    exact (Edits.of (.resolver typeName fieldName stack hn hd ha)).tail (.decorate _ hf)

/-- A field of an operation comes with its resolver, which may as well be added behind it. -/
theorem Edits.addOperation {root datasource : String} (hr : root ∈ ["Query", "Mutation"])
    (hd : c.Reaches datasource) {field : FieldDefinition} (hg : c.Gains known root field)
    (stack : String) {f : Resource → Resource} (hf : Decorates decorations f) :
    Edits known ready c
      ((c.addResolver root field.name datasource stack f).ensureObjectField root field) := by
  have founds : c.Founds root := by
    simp only [List.mem_cons, List.not_mem_nil, or_false] at hr
    rcases hr with rfl | rfl
    · exact .query
    · exact .mutation
  have declared : Edits known ready c (c.ensureObjectField root field) :=
    Edits.ensureObjectField founds hg
  have attached : (c.ensureObjectField root field).Attaches root field.name :=
    .operation hr (Document.declares_ensureField (Document.isTyped_ensureObject _ root) field)
  exact declared.trans (Edits.addResolver (hd.mono declared) attached stack hf)

end Context

namespace PassAction

open Context

variable {α β : Type} {known : String → Prop} {ready : Document → String → Prop}

/-- What a step does to the context it does by changes of the usual kinds, whatever it ends with.
Where it fails half-way, the schema need not have been ready for the stores that it added. -/
def EditsAt (known : String → Prop) (ready : Document → String → Prop) (x : PassAction α)
    (s : PassState) : Prop :=
  match x.on s with
  | (.ok _, t)    => Edits known ready s.context t.context
  | (.error _, t) => Edits known AnyTime s.context t.context

theorem editsAt_of_ok {x : PassAction α} {s t : PassState} {a : α} (h : x.on s = (.ok a, t))
    (he : Edits known ready s.context t.context) : EditsAt known ready x s := by
  rwa [EditsAt, h]

theorem EditsAt.of_ok {x : PassAction α} {s t : PassState} {a : α} (he : EditsAt known ready x s)
    (h : x.on s = (.ok a, t)) : Edits known ready s.context t.context := by
  rwa [EditsAt, h] at he

theorem editsAt_of_error {x : PassAction α} {s t : PassState} {e : Fault}
    (h : x.on s = (.error e, t)) (he : Edits known AnyTime s.context t.context) :
    EditsAt known ready x s := by
  rwa [EditsAt, h]

/-- What a step ends with does not matter where nothing is asked of the schema. -/
theorem EditsAt.anyTime {x : PassAction α} {s : PassState} (h : EditsAt known ready x s) :
    Edits known AnyTime s.context (x.on s).2.context := by
  rcases hx : x.on s with ⟨e | a, t⟩
  · rwa [EditsAt, hx] at h
  · exact (h.of_ok hx).mono (fun _ => id) fun _ _ _ => trivial

theorem EditsAt.mono {ready' : Document → String → Prop} {x : PassAction α} {s : PassState}
    (h : EditsAt known ready x s) (hr : ∀ d model, ready d model → ready' d model) :
    EditsAt known ready' x s := by
  rcases hx : x.on s with ⟨e | a, t⟩
  · rw [EditsAt, hx] at h
    exact editsAt_of_error hx h
  · exact editsAt_of_ok hx ((h.of_ok hx).mono (fun _ => id) hr)

/-- A step that makes some changes and then goes on as another one. -/
theorem editsAt_of_on_eq {x y : PassAction α} {s t : PassState} (h : x.on s = y.on t)
    (he : Edits known ready s.context t.context) (hy : EditsAt known ready y t) :
    EditsAt known ready x s := by
  rcases hon : y.on t with ⟨e | a, u⟩
  · rw [EditsAt, hon] at hy
    exact editsAt_of_error (h.trans hon) ((he.mono (fun _ => id) fun _ _ _ => trivial).trans hy)
  · exact editsAt_of_ok (h.trans hon) (he.trans (hy.of_ok hon))

theorem editsAt_pure (a : α) (s : PassState) : EditsAt known ready (pure a) s :=
  editsAt_of_ok (Action.on_pure a s) .refl

theorem editsAt_throw (e : Fault) (s : PassState) :
    EditsAt known ready (throw e : PassAction α) s :=
  editsAt_of_error (Action.on_throw e s) .refl

theorem editsAt_bind {x : PassAction α} {f : α → PassAction β} {s : PassState}
    (hx : EditsAt known ready x s) (hf : ∀ a t, x.on s = (.ok a, t) → EditsAt known ready (f a) t) :
    EditsAt known ready (x >>= f) s := by
  rcases h : x.on s with ⟨e | a, t⟩
  · rw [EditsAt, h] at hx
    exact editsAt_of_error (Action.on_bind_error h f) hx
  · exact editsAt_of_on_eq (Action.on_bind_ok h f) (hx.of_ok h) (hf a t h)

/-- A list of steps, each of which may rely on what the steps before it keep. -/
theorem editsAt_forEach {f : α → PassAction Unit} {as : List α} {s : PassState}
    (hf : ∀ a ∈ as, ∀ t, Edits known ready s.context t.context → EditsAt known ready (f a) t) :
    EditsAt known ready (Action.forEach f as) s := by
  induction as generalizing s with
  | nil => exact editsAt_pure () s
  | cons a as ih =>
    refine editsAt_bind (hf a List.mem_cons_self s .refl) fun _ t ht => ih fun b hb u hu => ?_
    have hfirst := (hf a List.mem_cons_self s .refl).of_ok ht
    exact hf b (List.mem_cons_of_mem a hb) u (hfirst.trans hu)

/-- Each of a list of steps that all succeed has its place among them. -/
theorem exists_of_forEach {f : α → PassAction Unit} {as : List α} {s t : PassState}
    (hf : ∀ a ∈ as, ∀ u, Edits known ready s.context u.context → EditsAt known ready (f a) u)
    (h : (Action.forEach f as).on s = (.ok (), t)) {a : α} (ha : a ∈ as) :
    ∃ u v, (f a).on u = (.ok (), v) ∧ Edits known ready s.context u.context
      ∧ Edits known ready v.context t.context := by
  obtain ⟨xs, ys, rfl⟩ := List.append_of_mem ha
  rw [Action.forEach_append_ok] at h
  obtain ⟨u, hu, h⟩ := h
  rw [Action.forEach_cons_ok] at h
  obtain ⟨v, hv, h⟩ := h
  have before : Edits known ready s.context u.context :=
    (editsAt_forEach fun b hb w hw => hf b (List.mem_append_left _ hb) w hw).of_ok hu
  have made : Edits known ready s.context v.context :=
    before.trans ((hf a ha u before).of_ok hv)
  have behind : EditsAt known ready (Action.forEach f ys) v := editsAt_forEach fun b hb w hw =>
    hf b (List.mem_append_right _ (List.mem_cons_of_mem a hb)) w (made.trans hw)
  exact ⟨u, v, hv, before, behind.of_ok h⟩

theorem editsAt_onContext {f : Context → Context} {s : PassState}
    (h : Edits known ready s.context (f s.context)) : EditsAt known ready (onContext f) s := h

theorem editsAt_onMemory (f : Memory → Memory) (s : PassState) :
    EditsAt known ready (onMemory f) s :=
  Relation.ReflTransGen.refl

theorem editsAt_log (level : LogLevel) (message : String) (s : PassState) :
    EditsAt known ready (PassAction.log level message) s :=
  Edits.of (.log level message)

theorem editsAt_context_bind {f : Context → PassAction β} {s : PassState}
    (h : EditsAt known ready (f s.context) s) : EditsAt known ready (context >>= f) s := by
  rwa [EditsAt, on_context_bind]

theorem editsAt_memory_bind {f : Memory → PassAction β} {s : PassState}
    (h : EditsAt known ready (f s.memory) s) : EditsAt known ready (memory >>= f) s := by
  rwa [EditsAt, on_memory_bind]

theorem editsAt_onMemory_bind {f : Memory → Memory} {g : Unit → PassAction β} {s : PassState}
    (h : EditsAt known ready (g ()) { s with memory := f s.memory }) :
    EditsAt known ready (onMemory f >>= g) s := by
  rwa [EditsAt, on_onMemory_bind]

theorem editsAt_onContext_bind {f : Context → Context} {g : Unit → PassAction β} {s : PassState}
    (hf : Edits known ready s.context (f s.context))
    (hg : EditsAt known ready (g ()) { s with context := f s.context }) :
    EditsAt known ready (onContext f >>= g) s :=
  editsAt_of_on_eq (on_onContext_bind f g s) hf hg

/-- A check on how a pass is held changes nothing. -/
theorem editsAt_reading_bind {role : Role} {g : Unit → PassAction β} {s : PassState}
    (h : EditsAt known ready (g ()) s) : EditsAt known ready (reading role >>= g) s := by
  have hon := on_reading role s
  split at hon
  · rwa [EditsAt, Action.on_bind_ok hon]
  · exact editsAt_of_error (Action.on_bind_error hon g) .refl

theorem editsAt_writing_bind {role : Role} {g : Unit → PassAction β} {s : PassState}
    (h : EditsAt known ready (g ()) s) : EditsAt known ready (writing role >>= g) s := by
  have hon := on_writing role s
  split at hon
  · rwa [EditsAt, Action.on_bind_ok hon]
  · exact editsAt_of_error (Action.on_bind_error hon g) .refl

theorem editsAt_guard {p : Prop} [Decidable p] {e : Fault} {f : Unit → PassAction β}
    {s : PassState} (h : ¬p → EditsAt known ready (f ()) s) :
    EditsAt known ready (if p then throw e >>= f else f ()) s := by
  split
  · exact editsAt_of_error (Action.on_throw_bind e f s) .refl
  · next hp => exact h hp

theorem editsAt_ofExcept_bind {r : Except Fault α} {f : α → PassAction β} {s : PassState}
    (h : ∀ a, r = .ok a → EditsAt known ready (f a) s) :
    EditsAt known ready (Action.ofExcept r >>= f) s := by
  have hon := Action.on_ofExcept_bind r f s
  cases r with
  | error e => exact editsAt_of_error hon .refl
  | ok a => exact editsAt_of_on_eq hon .refl (h a rfl)

theorem editsAt_examine_bind {f : Context → Except Fault α} {g : α → PassAction β} {s : PassState}
    (h : ∀ a, f s.context = .ok a → EditsAt known ready (g a) s) :
    EditsAt known ready (examine f >>= g) s := by
  have hon := on_examine_bind f g s
  split at hon
  · next a ha => exact editsAt_of_on_eq hon .refl (h a ha)
  · exact editsAt_of_error hon .refl

end PassAction

end ApiCompiler
