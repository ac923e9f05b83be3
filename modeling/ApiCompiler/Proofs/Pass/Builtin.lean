import ApiCompiler.Chain
import ApiCompiler.Proofs.Pass.Relation

/-!
# Passes — what the passes of every chain do

Each pass changes the context by changes of the usual kinds, whatever it ends with: by links, keys
and bindings that rely on models and datasources which are there when they are looked up, and stay.

* `apply_edits`, one for each pass.
* `Chain.builtin_edits`, `Chain.laterPasses_edits`: so does every entry that a chain starts with;
  those behind the pass of keys make no model without the field by which its records are known.
* `Chain.Completes`: a run that ends well, of which `Completes.edits` says what it does.
-/

namespace ApiCompiler

open PassAction Context

variable {known : String → Prop} {ready : Document → String → Prop}

/-! ### Functions and endpoints -/

namespace FunctionPass

theorem datasource_eq (function : String) : datasource function
    = datasourceId (Text.capitalize (String.ofList (function.toList.filter (· != '-')))
      ++ "Lambda") := by
  rw [datasource, datasourceId, String.append_assoc]
  rfl

theorem reaches_datasource {c : Context} {function : String}
    (h : c.resources.contains (datasource function) = true) : c.Reaches (datasource function) := by
  rw [datasource_eq] at h ⊢
  exact reaches_of_contains _ h

theorem bind_edits (functions : Dict FunctionHandle) {c : Context} {b : Binding}
    (ha : c.Attaches b.type b.field) : Edits known ready c (bind functions c b) := by
  have start : ∀ d, Edits known ready c d → Edits known ready c
      (((d.addResource (datasourceOf (functionName c b)
        (functionArn functions d (functionName c b)))).addResolver b.type b.field
          (datasource (functionName c b)) stack
            (·.push "pipelineFunctions" (.str (functionName c b)))).log .debug
              ("Bound " ++ b.type ++ "." ++ b.field ++ " to function " ++ functionName c b)) := by
    intro d hd
    have reached := reaches_datasource (contains_addResource d (datasourceOf (functionName c b)
      (functionArn functions d (functionName c b))))
    have supplied := hd.tail (.supply (.function (functionName c b)
      (functionArn functions d (functionName c b))))
    exact (supplied.trans (Edits.addResolver reached (ha.mono supplied) stack
      (.push (by decide) _))).tail (.log _ _)
  unfold bind
  dsimp only
  split
  · exact start _ (.of (.log _ _))
  · exact start _ .refl

/-- A binding is one of a field with the directive. -/
theorem attaches_of_bindings {c : Context} {bs : List Binding} (h : bindings c = .ok bs)
    {b : Binding} (hb : b ∈ bs) : c.Attaches b.type b.field := by
  obtain ⟨⟨t, f, dir⟩, hp, hof⟩ := Except.mem_of_mapM h hb
  obtain ⟨⟨u, g⟩, hfield, hdir⟩ := List.mem_flatMap.1 hp
  obtain ⟨dir', -, he⟩ := List.mem_map.1 hdir
  cases he
  obtain ⟨ht, hf, hdirected⟩ := Document.mem_fieldsWith.1 hfield
  obtain ⟨_, -, hof⟩ := Except.bind_eq_ok hof
  cases hof
  exact attaches_of_directed ⟨t, ht, rfl, f, hf, rfl, hdirected⟩

theorem apply_edits (functions : Dict FunctionHandle) (s : PassState) :
    EditsAt known ready (apply functions) s := by
  unfold apply
  exact editsAt_examine_bind fun bs hbs => editsAt_onContext
    (Edits.foldl fun b hb d hd => bind_edits functions ((attaches_of_bindings hbs hb).mono hd))

end FunctionPass

namespace HttpPass

theorem bind_edits {c : Context} {b : Binding} (ha : c.Attaches b.type b.field) :
    Edits known ready c (bind c b) := by
  have resolver : ∀ d, Edits known ready c d → d.resources.contains (datasource b.url) = true →
      Edits known ready c (d.addResolver b.type b.field (datasource b.url) stack fun r =>
        (r.set "method" (.str b.method)).set "resourcePath" (.str (String.ofList b.url.path))) :=
    fun d hd hc => hd.trans (Edits.addResolver (reaches_of_contains _ hc) (ha.mono hd) _
      ((Decorates.set (by decide) _).comp (.set (by decide) _)))
  unfold bind
  dsimp only
  cases h : c.resources.contains (datasource b.url) with
  | true =>
    have he : c.resources.ensure (datasourceOf b.url) = c.resources := if_pos h
    rw [he]
    exact resolver c .refl h
  | false =>
    have he : c.resources.ensure (datasourceOf b.url) = c.resources.add (datasourceOf b.url) := by
      rw [ResourceGraph.ensure, if_neg]
      rw [show (datasourceOf b.url).id = datasource b.url from rfl, h]
      exact Bool.false_ne_true
    rw [he]
    exact resolver (c.addResource (datasourceOf b.url)) (.of (.supply (.endpoint _ h)))
      (contains_addResource c (datasourceOf b.url))

/-- A binding is one of a field with the directive. -/
theorem attaches_of_bindings {c : Context} {bs : List Binding} (h : bindings c = .ok bs)
    {b : Binding} (hb : b ∈ bs) : c.Attaches b.type b.field := by
  obtain ⟨⟨t, f, dir⟩, hp, hof⟩ := Except.mem_of_mapM h hb
  obtain ⟨ht, hf, hdir⟩ := mem_directedFields hp
  obtain ⟨_, -, hof⟩ := Except.bind_eq_ok hof
  split at hof
  · cases hof
  · dsimp only at hof
    split at hof
    · cases hof
      have directed : f.hasDirective "http" = true := Option.isSome_of_mem hdir
      exact attaches_of_directed ⟨t, ht, rfl, f, hf, rfl, directed⟩
    · cases hof

theorem apply_edits (s : PassState) : EditsAt known ready apply s := by
  unfold apply
  exact editsAt_examine_bind fun bs hbs => editsAt_onContext
    (Edits.foldl fun b hb d hd => bind_edits ((attaches_of_bindings hbs hb).mono hd))

end HttpPass

namespace PredictionsPass

/-- A use of the service is that of a query with the directive. -/
theorem attaches_of_usages {c : Context} {us : List (String × List String)}
    (h : usages c = .ok us) {u : String × List String} (hu : u ∈ us) :
    c.Attaches "Query" u.1 := by
  obtain ⟨⟨t, f⟩, hp, hof⟩ := Except.mem_of_mapM h hu
  obtain ⟨ht, hf, hdirected⟩ := Document.mem_fieldsWith.1 hp
  simp only [usageOf] at hof
  split at hof
  · cases hof
  · next hquery =>
    split at hof
    · cases hof
    · split at hof
      · cases hof
      · cases hof
        exact attaches_of_directed ⟨t, ht, not_not.1 hquery, f, hf, rfl, hdirected⟩

theorem apply_edits (storage : Option Json) (s : PassState) :
    EditsAt known ready (apply storage) s := by
  unfold apply
  refine editsAt_examine_bind fun us hus => ?_
  split
  · exact editsAt_pure () s
  · split
    · exact editsAt_throw _ s
    · next bucket _ =>
      have provided : Edits known ready s.context
          ((s.context.addResource (storageAccess bucket)).addResource datasource) :=
        (Edits.of (.supply (.storage bucket))).tail (.supply .recognition)
      refine editsAt_onContext (provided.trans (Edits.foldl fun u hu d hd => ?_))
      exact Edits.addResolver (reaches_of_contains "Predictions"
        (hd.contains (contains_addResource _ datasource)))
        ((attaches_of_usages hus hu).mono (provided.trans hd)) _ (.set (by decide) _)

end PredictionsPass

/-! ### Default values and authorization -/

namespace DefaultPass

/-- A default value is one of a field of a model. -/
theorem of_defaults {c : Context} {ds : List Default} (h : defaults c = .ok ds)
    {d : Default} (hd : d ∈ ds) :
    c.isModel d.model = true ∧ c.Attaches "Mutation" ("create" ++ d.model) := by
  obtain ⟨⟨t, f, dir⟩, hp, hf⟩ := Except.mem_of_mapM h hd
  obtain ⟨ht, hmem, hdir⟩ := mem_directedFields hp
  simp only [defaultOf] at hf
  split at hf
  · cases hf
  · next hm =>
    split at hf
    · cases hf
    · rw [Bool.not_eq_true', Bool.not_eq_false] at hm
      obtain ⟨raw, -, hf⟩ := Except.bind_eq_ok hf
      split at hf
      · cases hf
        exact ⟨hm, .creation ⟨t, ht, rfl, f, hmem, Option.isSome_of_mem hdir⟩⟩
      · cases hf

theorem setDefault_decorates {keys : List String} (hk : "defaults" ∈ keys) (field : String)
    (value : Json) : Decorates keys (setDefault field value) := by
  refine .set' hk fun r => ?_
  unfold setDefault
  split
  · exact .inr ⟨_, rfl⟩
  · exact .inl rfl

theorem apply_edits (s : PassState) : EditsAt known ready apply s :=
  editsAt_examine_bind fun _ hds => editsAt_onContext (Edits.foldl fun d hd _ hc =>
    have ⟨hm, ha⟩ := of_defaults hds hd
    Edits.addResolver (reaches_of_isModel (hc.isModel hm)) (ha.mono hc) _
      (setDefault_decorates (by decide) d.field d.value))

end DefaultPass

namespace AuthPass

theorem collectRules_edits (s : PassState) : EditsAt known ready collectRules s :=
  editsAt_context_bind (editsAt_forEach fun _ _ t _ =>
    editsAt_examine_bind fun _ _ => editsAt_onMemory _ t)

theorem settleModel_edits (model : String) (s : PassState) :
    EditsAt known ready (settleModel model) s := by
  refine editsAt_memory_bind ?_
  split
  · exact .refl
  · refine editsAt_context_bind ?_
    split
    · exact editsAt_onMemory _ s
    · exact editsAt_log _ _ s

theorem attachRules_edits (m : Memory) (c : Context) (model : String) :
    Edits known ready c (attachRules m c model) :=
  Edits.foldl fun id _ _ _ => .of (.decorate id (.set (by decide) _))

theorem addOptional_edits {c : Context} {r : Option Resource}
    (h : ∀ r', r = some r' → c.Supplies r') : Edits known ready c (addOptional c r) := by
  cases r with
  | none => exact .refl
  | some r => exact .of (.supply (h r rfl))

theorem apply_edits (args : FactoryArgs) (s : PassState) : EditsAt known ready (apply args) s := by
  unfold apply
  refine editsAt_bind (collectRules_edits s) fun _ s _ => ?_
  refine editsAt_onMemory_bind (editsAt_context_bind ?_)
  refine editsAt_bind (editsAt_forEach fun model _ t _ => settleModel_edits model t)
    fun _ s _ => editsAt_memory_bind (editsAt_examine_bind fun _ _ => ?_)
  refine editsAt_onContext_bind (Edits.foldl fun model _ d _ => attachRules_edits _ d model) ?_
  refine editsAt_onContext_bind ?_ (editsAt_log _ _ _)
  exact (addOptional_edits fun _ h => .policy h).trans (addOptional_edits fun _ h => .apiKey h)

end AuthPass

/-! ### Tables elsewhere -/

namespace MapsToPass

/-- The name that a mapping gives to a table, with the model of the table. -/
def Mapping.pair (m : Mapping) : String × String := (m.model, m.table)

/-- The mappings are those that types ask for. -/
theorem map_pair_mappings {c : Context} {ms : List Mapping} (h : mappings c = .ok ms) :
    ms.map (·.pair) = c.schema.tableNames := by
  suffices hall : ∀ (ts : List TypeDefinition) (ms : List Mapping),
      (ts.filterMap fun t => (t.directive? "mapsTo").map fun d => (t, d)).mapM
        (fun p => mappingOf c p.1 p.2) = .ok ms →
      ms.map (·.pair) = ts.filterMap fun t => t.tableName?.map fun table => (t.name, table) from
    hall _ ms h
  intro ts
  induction ts with
  | nil =>
    intro ms h
    cases h
    rfl
  | cons t ts ih =>
    intro ms h
    rw [List.filterMap_cons] at h
    rw [List.filterMap_cons, TypeDefinition.tableName?]
    cases hd : t.directive? "mapsTo" with
    | none =>
      rw [hd] at h
      exact ih ms h
    | some d =>
      rw [hd] at h
      obtain ⟨m, ms, hm, hms, rfl⟩ := Except.mapM_cons_eq_ok h
      obtain ⟨table, ht, hm⟩ := Except.bind_eq_ok hm
      have named := Directive.requiredString_eq_ok.1 ht
      split at hm
      · cases hm
      · split at hm
        · cases hm
        · cases hm
          rw [List.map_cons, ih ms hms]
          simp [named, Mapping.pair]

theorem rename_edits {c : Context} {m : Mapping} (h : m.pair ∈ c.schema.tableNames) :
    Edits known ready c (rename c m) :=
  ((Edits.of (.rename h)).tail (.decorate _ (.set (by decide) _))).tail (.log _ _)

theorem foldl_rename_edits {c : Context} {ms : List Mapping} (h : mappings c = .ok ms) :
    Edits known ready c (ms.foldl rename c) := by
  have asked : ∀ m ∈ ms, m.pair ∈ c.schema.tableNames := fun m hm =>
    map_pair_mappings h ▸ List.mem_map_of_mem hm
  -- the schema stays, so that all names go on being asked for
  have renamed : Edits known ready c (ms.foldl rename c) ∧ (ms.foldl rename c).schema = c.schema :=
    List.foldlRecOn (motive := fun d => Edits known ready c d ∧ d.schema = c.schema) ms rename
      ⟨.refl, rfl⟩ fun d hd m hm =>
        ⟨hd.1.trans (rename_edits (by rw [hd.2]; exact asked m hm)), hd.2⟩
  exact renamed.1

theorem apply_edits (s : PassState) : EditsAt known ready apply s :=
  editsAt_examine_bind fun _ hms => editsAt_onContext (foldl_rename_edits hms)

end MapsToPass

namespace SearchPass

/-- What can be searched is a type that asks for it, and has a table. -/
theorem of_models {c : Context} {ms : List String} (h : models c = .ok ms) {m : String}
    (hm : m ∈ ms) : c.resources.contains (tableId m) = true
      ∧ ∃ t ∈ c.schema.typesWith "searchable", t.name = m := by
  obtain ⟨t, hmem, ht⟩ := Except.mem_of_mapM h hm
  simp only [modelOf] at ht
  split at ht
  · next hc =>
    cases ht
    exact ⟨hc, t, hmem, rfl⟩
  · cases ht

theorem provision_edits {c : Context} {ms : List String}
    (h : ∀ m ∈ ms, c.resources.contains (tableId m) = true) :
    Edits known ready c (provision c ms) := by
  have logged : Edits known ready c (c.log .warn costWarning) := .of (.log _ _)
  have domained : ∀ b,
      Edits known ready c ((c.log .warn costWarning).addResource (domain b)) := fun b =>
    logged.tail (.supply (.domain b))
  have searched : ∀ b, Edits known ready c
      (((c.log .warn costWarning).addResource (domain b)).addResource datasource) := fun b =>
    (domained b).tail (.supply (.search (contains_addResource _ (domain b))))
  exact (searched _).tail (.supply (.streaming ms fun m hm => (searched _).contains (h m hm)))

theorem contains_provision (c : Context) (ms : List String) :
    (provision c ms).resources.contains searchDatasource = true := by
  unfold provision
  exact ResourceGraph.contains_add_iff.2 (.inr (contains_addResource _ datasource))

theorem attach_edits {c : Context} {t : TypeDefinition} (ht : t ∈ c.schema.typesWith "searchable")
    (h : c.resources.contains searchDatasource = true) :
    Edits known ready c (attach c t.name) := by
  have streamed : Edits known ready c (c.modifyResource (tableId t.name)
      (·.set "streamViewType" (.str "NEW_AND_OLD_IMAGES"))) :=
    .of (.decorate _ (.set (by decide) _))
  have reached := reaches_of_contains "OpenSearch" (streamed.contains h)
  exact streamed.trans (Edits.addOperation (by simp) reached ((Gains.search ht).mono streamed) _
    (.set (by decide) _))

theorem apply_edits (s : PassState) : EditsAt known ready apply s := by
  unfold apply
  refine editsAt_examine_bind fun ms hms => ?_
  split
  · exact .refl
  · have provisioned : Edits known ready s.context (provision s.context ms) :=
      provision_edits fun m hm => (of_models hms hm).1
    refine editsAt_onContext (provisioned.trans (Edits.foldl fun m hm d hd => ?_))
    obtain ⟨t, ht, rfl⟩ := (of_models hms hm).2
    obtain ⟨u, hu, hname, -⟩ :=
      Document.exists_mem_typesWith ht (Edits.grownTo (provisioned.trans hd))
    rw [← hname]
    exact attach_edits hu (hd.contains (contains_provision s.context ms))

end SearchPass

/-! ### Chains -/

namespace Chain

theorem entry_edits {e : Entry} {s : PassState} (h : EditsAt known ready e.pass.apply s) :
    EditsAt known ready e.apply s :=
  editsAt_ofExcept_bind fun _ _ => h

/-- The passes that come behind that of keys: a model that they make has the field by which its
records are known. -/
theorem laterPasses_edits {args : FactoryArgs} {e : Entry} (he : e ∈ (builtin args).drop 5)
    {s : PassState} (hk : ∀ name, s.context.schema.References name → known name) :
    EditsAt known (ModelPass.Ready ModelPass.NoneSpared) e.pass.apply s := by
  simp only [builtin, List.drop_succ_cons, List.drop_zero, List.mem_cons, List.not_mem_nil,
    or_false] at he
  rcases he with rfl | rfl | rfl | rfl | rfl | rfl | rfl | rfl | rfl
  · exact IndexPass.apply_edits s
  · exact HasManyPass.apply_edits hk
  · exact HasOnePass.apply_edits s
  · exact ManyToManyPass.apply_edits hk
  · exact BelongsToPass.apply_edits s
  · exact DefaultPass.apply_edits s
  · exact AuthPass.apply_edits args s
  · exact MapsToPass.apply_edits s
  · exact SearchPass.apply_edits s

/-- **Every pass of every chain changes the context by changes of the usual kinds**, whatever it
ends with. -/
theorem builtin_edits {args : FactoryArgs} {e : Entry} (he : e ∈ builtin args) {s : PassState}
    (hk : ∀ name, s.context.schema.References name → known name) :
    EditsAt known (ModelPass.Ready Document.DeclaresKey) e.pass.apply s := by
  rw [← List.take_append_drop 5 (builtin args), List.mem_append] at he
  rcases he with he | he
  · simp only [builtin, List.take_succ_cons, List.take_zero, List.mem_cons, List.not_mem_nil,
      or_false] at he
    rcases he with rfl | rfl | rfl | rfl | rfl
    · exact ModelPass.apply_edits s
    · exact FunctionPass.apply_edits _ s
    · exact HttpPass.apply_edits s
    · exact PredictionsPass.apply_edits _ s
    · exact PrimaryKeyPass.apply_edits s
  · exact (laterPasses_edits he hk).mono fun _ _ hr => ⟨hr.1, .inl (hr.2.resolve_right id)⟩

/-- What a list of entries does is done by changes of the usual kinds, where what each of them does
is. -/
theorem entries_edits {es : List Entry} (h : ∀ e ∈ es, ∀ s, EditsAt known ready e.pass.apply s)
    (s : PassState) : EditsAt known ready (Action.forEach Entry.apply es) s :=
  editsAt_forEach fun e he t _ => entry_edits (h e he t)

/-- A fresh run of the passes that every chain starts with, from a context, ends well in a
state. -/
def Completes (args : FactoryArgs) (c : Context) (s : PassState) : Prop :=
  (Action.forEach Entry.apply (builtin args)).on { context := c } = (.ok (), s)

theorem Completes.edits {args : FactoryArgs} {c : Context} {s : PassState}
    (h : Completes args c s) :
    Edits AnyName (ModelPass.Ready Document.DeclaresKey) c s.context :=
  (entries_edits (fun _ he _ => builtin_edits he fun _ _ => trivial) _).of_ok h

/-- What changes keep, a run keeps, where each pass may refer to what the schema referred to when
the pass began. -/
theorem Completes.keeps {args : FactoryArgs} {c : Context} {s : PassState}
    (h : Completes args c s) {I : Context → Prop}
    (hI : ∀ c d, Edits c.schema.References AnyTime c d → I c → I d) (hc : I c) : I s.context := by
  have step : ∀ e ∈ builtin args, ∀ t : PassState, True → I t.context →
      I (e.apply.on t).2.context := fun e he t _ =>
    hI _ _ (entry_edits (builtin_edits he fun _ hn => hn)).anyTime
  have run := Action.forEach_rel (R := fun s t : PassState => I s.context → I t.context)
    (fun _ hs => hs) (fun h h' hs => h' (h hs)) (fun _ _ _ _ _ => trivial) step
    (s := { context := c }) fun _ _ => trivial
  rw [h] at run
  exact run hc

/-- What a fresh run of the passes that every chain starts with leaves, whatever it ends with. -/
def lastState (args : FactoryArgs) (c : Context) : PassState :=
  ((Action.forEach Entry.apply (builtin args)).on { context := c }).2

/-- Whether a fresh run of the passes that every chain starts with ends well, in a state with a
property. -/
def endsWell (args : FactoryArgs) (c : Context) (p : PassState → Bool) : Bool :=
  match (Action.forEach Entry.apply (builtin args)).on { context := c } with
  | (.ok _, s)    => p s
  | (.error _, _) => false

theorem completes_of_endsWell {args : FactoryArgs} {c : Context} {p : PassState → Bool}
    (h : endsWell args c p = true) :
    Completes args c (lastState args c) ∧ p (lastState args c) = true := by
  rw [endsWell] at h
  rw [Completes, lastState]
  rcases he : (Action.forEach Entry.apply (builtin args)).on { context := c } with ⟨_ | _, t⟩
  · rw [he] at h
    cases h
  · rw [he] at h
    exact ⟨rfl, h⟩

/-- A schema with a model that has rules and can be searched. -/
def searchablePost : Context where
  schema := ⟨[{
    kind := .object, name := "Post",
    directives := [⟨"model", []⟩, ⟨"searchable", []⟩,
      ⟨"auth", [("rules", .list [.object [("allow", .enumeral "public")]])]⟩],
    fields := [{ name := "title", type := .named "String" }] }]⟩

theorem completes_searchablePost : Completes {} searchablePost (lastState {} searchablePost) :=
  (completes_of_endsWell (p := fun _ => true) (by decide +kernel)).1

/-- A schema with models that are linked, with keys and indexes of their own, and with the type of a
join. -/
def taggedPosts : Context where
  schema := ⟨[{
    kind := .object, name := "Post", directives := [⟨"model", []⟩],
    fields := [
      { name := "tags", type := .list (.named "Tag"),
        directives := [⟨"manyToMany", [("relationName", .string "postTags")]⟩] },
      { name := "comments", type := .list (.named "Comment"),
        directives := [⟨"hasMany", []⟩] }] }, {
    kind := .object, name := "Tag", directives := [⟨"model", []⟩],
    fields := [
      { name := "label", type := .named "String",
        directives := [⟨"index", [("sortKeyFields", .list [.string "rank"])]⟩] },
      { name := "rank", type := .named "Int" },
      { name := "posts", type := .list (.named "Post"),
        directives := [⟨"manyToMany", [("relationName", .string "postTags")]⟩] }] }, {
    kind := .object, name := "Comment", directives := [⟨"model", []⟩],
    fields := [
      { name := "code", type := .required "ID",
        directives := [⟨"primaryKey", [("sortKeyFields", .list [.string "at"])]⟩] },
      { name := "at", type := .required "String" }] }, {
    kind := .object, name := "PostTags",
    fields := [{ name := "note", type := .named "String" }] }]⟩

/-- Whether comments have a table with the key that their type declares. -/
def hasCommentTable (s : PassState) : Bool :=
  s.context.resources.toList.any fun r =>
    r.kind == .table && r.id == tableId "Comment" && r.get? "hashKey" == some (.str "code")

theorem ends_taggedPosts : Completes {} taggedPosts (lastState {} taggedPosts)
    ∧ hasCommentTable (lastState {} taggedPosts) = true :=
  completes_of_endsWell (by decide +kernel)

theorem completes_taggedPosts : Completes {} taggedPosts (lastState {} taggedPosts) :=
  ends_taggedPosts.1

end Chain

end ApiCompiler
