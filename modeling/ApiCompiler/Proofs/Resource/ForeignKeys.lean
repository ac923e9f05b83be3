import ApiCompiler.Proofs.Resource.Connections
import ApiCompiler.Proofs.Schema.Spelled

/-!
# Resources — foreign keys

A link to many records is found by an index of the table of its target, whose partition key is named
after the type and the field that the link is from. The first letter of the type is made a small one
and that of the field a large one, and nothing tells where the one ends and the other begins.

* `ResourceGraph.partitionKey?`: the partition key of an index of a table.
* `HasManyPass.partitionKey?_of_forEach`: the last link of an index says what it is.
* `ManyToManyPass.sameTables_of_apply`: join models leave the tables of other models alone.
* `Document.linking`, `linkKey`: the links to a model, and the key that is made of the names of one.
* `Chain.partitionKeys_of_completes`: the key of a link is the one that is made of its names, and so
  keys differ where these do.
-/

namespace ApiCompiler

open PassAction

/-! ### Indexes of a table -/

namespace ResourceGraph

/-- The global indexes that the table of a model lists. -/
def globalIndexes (g : ResourceGraph) (model : String) : List Json :=
  Json.items (g.property? (tableId model) "globalSecondaryIndexes")

/-- The partition key of the global index of a name, the last one listed if there are several. -/
def partitionKey? (g : ResourceGraph) (model name : String) : Option Json :=
  (g.globalIndexes model).reverse.findSome? fun entry =>
    if entry.get? "indexName" = indexLabel name then entry.get? "partitionKey" else none

variable {g g' : ResourceGraph} {model name : String}

theorem SameTables.partitionKey? (h : g.SameTables (· = tableId model) g') (name : String) :
    g'.partitionKey? model name = g.partitionKey? model name := by
  have same : g'.globalIndexes model = g.globalIndexes model :=
    congrArg Json.items (h "globalSecondaryIndexes" (by decide) _ rfl)
  rw [ResourceGraph.partitionKey?, same, ResourceGraph.partitionKey?]

/-- An index that is listed behind others counts, if it has the name. -/
theorem partitionKey?_modify_push (ht : g.contains (tableId model) = true) (entry : Json)
    (name : String) :
    (g.modify (tableId model) (·.push "globalSecondaryIndexes" entry)).partitionKey? model name
      = (if entry.get? "indexName" = indexLabel name then entry.get? "partitionKey" else none).or
        (g.partitionKey? model name) := by
  obtain ⟨r, hr⟩ := contains_iff_get?.1 ht
  have pushed : (g.modify (tableId model) (·.push "globalSecondaryIndexes" entry)).get?
      (tableId model) = some (r.push "globalSecondaryIndexes" entry) := by
    rw [get?_modify, if_pos rfl, hr, Option.map_some]
  have listed : (g.modify (tableId model) (·.push "globalSecondaryIndexes" entry)).globalIndexes
      model = g.globalIndexes model ++ [entry] := by
    rw [globalIndexes, globalIndexes, property?_of_get? pushed, property?_of_get? hr,
      Resource.items_push]
  rw [partitionKey?, partitionKey?, listed, List.reverse_append, List.reverse_singleton,
    List.singleton_append, List.findSome?_cons]
  split <;> simp [*]

end ResourceGraph

/-! ### Links -/

/-- The links of a schema to many records of a model, each by the type and the field it is from. -/
def Document.linking (d : Document) (model : String) : List (String × String) :=
  ((d.fieldsWith "hasMany").filter (·.2.type.baseName == model)).map fun p => (p.1.name, p.2.name)

/-- The index by which the records of a link are found. -/
def linkIndex (place : String × String) : String := "gsi-" ++ (place.1 ++ "." ++ place.2)

/-- The field by which the records of a link are found. -/
def linkKey (place : String × String) : String :=
  Text.lowerFirst place.1 ++ Text.capitalize place.2 ++ "Id"

/-- Links of types with names have indexes of their own. -/
theorem linkIndex_inj {p q : String × String} (hp : Schema.isName p.1 = true)
    (hq : Schema.isName q.1 = true) (he : linkIndex p = linkIndex q) : p = q := by
  have same := congrArg String.toList ((String.append_right_inj _).1 he)
  simp only [String.toList_append, String.reduceToList, List.append_assoc, List.singleton_append]
    at same
  have split := congrArg (Text.splitAtFirst '.') same
  rw [Text.splitAtFirst_append (Schema.not_mem_of_isName hp),
    Text.splitAtFirst_append (Schema.not_mem_of_isName hq)] at split
  obtain ⟨htype, hfield⟩ := Prod.mk.inj (Option.some.inj split)
  exact Prod.ext (String.toList_inj.1 htype) (String.toList_inj.1 hfield)

namespace HasManyPass

variable {ls : List Link} {s t : PassState} {model : String}

/-- The key that a link gives to the index of a name. -/
def keyFor? (model name : String) (l : Link) : Option Json :=
  if l.target = model ∧ indexName l = name then some (.str l.foreignKey) else none

theorem partitionKey?_attach {c : Context} (ht : c.resources.contains (tableId model) = true)
    (l : Link) (name : String) : (attach c l).resources.partitionKey? model name
      = (keyFor? model name l).or (c.resources.partitionKey? model name) := by
  by_cases he : l.target = model
  · subst he
    have linked : Decorates ["relation", "index"] fun r =>
        [("relation", .str "hasMany"), ("index", .str (indexName l))].foldl
          (fun r p => r.set p.1 p.2) r := .foldl_set (by simp)
    have resolved := Context.sameTables_addResolver (p := (· = tableId l.target))
      (c := retypeField ((ensureForeignKey c l.target l.foreignKey).modifyResource
        (tableId l.target) (·.push "globalSecondaryIndexes" (.obj [("indexName",
          .str (indexName l)), ("partitionKey", .str l.foreignKey), ("sortKeys", .arr [])])))
        l.source l.field (.named (connectionName l.target)))
      linked (by decide) l.source l.field (datasourceId l.target) l.target
    refine (resolved.partitionKey? name).trans
      ((ResourceGraph.partitionKey?_modify_push (g := c.resources) ht _ name).trans ?_)
    have named : Json.get? "indexName" (.obj [("indexName", .str (indexName l)),
        ("partitionKey", .str l.foreignKey), ("sortKeys", .arr [])]) = indexLabel name
        ↔ l.target = l.target ∧ indexName l = name :=
      indexLabel_injective.eq_iff.trans (and_iff_right rfl).symm
    rw [keyFor?, if_congr named rfl rfl]
    rfl
  · rw [((indexes_attach c l).others model (Ne.symm he)).partitionKey?, keyFor?,
      if_neg fun h => he h.1, Option.none_or]

/-- The last link of an index says what its key is. -/
theorem partitionKey?_of_forEach (h : (Action.forEach link ls).on s = (.ok (), t))
    (ht : s.context.resources.HasTable model) (name : String) :
    t.context.resources.partitionKey? model name = (ls.reverse.findSome? (keyFor? model name)).or
      (s.context.resources.partitionKey? model name) := by
  refine Action.forEach_latest
    (I := fun u : PassState => u.context.resources.HasTable model)
    (v := fun u => u.context.resources.partitionKey? model name) (fun l _ u v hv hu => ?_) h ht
  obtain ⟨-, rfl⟩ := link_ok hv
  exact ⟨((indexes_attach u.context l).hasTable_iff model).2 hu,
    partitionKey?_attach hu.contains l name⟩

/-- The links that the schema has from the first give their indexes the keys that are made of their
names. -/
theorem findSome?_keyFor {d : Document} (hd : d.isSpelled = true) {c : Context}
    (hdc : d.Settles c.schema) (hls : linkedFields c "hasMany" = .ok ls)
    (hl : ∀ l ∈ ls, l.isList = true) {p : String × String} (hp : p ∈ d.linking model) :
    ls.reverse.findSome? (keyFor? model (linkIndex p)) = some (.str (linkKey p)) := by
  have settled := linkedFields_settled hls hdc
  have named : ∀ l ∈ ls, Schema.isName l.source = true := fun l hmem => by
    obtain ⟨⟨type, f⟩, hf, hsource, -⟩ := exists_of_mem_forall₂ settled.flip hmem
    rw [hsource]
    exact Document.isName_of_mem hd (Document.mem_fieldsWith.1 hf).1
  obtain ⟨⟨type, f⟩, hmem, rfl⟩ := List.mem_map.1 hp
  obtain ⟨hmem, htarget⟩ := List.mem_filter.1 hmem
  refine findSome?_eq_some ?_ fun l hmem' key hkey => ?_
  · obtain ⟨l, hmem', hsource, hfield, hlinked⟩ := exists_of_mem_forall₂ settled hmem
    refine ⟨l, List.mem_reverse.2 hmem', ?_⟩
    have target : l.target = model := (hlinked (hl l hmem')).trans (beq_iff_eq.1 htarget)
    rw [keyFor?, indexName, Link.place, Link.foreignKey, hsource, hfield,
      if_pos ⟨target, rfl⟩, linkKey]
  · rw [keyFor?] at hkey
    split at hkey
    · next hindex =>
      -- an index that has the name is that of the same type and field
      have same := linkIndex_inj (p := (l.source, l.field)) (named l (List.mem_reverse.1 hmem'))
        (Document.isName_of_mem hd (Document.mem_fieldsWith.1 hmem).1) hindex.2
      rw [← same]
      exact (Option.some.inj hkey).symm
    · cases hkey

/-- Behind the pass, tables list the links that the schema has from the first with the keys that are
made of their names. -/
theorem partitionKey?_of_apply {d : Document} (hd : d.isSpelled = true)
    (hds : d.Settles s.context.schema) (h : apply.on s = (.ok (), t))
    (ht : t.context.resources.HasTable model) {p : String × String} (hp : p ∈ d.linking model) :
    t.context.resources.partitionKey? model (linkIndex p) = some (.str (linkKey p)) := by
  obtain ⟨ls, hls, hrun, hl⟩ := exists_links_of_apply h
  have before : s.context.resources.HasTable model := by
    refine Action.forEach_invariant (I := fun u : PassState =>
      u.context.resources.HasTable model → s.context.resources.HasTable model)
      (fun l _ u v hv hu hm => hu ?_) hrun id ht
    obtain ⟨-, rfl⟩ := link_ok hv
    exact ((indexes_attach u.context l).hasTable_iff model).1 hm
  rw [partitionKey?_of_forEach hrun before, findSome?_keyFor hd hds hls hl hp, Option.some_or]

end HasManyPass

namespace ManyToManyPass

/-- Join models leave the tables of models alone that are there before. -/
theorem sameTables_of_apply {s t : PassState} (h : apply.on s = (.ok (), t)) {model : String}
    (hm : s.memory.models.contains model = true) :
    s.context.resources.SameTables (· = tableId model) t.context.resources := by
  rw [apply, on_examine_bind] at h
  split at h
  · refine (Action.forEach_invariant (I := fun u : PassState =>
      u.memory.models.contains model = true
        ∧ s.context.resources.SameTables (· = tableId model) u.context.resources)
      (fun p _ u v hv hu => ?_) h ⟨hm, .refl _ _⟩).2
    obtain ⟨a, b, -, hl⟩ := linkedBy_of_linkGroup hv
    obtain ⟨datasource, hmodels⟩ := hl.remembers.models
    have hne : model ≠ p.1 := by
      rintro rfl
      exact absurd hu.1 (Bool.eq_false_iff.1 hl.remembers.fresh)
    refine ⟨?_, hu.2.trans (sameTables_of_linkGroup hv hne)⟩
    rw [hmodels, Dict.contains_insert, hu.1, Bool.or_true]
  · cases (Prod.mk.inj h).1

end ManyToManyPass

/-! ### Runs -/

/-- The keys that are made of the names of different links to a model differ. -/
def Document.KeysApart (d : Document) (model : String) : Prop :=
  ∀ p ∈ d.linking model, ∀ q ∈ d.linking model, p ≠ q → linkKey p ≠ linkKey q

/-- The indexes by which different links to a model are found have different keys. -/
def ResourceGraph.KeysApart (g : ResourceGraph) (d : Document) (model : String) : Prop :=
  ∀ p ∈ d.linking model, ∀ q ∈ d.linking model, p ≠ q →
    g.partitionKey? model (linkIndex p) ≠ g.partitionKey? model (linkIndex q)

instance (g : ResourceGraph) (d : Document) (model : String) : Decidable (g.KeysApart d model) :=
  inferInstanceAs (Decidable (∀ p ∈ d.linking model, ∀ q ∈ d.linking model, p ≠ q →
    g.partitionKey? model (linkIndex p) ≠ g.partitionKey? model (linkIndex q)))

namespace Chain

open Context

variable {args : FactoryArgs} {c : Context} {s : PassState} {model : String}

/-- Where a run ends well, tables list links with the keys that are made of their names. -/
theorem Completes.partitionKey? (hc : c.resources = {}) (hw : c.schema.isWellFormed = true)
    (h : Completes args c s) (hm : model ∈ c.schema.namesWith "model")
    (ht : s.context.resources.contains (tableId model) = true) {p : String × String}
    (hp : p ∈ c.schema.linking model) :
    s.context.resources.partitionKey? model (linkIndex p) = some (.str (linkKey p)) := by
  obtain ⟨t, u, v, w, x, y, z, hb, hi, hrun⟩ := h.cutIndexes
  obtain ⟨j, k, hasOne, hk, rest⟩ := exists_joined hrun
  have known : j.memory.models.contains model = true :=
    hasOne.models ▸ (hi.lists hc hb).2.1 model hm
  have edits : Edits AnyName AnyTime c y.context := hb.edits.trans hi.edits
  have own : ∀ id, id = tableId model → OfKind .table id := fun _ hid =>
    hid ▸ kindOfId?_tableId model
  have same : z.context.resources.SameTables (· = tableId model) s.context.resources :=
    ((hasOne.tables.of_imp own).trans (ManyToManyPass.sameTables_of_apply hk known)).trans
      (rest.tables.of_imp own)
  have table : s.context.resources.HasTable model :=
    (h.keyed hc).hasTable (h.edits.isSound (isSound_of_empty hc)) ht
  rw [same.partitionKey?]
  exact HasManyPass.partitionKey?_of_apply (Document.isWellFormed_iff.1 hw).1 edits.settles
    hi.hasMany ((same.hasTable_iff rfl).1 table) hp

/-- **Foreign keys are made of names**: wherever a fresh run of the passes that every chain starts
with ends well on a schema that is well-formed, the table of each model of the schema that has one
lists every link to it with the key that is made of the type and the field of the link, and so
different links have different keys exactly where the texts that are made of their names differ. -/
theorem partitionKeys_of_completes (hc : c.resources = {}) (hw : c.schema.isWellFormed = true)
    (h : Completes args c s) : ∀ model ∈ c.schema.namesWith "model",
      s.context.resources.contains (tableId model) = true →
        (∀ p ∈ c.schema.linking model,
          s.context.resources.partitionKey? model (linkIndex p) = some (.str (linkKey p)))
        ∧ (s.context.resources.KeysApart c.schema model ↔ c.schema.KeysApart model) := by
  intro model hm ht
  have keys := fun p hp => h.partitionKey? hc hw hm ht (p := p) hp
  refine ⟨keys, forall₂_congr fun p hp => forall₂_congr fun q hq => imp_congr_right fun _ => ?_⟩
  rw [keys p hp, keys q hq]
  exact not_congr ⟨fun he => Json.str.inj (Option.some.inj he), fun he => he ▸ rfl⟩

/-- A schema with posts that have fields for comments. -/
def postsLinking (fields : List String) : Context where
  schema := ⟨[{
    kind := .object, name := "Post", directives := [⟨"model", []⟩],
    fields := fields.map fun name => { name, type := .list (.named "Comment"),
                                       directives := [⟨"hasMany", []⟩] } }, {
    kind := .object, name := "Comment", directives := [⟨"model", []⟩],
    fields := [{ name := "text", type := .named "String" }] }]⟩

/-- Comments and replies of a post have different keys. -/
theorem keysApart_postsLinking :
    (postsLinking ["comments", "replies"]).resources = {}
    ∧ (postsLinking ["comments", "replies"]).schema.isWellFormed = true
    ∧ Completes {} (postsLinking ["comments", "replies"])
      (lastState {} (postsLinking ["comments", "replies"]))
    ∧ (lastState {} (postsLinking ["comments", "replies"])).context.resources.KeysApart
      (postsLinking ["comments", "replies"]).schema "Comment" := by
  have run := completes_of_endsWell
    (p := fun s => s.context.resources.contains (tableId "Comment"))
    (by decide +kernel : endsWell {} (postsLinking ["comments", "replies"]) _ = true)
  have wellFormed : (postsLinking ["comments", "replies"]).schema.isWellFormed = true := by
    decide +kernel
  have keys := partitionKeys_of_completes rfl wellFormed run.1 "Comment" (by decide +kernel) run.2
  refine ⟨rfl, wellFormed, run.1, keys.2.2 ?_⟩
  unfold Document.KeysApart
  decide +kernel

/-- Fields that differ in the case of their first letter share a key. -/
theorem not_keysApart_postsLinking :
    (postsLinking ["comments", "Comments"]).resources = {}
    ∧ (postsLinking ["comments", "Comments"]).schema.isWellFormed = true
    ∧ Completes {} (postsLinking ["comments", "Comments"])
      (lastState {} (postsLinking ["comments", "Comments"]))
    ∧ "Comment" ∈ (postsLinking ["comments", "Comments"]).schema.namesWith "model"
    ∧ (lastState {} (postsLinking ["comments", "Comments"])).context.resources.contains
      (tableId "Comment") = true
    ∧ ¬ (lastState {} (postsLinking ["comments", "Comments"])).context.resources.KeysApart
      (postsLinking ["comments", "Comments"]).schema "Comment" := by
  have run := completes_of_endsWell (p := fun s => s.context.resources.contains (tableId "Comment")
      && !decide (s.context.resources.KeysApart (postsLinking ["comments", "Comments"]).schema
        "Comment"))
    (by decide +kernel : endsWell {} (postsLinking ["comments", "Comments"]) _ = true)
  obtain ⟨table, shared⟩ := Bool.and_eq_true_iff.1 run.2
  exact ⟨rfl, by decide +kernel, run.1, by decide +kernel, table, by simpa using shared⟩

end Chain

end ApiCompiler
