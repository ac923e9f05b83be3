import ApiCompiler.Pass.Join
import ApiCompiler.Proofs.Dict
import ApiCompiler.Proofs.Pass.Key

/-!
# Passes — what the passes of relations do

A link is made between models that are there when they are looked up, and stay. Only a field that
links to many records gets another type, and only the type of a join becomes a model.

* `of_linkedFields`, `of_groups`: what the schema says of the links that are found in it.
* `apply_edits`, one for each pass.
-/

namespace ApiCompiler

open PassAction Context

variable {known : String → Prop} {ready : Document → String → Prop}

/-- A field that carries a directive is one of the schema. -/
theorem mem_directedFields {c : Context} {directive : String} {t : TypeDefinition}
    {f : FieldDefinition} {d : Directive} (h : (t, f, d) ∈ directedFields c directive) :
    t ∈ c.schema.definitions ∧ f ∈ t.fields ∧ findDirective? directive f.directives = some d := by
  obtain ⟨⟨u, g⟩, hfield, he⟩ := List.mem_filterMap.1 h
  obtain ⟨d', hd, he⟩ := Option.map_eq_some_iff.1 he
  cases he
  obtain ⟨ht, hf, -⟩ := Document.mem_fieldsWith.1 hfield
  exact ⟨ht, hf, hd⟩

/-- An argument that has to be a text is one. -/
theorem Directive.requiredString_eq_ok {d : Directive} {pass argument location text : String} :
    d.requiredString pass argument location = .ok text ↔
      (d.argument? argument).bind Value.asString? = some text := by
  unfold Directive.requiredString
  cases (d.argument? argument).bind Value.asString? with
  | none => simp
  | some s => simp

/-! ### Links -/

/-- A link is that of a field with a directive. -/
def Link.IsDirected (l : Link) (directive : String) (d : Document) : Prop :=
  d.HasField l.source fun name directives =>
    name = l.field ∧ (findDirective? directive directives).isSome = true

namespace Link.IsDirected

variable {l : Link} {directive : String} {d d' : Document}

theorem mono (h : l.IsDirected directive d) (hd : d.GrownTo d') : l.IsDirected directive d' :=
  Document.HasField.mono h hd

theorem declares (h : l.IsDirected directive d) : d.Declares l.source l.field :=
  Document.HasField.imp h fun _ _ hp => hp.1

end Link.IsDirected

/-- A link is that of a field with the directive, and both its ends are models. -/
theorem of_linkedFields {c : Context} {directive : String} {ls : List Link}
    (h : linkedFields c directive = .ok ls) {l : Link} (hl : l ∈ ls) :
    c.isModel l.target = true ∧ c.schema.References l.target
      ∧ l.IsDirected directive c.schema := by
  obtain ⟨⟨t, f⟩, hp, hf⟩ := Except.mem_of_mapM h hl
  obtain ⟨ht, hmem, hdir⟩ := Document.mem_fieldsWith.1 hp
  simp only [linkOf] at hf
  split at hf
  · cases hf
  · next hnone =>
    cases hf
    rw [List.find?_eq_none] at hnone
    have hm := hnone f.type.baseName (by simp)
    rw [Bool.not_eq_true', Bool.not_eq_false] at hm
    exact ⟨hm, Document.references_of_mem ht hmem List.mem_cons_self,
      t, ht, rfl, f, hmem, rfl, hdir⟩

theorem addLinkResolver_edits {c : Context} {l : Link} {properties : List (String × Json)}
    (h : c.isModel l.target = true) (ha : c.Attaches l.source l.field)
    (hk : ∀ p ∈ properties, p.1 ∈ decorations) :
    Edits known ready c (addLinkResolver c l properties) :=
  Edits.addResolver (reaches_of_isModel h) ha _ (.foldl_set hk)

/-- The key of a link is named after its field. -/
def Link.HasKeyNamed (l : Link) (key : String) : Prop :=
  key = l.foreignKey ∨ key = BelongsToPass.foreignKey l

theorem ensureForeignKey_edits {c : Context} {l : Link} (hl : c.schema.Declares l.source l.field)
    (type : String) {key : String} (hn : l.HasKeyNamed key) :
    Edits known ready c (ensureForeignKey c type key) :=
  .of (.field (.key hl hn))

/-- A link to one record, by a key that the schema gets where it is missing. -/
theorem keyedLink_edits {c : Context} {l : Link} {directive : String}
    (h : c.isModel l.target = true) (hl : l.IsDirected directive c.schema) (type : String)
    {key : String} (hn : l.HasKeyNamed key) {properties : List (String × Json)}
    (hk : ∀ p ∈ properties, p.1 ∈ decorations) :
    Edits known ready c (addLinkResolver (ensureForeignKey c type key) l properties) :=
  have keyed := ensureForeignKey_edits hl.declares type hn
  keyed.trans (addLinkResolver_edits (keyed.isModel h) ((attaches_of_directed hl).mono keyed) hk)

/-- A step for each link, which may rely on the models and fields of the schema, is done by
changes. -/
theorem editsAt_links {directive : String} {f : Link → PassAction Unit} {s : PassState}
    (hf : ∀ l t, t.context.isModel l.target = true → s.context.schema.References l.target →
        l.IsDirected directive t.context.schema → EditsAt known ready (f l) t) :
    EditsAt known ready (do Action.forEach f (← examine (linkedFields · directive))) s :=
  editsAt_examine_bind fun _ hls => editsAt_forEach fun l hl t ht =>
    have ⟨hm, hrefers, hfield⟩ := of_linkedFields hls hl
    hf l t (ht.isModel hm) hrefers (hfield.mono ht.grownTo)

namespace HasManyPass

/-- A table has its foreign key declared, if its model is. -/
theorem hasKey_ensureForeignKey {c : Context} {type key : String}
    (h : (ensureForeignKey c type key).schema.IsTyped type) :
    (ensureForeignKey c type key).schema.HasKey type key [] := by
  intro field hf
  rw [List.mem_singleton.1 hf]
  exact Document.declares_ensureField (Document.isTyped_of_modifyType h) _

theorem attach_edits {c : Context} {l : Link} (h : c.isModel l.target = true)
    (hk : known l.target) (hl : c.schema.LinksToMany l.source l.field) :
    Edits known ready c (attach c l) := by
  have keyed : Edits known ready c (ensureForeignKey c l.target l.foreignKey) :=
    ensureForeignKey_edits (hl.imp fun _ _ hp => hp.1) l.target (.inl rfl)
  have indexed : Edits known ready c ((ensureForeignKey c l.target l.foreignKey).modifyResource
      (tableId l.target) (·.push "globalSecondaryIndexes"
        (IndexPass.entry (indexName l) l.foreignKey []))) :=
    keyed.tail (.index (indexName l) (by decide) hasKey_ensureForeignKey)
  have linked := indexed.tail
    (.retype (hl.mono indexed.grownTo) (indexed.isModel h) (.inl hk))
  exact linked.trans (addLinkResolver_edits (Edits.isModel linked h)
    ((attaches_of_linksToMany hl).mono linked) (by simp [decorations]))

theorem link_edits {l : Link} {s : PassState} (h : s.context.isModel l.target = true)
    (hk : known l.target) (hl : s.context.schema.LinksToMany l.source l.field) :
    EditsAt known ready (link l) s := by
  unfold link
  exact editsAt_guard fun _ => editsAt_onContext (attach_edits h hk hl)

theorem apply_edits {s : PassState} (hk : ∀ name, s.context.schema.References name → known name) :
    EditsAt known ready apply s :=
  editsAt_links fun _ _ h hr hl =>
    link_edits h (hk _ hr) (hl.imp fun _ _ hp => ⟨hp.1, .inl hp.2⟩)

end HasManyPass

namespace HasOnePass

theorem attach_edits {c : Context} {l : Link} (h : c.isModel l.target = true)
    (hl : l.IsDirected "hasOne" c.schema) : Edits known ready c (attach c l) :=
  keyedLink_edits h hl l.source (.inl rfl) (by simp [decorations])

theorem link_edits {l : Link} {s : PassState} (h : s.context.isModel l.target = true)
    (hl : l.IsDirected "hasOne" s.context.schema) : EditsAt known ready (link l) s := by
  unfold link
  exact editsAt_guard fun _ => editsAt_bind (editsAt_onContext (attach_edits h hl))
    fun _ t _ => editsAt_onMemory _ t

theorem apply_edits (s : PassState) : EditsAt known ready apply s := by
  unfold apply
  refine editsAt_examine_bind fun ls hls => editsAt_bind
    (editsAt_forEach fun l hl t ht => ?_) fun _ t _ => editsAt_memory_bind ?_
  · obtain ⟨hm, -, hfield⟩ := of_linkedFields hls hl
    exact link_edits (ht.isModel hm) (hfield.mono ht.grownTo)
  · split
    · exact editsAt_throw _ t
    · exact editsAt_pure () t

end HasOnePass

namespace BelongsToPass

theorem attach_edits {c : Context} {l : Link} (h : c.isModel l.target = true)
    (hl : l.IsDirected "belongsTo" c.schema) : Edits known ready c (attach c l) :=
  keyedLink_edits h hl l.source (.inr rfl) (by simp [decorations])

theorem link_edits {l : Link} {s : PassState} (h : s.context.isModel l.target = true)
    (hl : l.IsDirected "belongsTo" s.context.schema) : EditsAt known ready (link l) s := by
  unfold link
  exact editsAt_guard fun _ => editsAt_context_bind
    (editsAt_guard fun _ => editsAt_onContext (attach_edits h hl))

theorem apply_edits (s : PassState) : EditsAt known ready apply s :=
  editsAt_links fun _ _ h _ hl => link_edits h hl

end BelongsToPass

/-! ### Many to many -/

namespace ManyToManyPass

theorem attach_edits {join : String} {c : Context} {m : Member}
    (h : c.resources.contains (datasourceId join) = true) (hj : c.schema.IsJoin join)
    (hl : c.schema.LinksToMany m.type m.field) : Edits known ready c (attach join c m) := by
  have hm : c.isModel join = true := by rw [Context.isModel, h, Bool.or_true]
  have typed : Edits known ready c (retypeField c m.type m.field (.named (connectionName join))) :=
    .of (.retype hl hm (.inr hj))
  have reached := reaches_of_contains join (typed.contains h)
  have attached := (attaches_of_linksToMany hl).mono typed
  exact typed.trans (Edits.addResolver reached attached _ (.set (by decide) _))

theorem requireModel_edits (m : Member) (s : PassState) :
    EditsAt known ready (requireModel m) s := by
  refine editsAt_reading_bind (editsAt_memory_bind ?_)
  split
  · exact editsAt_pure () s
  · exact editsAt_throw _ s

theorem indexEnd_edits {join : String} {m : Member} {s : PassState}
    (h : s.context.schema.Declares join m.key) : EditsAt known ready (indexEnd join m) s := by
  refine editsAt_writing_bind (IndexPass.addIndex_edits ⟨fun field hf => ?_, nofun⟩)
  rwa [List.mem_singleton.1 hf]

/-- What is made for a relation behind its join model. -/
def linkEnds (join : String) (a b : Member) : PassAction Unit := do
  Action.forEach (indexEnd join) [a, b]
  writing .hasOne
  onMemory fun m => [a, b].foldl (fun m e => m.addRelation (joinRelation join e)) m
  writing .auth
  onMemory (·.registerJoin join [a.type, b.type])
  onContext fun c => [a, b].foldl (attach join) c
  log .debug ("Joined " ++ a.type ++ " and " ++ b.type ++ " through " ++ join)

theorem buildJoin_eq (join : String) (a b : Member) : buildJoin join a b = (do
    writing .model
    ModelPass.addSynthesized join (joinFields a b)
    linkEnds join a b) := rfl

theorem addJoin_edits {join : String} {a b : Member} {s : PassState}
    (hj : s.context.schema.IsJoin join)
    (hl : ∀ m ∈ [a, b], known m.type ∧ s.context.schema.LinksToMany m.type m.field) :
    (∀ f ∈ joinFields a b, s.context.Gains known join f)
      ∧ EditsAt known (ModelPass.Ready ModelPass.NoneSpared)
        (ModelPass.addSynthesized join (joinFields a b)) s := by
  have gained : ∀ f ∈ joinFields a b, s.context.Gains known join f :=
    fun f hf => .link (hl a (by simp)).1 (hl b (by simp)).1 hf
  exact ⟨gained, ModelPass.addSynthesized_edits hj gained ⟨_, List.mem_cons_self, rfl⟩⟩

/-- The ends of a relation are linked by changes where its join model has been made. -/
theorem linkEnds_edits {join : String} {a b : Member} {s t : PassState}
    (hj : s.context.schema.IsJoin join)
    (hl : ∀ m ∈ [a, b], known m.type ∧ s.context.schema.LinksToMany m.type m.field)
    (ht : (ModelPass.addSynthesized join (joinFields a b)).on s = (.ok (), t)) :
    EditsAt known (ModelPass.Ready ModelPass.NoneSpared) (linkEnds join a b) t := by
  obtain ⟨gained, made⟩ := addJoin_edits hj hl
  -- the datasource of the join model is there from here on, and so are its fields
  have hjoin := ModelPass.contains_of_addSynthesized ht
  have hkey : ∀ m ∈ [a, b], t.context.schema.Declares join m.key := by
    intro m hm
    refine ModelPass.declares_of_addSynthesized hj gained ht
      (f := { name := m.key, type := .required "ID" }) ?_
    simp only [List.mem_cons, List.not_mem_nil, or_false] at hm
    rcases hm with rfl | rfl <;> simp [joinFields]
  have indexed : EditsAt known (ModelPass.Ready ModelPass.NoneSpared)
      (Action.forEach (indexEnd join) [a, b]) t :=
    editsAt_forEach fun m hm u hu => indexEnd_edits ((hkey m hm).mono hu.grownTo)
  refine editsAt_bind indexed fun _ u hu => ?_
  have before := (made.of_ok ht).trans (indexed.of_ok hu)
  refine editsAt_writing_bind (editsAt_onMemory_bind (editsAt_writing_bind
    (editsAt_onMemory_bind (editsAt_onContext_bind ?_ (editsAt_log _ _ _)))))
  exact Edits.foldl fun m hm d hd => attach_edits
    (hd.contains ((indexed.of_ok hu).contains hjoin))
    (hj.mono (Edits.grownTo (before.trans hd)))
    ((hl m hm).2.mono (Edits.grownTo (before.trans hd)))

theorem buildJoin_edits {join : String} {a b : Member} {s : PassState}
    (hj : s.context.schema.IsJoin join)
    (hl : ∀ m ∈ [a, b], known m.type ∧ s.context.schema.LinksToMany m.type m.field) :
    EditsAt known (ModelPass.Ready ModelPass.NoneSpared) (buildJoin join a b) s := by
  rw [buildJoin_eq]
  exact editsAt_writing_bind (editsAt_bind (addJoin_edits hj hl).2 fun _ _ => linkEnds_edits hj hl)

/-- An end of a relation is a field with the directive, which names the relation. -/
theorem memberOf_eq_ok {t : TypeDefinition} {f : FieldDefinition} {d : Directive} {join : String}
    {m : Member} (h : memberOf t f d = .ok (join, m)) :
    m.type = t.name ∧ m.field = f.name ∧ m.target = f.type.baseName ∧ ∃ relation,
      (d.argument? "relationName").bind Value.asString? = some relation
        ∧ join = Text.capitalize relation := by
  obtain ⟨relation, hr, h⟩ := Except.bind_eq_ok h
  split at h
  · cases h
  · cases h
    exact ⟨rfl, rfl, rfl, relation, Directive.requiredString_eq_ok.1 hr, rfl⟩

/-- What holds of the name and of every end of a relation holds when these are grouped by name. -/
theorem of_grouped {P : String → Prop} {Q : Member → Prop} {ms : List (String × Member)}
    (h : ∀ p ∈ ms, P p.1 ∧ Q p.2) {join : String} {members : List Member}
    (hm : (ms.foldl (fun g (join, m) => g.insert join ((g.find? join).getD [] ++ [m]))
      (∅ : Dict (List Member))).find? join = some members) : P join ∧ ∀ m ∈ members, Q m := by
  suffices hall : ∀ join members, (ms.foldl (fun g (join, m) =>
      g.insert join ((g.find? join).getD [] ++ [m])) (∅ : Dict (List Member))).find? join
        = some members → P join ∧ ∀ m ∈ members, Q m from hall join members hm
  refine List.foldlRecOn (motive := fun g : Dict (List Member) => ∀ join members,
    g.find? join = some members → P join ∧ ∀ m ∈ members, Q m) ms _ (fun _ _ h => nomatch h) ?_
  rintro g hg ⟨join, m⟩ hp other members hm
  obtain ⟨hjoin, hend⟩ := h _ hp
  rw [Dict.find?_insert] at hm
  split at hm
  · next he =>
    cases hm
    refine ⟨he ▸ hjoin, fun m' hm' => ?_⟩
    rcases List.mem_append.1 hm' with hm' | hm'
    · cases hfound : g.find? join with
      | none =>
        rw [hfound] at hm'
        cases hm'
      | some ms' =>
        rw [hfound] at hm'
        exact (hg join ms' hfound).2 m' hm'
    · rw [List.mem_singleton.1 hm']
      exact hend
  · exact hg other members hm

/-- The ends of a relation link to many records, and what it is named after is its join type. -/
theorem of_groups {c : Context} {g : Dict (List Member)} (h : groups c = .ok g) {join : String}
    {members : List Member} (hm : g.find? join = some members) :
    c.schema.IsJoin join ∧ ∀ m ∈ members,
      c.schema.References m.target ∧ c.schema.LinksToMany m.type m.field := by
  obtain ⟨ms, hms, h⟩ := Except.bind_eq_ok h
  cases h
  have ends : ∀ p ∈ ms, c.schema.IsJoin p.1
      ∧ c.schema.References p.2.target ∧ c.schema.LinksToMany p.2.type p.2.field := by
    rintro ⟨join, m⟩ hp
    obtain ⟨⟨t, f, d⟩, hdirected, hof⟩ := Except.mem_of_mapM hms hp
    obtain ⟨ht, hf, hd⟩ := mem_directedFields hdirected
    obtain ⟨htype, hfield, htarget, relation, hr, rfl⟩ := memberOf_eq_ok hof
    have refers : c.schema.References m.target := by
      rw [htarget]
      exact Document.references_of_mem ht hf List.mem_cons_self
    refine ⟨⟨t.name, t, ht, rfl, f, hf, d, relation, hd, hr, rfl⟩, refers,
      t, ht, htype.symm, f, hf, hfield.symm, .inr ?_⟩
    exact Option.isSome_iff_exists.2 ⟨d, hd⟩
  exact of_grouped (P := c.schema.IsJoin)
    (Q := fun m => c.schema.References m.target ∧ c.schema.LinksToMany m.type m.field) ends hm

theorem pairOf_eq_ok {join : String} {members : List Member} {a b : Member}
    (h : pairOf join members = .ok (a, b)) :
    members = [a, b] ∧ a.type = b.target ∧ b.type = a.target := by
  unfold pairOf at h
  split at h
  · split at h
    · cases h
    · split at h
      · cases h
      · next hends =>
        cases h
        rw [not_or, ne_eq, ne_eq, not_not, not_not] at hends
        exact ⟨rfl, hends.2.symm, hends.1.symm⟩
  · cases h

theorem linkGroup_edits {join : String} {members : List Member} {s : PassState}
    (hj : s.context.schema.IsJoin join)
    (hl : ∀ m ∈ members, known m.target ∧ s.context.schema.LinksToMany m.type m.field) :
    EditsAt known (ModelPass.Ready ModelPass.NoneSpared) (linkGroup join members) s := by
  refine editsAt_ofExcept_bind fun (a, b) hab => ?_
  -- each end is of the type that the other one refers to
  obtain ⟨rfl, ha, hb⟩ := pairOf_eq_ok hab
  have ends : ∀ m ∈ [a, b], known m.type := by
    simp only [List.mem_cons, List.not_mem_nil, or_false, forall_eq_or_imp, forall_eq]
    exact ⟨ha ▸ (hl b (by simp)).1, hb ▸ (hl a (by simp)).1⟩
  refine editsAt_bind (requireModel_edits a s) fun _ t ht => ?_
  refine editsAt_bind (requireModel_edits b t) fun _ u hu => ?_
  have hkept : Edits AnyName AnyTime s.context u.context :=
    ((requireModel_edits a s).of_ok ht).trans ((requireModel_edits b t).of_ok hu)
  exact buildJoin_edits (hj.mono hkept.grownTo) fun m hm =>
    ⟨ends m hm, (hl m hm).2.mono hkept.grownTo⟩

theorem apply_edits {s : PassState} (hk : ∀ name, s.context.schema.References name → known name) :
    EditsAt known (ModelPass.Ready ModelPass.NoneSpared) apply s :=
  editsAt_examine_bind fun _ hg => editsAt_forEach fun _ hp _ ht =>
    have ⟨hj, hl⟩ := of_groups hg (Dict.mem_toList_iff.1 hp)
    linkGroup_edits (hj.mono ht.grownTo) fun m hm =>
      ⟨hk _ (hl m hm).1, (hl m hm).2.mono ht.grownTo⟩

/-! ### Join models -/

/-- A relation that was built has its join model. -/
theorem isTyped_of_buildJoin {join : String} {a b : Member} {s t : PassState}
    (hj : s.context.schema.IsJoin join)
    (hl : ∀ m ∈ [a, b], s.context.schema.LinksToMany m.type m.field)
    (h : (buildJoin join a b).on s = (.ok (), t)) : t.context.schema.IsTyped join := by
  have ends : ∀ m ∈ [a, b], AnyName m.type ∧ s.context.schema.LinksToMany m.type m.field :=
    fun m hm => ⟨trivial, hl m hm⟩
  have free := on_writing .model s
  rw [buildJoin_eq] at h
  split at free
  · rw [Action.on_bind_ok free, Action.on_bind_eq_ok] at h
    obtain ⟨_, u, hu, h⟩ := h
    have typed := ModelPass.isTyped_of_addSynthesized hj (addJoin_edits hj ends).1 hu
    exact typed.mono ((linkEnds_edits hj ends hu).of_ok h).grownTo
  · rw [Action.on_bind_error free] at h
    exact nomatch (Prod.mk.inj h).1

theorem isTyped_of_linkGroup {join : String} {members : List Member} {s t : PassState}
    (hj : s.context.schema.IsJoin join)
    (hl : ∀ m ∈ members, s.context.schema.LinksToMany m.type m.field)
    (h : (linkGroup join members).on s = (.ok (), t)) : t.context.schema.IsTyped join := by
  rw [linkGroup, Action.on_bind_eq_ok] at h
  obtain ⟨⟨a, b⟩, s', hab, h⟩ := h
  obtain ⟨hpair, rfl⟩ := Prod.mk.inj hab
  obtain ⟨rfl, -, -⟩ := pairOf_eq_ok hpair
  rw [Action.on_bind_eq_ok] at h
  obtain ⟨_, u, hu, h⟩ := h
  rw [Action.on_bind_eq_ok] at h
  obtain ⟨_, v, hv, h⟩ := h
  have kept : Edits AnyName AnyTime s.context v.context :=
    ((requireModel_edits a s).of_ok hu).trans ((requireModel_edits b u).of_ok hv)
  exact isTyped_of_buildJoin (hj.mono kept.grownTo) (fun m hm => (hl m hm).mono kept.grownTo) h

/-- Each end is found under the name of its relation, and so is what was found before. -/
theorem contains_grouped {ms : List (String × Member)} {g : Dict (List Member)} {join : String}
    (h : g.contains join = true ∨ ∃ p ∈ ms, p.1 = join) :
    (ms.foldl (fun g (join, m) => g.insert join ((g.find? join).getD [] ++ [m])) g).contains join
      = true := by
  induction ms generalizing g with
  | nil => exact h.resolve_right nofun
  | cons p ms ih =>
    rw [List.foldl_cons]
    refine ih ?_
    rw [Dict.contains_insert, Bool.or_eq_true, decide_eq_true_eq]
    rcases h with h | ⟨q, hq, rfl⟩
    · exact .inl (.inr h)
    · rcases List.mem_cons.1 hq with rfl | hq
      · exact .inl (.inl rfl)
      · exact .inr ⟨q, hq, rfl⟩

/-- Every type that a relation asks to be joined by has its ends. -/
theorem exists_group {c : Context} {g : Dict (List Member)} (h : groups c = .ok g) {join : String}
    (hj : c.schema.IsJoin join) : ∃ members, (join, members) ∈ g.toList := by
  obtain ⟨ms, hms, h⟩ := Except.bind_eq_ok h
  cases h
  obtain ⟨_, t, ht, -, f, hf, d, relation, hd, hr, rfl⟩ := hj
  have directed : f.hasDirective "manyToMany" = true := Option.isSome_iff_exists.2 ⟨d, hd⟩
  have listed : (t, f, d) ∈ directedFields c "manyToMany" :=
    List.mem_filterMap.2 ⟨(t, f), Document.mem_fieldsWith.2 ⟨ht, hf, directed⟩,
      Option.map_eq_some_iff.2 ⟨d, hd, rfl⟩⟩
  obtain ⟨⟨join, m⟩, hm, hof⟩ := Except.exists_of_mapM hms listed
  obtain ⟨-, -, -, relation', hr', rfl⟩ := memberOf_eq_ok hof
  rw [hr] at hr'
  cases hr'
  have found := contains_grouped (g := ∅) (.inr ⟨_, hm, rfl⟩)
  obtain ⟨members, hfound⟩ := Option.isSome_iff_exists.1 found
  exact ⟨members, Dict.mem_toList_iff.2 hfound⟩

/-- Where the pass ends well, each relation was linked in between. -/
theorem exists_linkGroup_of_apply {s t : PassState} (h : apply.on s = (.ok (), t)) {join : String}
    (hj : s.context.schema.IsJoin join) : ∃ members u v, (linkGroup join members).on u = (.ok (), v)
      ∧ Edits AnyName AnyTime s.context u.context ∧ Edits AnyName AnyTime v.context t.context
      ∧ ∀ m ∈ members, u.context.schema.LinksToMany m.type m.field := by
  rw [apply, on_examine_bind] at h
  split at h
  · next g hg =>
    obtain ⟨members, hm⟩ := exists_group hg hj
    have linked : ∀ p ∈ g.toList, ∀ u, Edits AnyName AnyTime s.context u.context →
        EditsAt AnyName AnyTime (linkGroup p.1 p.2) u := fun p hp u hu =>
      have ⟨hj, hl⟩ := of_groups hg (Dict.mem_toList_iff.1 hp)
      (linkGroup_edits (hj.mono hu.grownTo) fun m hm =>
        ⟨trivial, (hl m hm).2.mono hu.grownTo⟩).mono fun _ _ _ => trivial
    obtain ⟨u, v, hv, before, behind⟩ := exists_of_forEach linked h hm
    have hl := (of_groups hg (Dict.mem_toList_iff.1 hm)).2
    exact ⟨members, u, v, hv, before, behind, fun m hm => (hl m hm).2.mono before.grownTo⟩
  · exact nomatch (Prod.mk.inj h).1

/-- The join models that relations ask for are there where the pass ends well. -/
theorem isTyped_of_apply {s t : PassState} (h : apply.on s = (.ok (), t)) {join : String}
    (hj : s.context.schema.IsJoin join) : t.context.schema.IsTyped join := by
  obtain ⟨_, u, v, hv, before, behind, hl⟩ := exists_linkGroup_of_apply h hj
  exact (isTyped_of_linkGroup (hj.mono before.grownTo) hl hv).mono behind.grownTo

end ManyToManyPass

end ApiCompiler
