import ApiCompiler.Proofs.Resource.Resolvers
import ApiCompiler.Proofs.Schema.Accepted
import ApiCompiler.Proofs.Transform.Exported
import Mathlib.Data.List.Nodup

/-!
# Transforms — the resolvers of a run, and their slots

Slots are configured under the field of their resolver, which is read up to the first dot as the
type and behind it as the field. The types that resolvers are attached to have names without dots,
and so a resolver has all the slots of its field and no other ones, also where its field has dots in
its name.

* `Config.slotNames_of_validate`: the slots under a key are those of its field.
* `Context.Attaches.isName`: the types that resolvers are attached to have names.
* `isConfigured_of_completes`: every resolver has the id, the properties and the slots of its field.
-/

namespace ApiCompiler

/-! ### Slots of a configuration -/

namespace Config

/-- The names of the slots that a configuration has for a field, in its order. -/
def slotNames (config : Config) (type field : String) : List String :=
  (config.slots.values.flatten.filter (·.isOf type field)).map (·.slotName)

/-- A valid configuration has slots under keys that name a field. -/
theorem checkSlots_of_validate {config : Config} (h : config.validate = .ok ()) {key : String}
    {slots : List Slot} (hs : config.slots.find? key = some slots) :
    checkSlots key slots = .ok () := by
  obtain ⟨_, -, h⟩ := Except.bind_eq_ok h
  obtain ⟨_, -, h⟩ := Except.bind_eq_ok h
  exact Except.forM_eq_ok_iff.1 h (key, slots) (Dict.mem_toList_iff.2 hs)

theorem isOf_iff {s : Slot} {type field : String} :
    s.isOf type field = true ↔ s.resolverTypeName = type ∧ s.resolverFieldName = field := by
  rw [Slot.isOf, Bool.and_eq_true, beq_iff_eq, beq_iff_eq]

/-- The slots under a key are all of the field that it names. -/
theorem exists_of_checkSlots {key : String} {slots : List Slot}
    (h : checkSlots key slots = .ok ()) : ∃ type field : List Char,
      Text.splitAtFirst '.' key.toList = some (type, field)
        ∧ ∀ s ∈ slots, s.isOf (String.ofList type) (String.ofList field) = true := by
  unfold checkSlots at h
  split at h
  · cases h
  · next type field hsplit =>
    split at h
    · cases h
    · next hnone =>
      refine ⟨type, field, hsplit, fun s hs => ?_⟩
      simpa using List.find?_eq_none.1 hnone s hs

/-- A slot stands under the key of its field. -/
theorem key_of_checkSlots {key : String} {slots : List Slot} (h : checkSlots key slots = .ok ())
    {s : Slot} (hs : s ∈ slots) {type field : String} (hof : s.isOf type field = true) :
    key = type ++ "." ++ field := by
  obtain ⟨type', field', hsplit, hall⟩ := exists_of_checkSlots h
  obtain ⟨rfl, rfl⟩ := isOf_iff.1 hof
  obtain ⟨htype, hfield⟩ := isOf_iff.1 (hall s hs)
  rw [htype, hfield, ← String.toList_inj, ← Text.append_of_splitAtFirst hsplit]
  simp [String.toList_append]

theorem filter_flatten_of_mem {α : Type} {p : α → Bool} {before behind : List (List α)}
    {kept : List α} (hkept : ∀ a ∈ kept, p a = true)
    (hother : ∀ as ∈ before ++ behind, ∀ a ∈ as, ¬ p a = true) :
    (before ++ kept :: behind).flatten.filter p = kept := by
  have none : ∀ ass, (∀ as ∈ ass, as ∈ before ++ behind) → (List.flatten ass).filter p = [] := by
    intro ass hass
    refine List.filter_eq_nil_iff.2 fun a ha => ?_
    obtain ⟨as, has, ha⟩ := List.mem_flatten.1 ha
    exact hother as (hass as has) a ha
  rw [List.flatten_append, List.flatten_cons, List.filter_append, List.filter_append,
    none before fun _ => List.mem_append_left _, none behind fun _ => List.mem_append_right _,
    List.filter_eq_self.2 hkept, List.nil_append, List.append_nil]

/-- **The slots that a valid configuration has under the key of a field are all that it has for the
field**, if its type has no dot in its name. -/
theorem slotNames_of_validate {config : Config} (h : config.validate = .ok ())
    {type field : String} (hdot : '.' ∉ type.toList) {slots : List Slot}
    (hs : config.slots.find? (type ++ "." ++ field) = some slots) :
    slots.map (·.slotName) = config.slotNames type field := by
  have checked := checkSlots_of_validate h hs
  have all : ∀ s ∈ slots, s.isOf type field = true := by
    obtain ⟨type', field', hsplit, hall⟩ := exists_of_checkSlots checked
    have hkey : (type ++ "." ++ field).toList = type.toList ++ '.' :: field.toList := by
      simp [String.toList_append]
    rw [hkey, Text.splitAtFirst_append hdot] at hsplit
    obtain ⟨rfl, rfl⟩ := Prod.mk.inj (Option.some.inj hsplit)
    simpa only [String.ofList_toList] using hall
  obtain ⟨before, behind, hlist⟩ := List.append_of_mem (Dict.mem_toList_iff.2 hs)
  have hvalues : config.slots.values
      = before.map (·.2) ++ slots :: behind.map (·.2) := by
    rw [Dict.values, hlist, List.map_append, List.map_cons]
  have once : ∀ p ∈ before ++ behind, p.1 ≠ type ++ "." ++ field := by
    have hnodup := config.slots.nodup_keys
    rw [Dict.keys, hlist, List.map_append, List.map_cons, List.nodup_middle,
      List.nodup_cons, ← List.map_append] at hnodup
    exact fun p hp he => hnodup.1 (List.mem_map.2 ⟨p, hp, he⟩)
  rw [slotNames, hvalues, filter_flatten_of_mem all]
  intro ss hss s hmem hof
  rw [← List.map_append] at hss
  obtain ⟨⟨key, ss'⟩, hp, rfl⟩ := List.mem_map.1 hss
  have found : config.slots.find? key = some ss' := by
    refine Dict.mem_toList_iff.1 (hlist ▸ ?_)
    rcases List.mem_append.1 hp with hp | hp
    · exact List.mem_append_left _ hp
    · exact List.mem_append_right _ (List.mem_cons_of_mem _ hp)
  exact once _ hp (key_of_checkSlots (checkSlots_of_validate h found) hmem hof)

end Config

/-! ### Types of resolvers -/

/-- The types that resolvers are attached to are those of the operations, or have fields with
directives; so they have names, if the types of an earlier schema do. -/
theorem Context.Attaches.isName {c : Context} {d : Document} (hd : d.isWellFormed = true)
    (hgrown : d.GrownTo c.schema) {type field : String} (h : c.Attaches type field) :
    Schema.isName type = true := by
  cases h with
  | directed h =>
    obtain ⟨t, ht, rfl, -⟩ := h.of_grownTo hgrown fun _ hp => hp.2 rfl
    exact (TypeDefinition.isWellFormed_iff.1 (Document.isWellFormed_iff_forall.1 hd t ht)).1
  | operation hr =>
    simp only [List.mem_cons, List.not_mem_nil, or_false] at hr
    rcases hr with rfl | rfl <;> decide
  | creation => decide

/-! ### Runs -/

/-- A resolver has the id of its field, names the field and a datasource, and has all slots that the
configuration has for the field, if there is an entry for them. -/
structure Resource.IsConfigured (config : Config) (type field : String) (r : Resource) : Prop where
  id         : r.id = resolverId type field
  typeName   : r.get? "typeName" = some (.str type)
  fieldName  : r.get? "fieldName" = some (.str field)
  dataSource : ∃ datasource, r.get? "dataSource" = some (.str datasource)
  slots      : r.get? "slots" =
    if config.slots.contains (type ++ "." ++ field) then
      some (.ofStrings (config.slotNames type field))
    else none

theorem Resource.Resolves.isConfigured {config : Config} (hv : config.validate = .ok ())
    {type field : String} {r : Resource} (h : r.Resolves config.slots type field)
    (hdot : '.' ∉ type.toList) : r.IsConfigured config type field where
  id := h.id
  typeName := h.typeName
  fieldName := h.fieldName
  dataSource := h.dataSource
  slots := by
    rw [h.slots, Dict.contains]
    cases hs : config.slots.find? (type ++ "." ++ field) with
    | none => rfl
    | some slots => rw [Option.map_some, Config.slotNames_of_validate hv hdot hs]; rfl

namespace Transform

/-- The transform of a configuration without custom passes. -/
def builtin (config : Config) : Transform := ofChain config (Chain.builtin config.factory)

/-- **Resolvers keep their identity and their slots**: wherever the passes of a fresh run end well,
for a valid configuration and a schema that can be read, every resolver has the id, the properties
and the slots of its field, and no two resolvers are of one field. -/
theorem isConfigured_of_completes {config : Config} (hv : config.validate = .ok ())
    {input : RunInput} {d : Document} (hd : Document.parse input.schema = .ok d) {s : PassState}
    (h : Chain.Completes config.factory ((builtin config).begin input d) s) :
    (∀ r ∈ s.context.resources.ofKind .resolver, ∃ type field, r.IsConfigured config type field)
      ∧ ((s.context.resources.ofKind .resolver).map fun r =>
          (r.get? "typeName", r.get? "fieldName")).Nodup := by
  have sound := (h.isSound rfl).all
  have resolved := h.edits.resolved (Context.resolved_of_empty rfl)
  have slots : s.context.slots = config.slots := h.edits.slots
  have configured : ∀ r ∈ s.context.resources.ofKind .resolver,
      ∃ type field, r.IsConfigured config type field := by
    intro r hr
    obtain ⟨hget, hkind⟩ := sound.mem_ofKind_iff.1 hr
    obtain ⟨type, field, ha, hres⟩ := resolved _ _ hget hkind
    have named := ha.isName (Document.isWellFormed_of_parse hd) h.edits.grownTo
    rw [slots] at hres
    exact ⟨type, field, hres.isConfigured hv (Schema.not_mem_of_isName named)⟩
  refine ⟨configured, List.Nodup.map_on ?_ (sound.ownIds.nodup_ids.of_map _ |>.filter _)⟩
  intro r hr q hq he
  obtain ⟨type, field, hconf⟩ := configured r hr
  obtain ⟨type', field', hconf'⟩ := configured q hq
  rw [hconf.typeName, hconf.fieldName, hconf'.typeName, hconf'.fieldName] at he
  obtain ⟨htype, hfield⟩ := Prod.mk.inj he
  cases htype
  cases hfield
  -- two resolvers of one field stand under one id
  have hget := (sound.mem_ofKind_iff.1 hr).1
  have hget' := (sound.mem_ofKind_iff.1 hq).1
  rw [hconf.id] at hget
  rw [hconf'.id, hget] at hget'
  exact Option.some.inj hget'

/-- A configuration with slots of a query, whose name has a dot. -/
def slottedConfig : Config where
  slots := .ofList [("Query.posts.byTitle", ["preAuth", "postAuth"].map fun slotName =>
    { resolverTypeName := "Query", resolverFieldName := "posts.byTitle", slotName })]

/-- A schema with an index that asks for the query. -/
def slottedText : String :=
  "type Post @model \x7b title: String @index(queryField: \"posts.byTitle\") \x7d"

def slottedPost : Document :=
  ⟨[{
    kind := .object, name := "Post", directives := [⟨"model", []⟩],
    fields := [{
      name := "title", type := .named "String",
      directives := [⟨"index", [("queryField", .string "posts.byTitle")]⟩] }] }]⟩

/-- Resolvers are those of their fields where one of them has slots. -/
theorem isConfigured_slottedPost :
    let c := (builtin slottedConfig).begin { schema := slottedText } slottedPost
    let s := Chain.lastState slottedConfig.factory c
    slottedConfig.validate = .ok () ∧ Document.parse slottedText = .ok slottedPost
      ∧ Chain.Completes slottedConfig.factory c s
      ∧ ∀ r ∈ s.context.resources.ofKind .resolver, ∃ type field,
        r.IsConfigured slottedConfig type field := by
  intro c s
  have valid : slottedConfig.validate = .ok () := by decide +kernel
  have parsed : Document.parse (RunInput.schema { schema := slottedText }) = .ok slottedPost := by
    decide +kernel
  have completes : Chain.Completes slottedConfig.factory c s :=
    (Chain.completes_of_endsWell (p := fun _ => true) (by decide +kernel)).1
  exact ⟨valid, parsed, completes,
    (isConfigured_of_completes valid parsed completes).1⟩

end Transform

end ApiCompiler
