import ApiCompiler.Proofs.Pass.Builtin

/-!
# Chains — what a run leaves of the schema

* `Edit.namesOnce`, `Edits.namesOnce`: no change declares a name twice.
* `Chain.grownTo_of_completes`: the schema of a run that ends well is the one that it started from,
  with all its definitions and fields where they were and as they were, and only further ones behind
  them.
-/

namespace ApiCompiler

namespace Context

variable {known : String → Prop} {ready : Document → String → Prop} {c d : Context}

/-- No change declares a type or a field a second time. -/
theorem Edit.namesOnce (h : Edit known ready c d) (hc : c.schema.NamesOnce) :
    d.schema.NamesOnce := by
  cases h with
  | log | supply | resolver | decorate | rename | key | index => exact hc
  | @object name => exact hc.ensureObject name
  | @field type field _ =>
    exact hc.modifyType (·.name_ensureField field) (·.extends?_ensureField field)
      (fun _ ht => TypeDefinition.nodup_ensureField ht field) type
  | @mark type _ =>
    have same : ∀ t, (ModelPass.markModel t).name = t.name
        ∧ (ModelPass.markModel t).extends? = t.extends?
        ∧ (ModelPass.markModel t).fields = t.fields := fun t => by
      unfold ModelPass.markModel
      split <;> exact ⟨rfl, rfl, rfl⟩
    exact hc.modifyType (fun t => (same t).1) (fun t => (same t).2.1)
      (fun t ht => (same t).2.2 ▸ ht) type
  | @retype type field => exact hc.retype type field _
  | store _ h => rcases ModelPass.addStore_eq h with rfl | ⟨_, _, rfl⟩ <;> exact hc

theorem Edits.namesOnce (h : Edits known ready c d) (hc : c.schema.NamesOnce) :
    d.schema.NamesOnce := by
  induction h with
  | refl => exact hc
  | tail _ h ih => exact h.namesOnce ih

end Context

namespace Chain

/-- **A run extends the schema conservatively**: wherever a fresh run of the passes that every chain
starts with ends well, the schema has grown, whatever the configuration; and where no type has two
base definitions and no definition two fields of one name, that stays so. -/
theorem grownTo_of_completes {args : FactoryArgs} {c : Context} {s : PassState}
    (h : Completes args c s) : c.schema.GrownTo s.context.schema
      ∧ (c.schema.NamesOnce → s.context.schema.NamesOnce) :=
  ⟨h.edits.grownTo, h.edits.namesOnce⟩

theorem namesOnce_taggedPosts : taggedPosts.schema.NamesOnce := ⟨by decide, by decide⟩

/-- The schema grows where models are linked through a type that it declares. -/
theorem grownTo_taggedPosts : Completes {} taggedPosts (lastState {} taggedPosts)
    ∧ taggedPosts.schema.GrownTo (lastState {} taggedPosts).context.schema
    ∧ (lastState {} taggedPosts).context.schema.NamesOnce :=
  ⟨completes_taggedPosts, (grownTo_of_completes completes_taggedPosts).1,
    (grownTo_of_completes completes_taggedPosts).2 namesOnce_taggedPosts⟩

end Chain

end ApiCompiler
