import ApiCompiler.Proofs.Output.Registered
import Mathlib.Data.List.DropRight

/-!
# Outputs — the values that a store leaves

An entry one of whose outputs belongs to another name is refused before any output is set. One that
holds an output without a name is not: what stands before it is set, although the entry is refused
and the index keeps what it had. So an output that is listed under a name has the value that the
last entry accepted under it gives, up to what entries of that name that were cut short since then
have set.

* `outputs_run`: what a refused entry leaves of the outputs, and the value of each listed output.
-/

namespace ApiCompiler

theorem OutputEntry.keys_named {e : OutputEntry} {k : String}
    (h : k ∈ e.named.map (·.1)) : k ∈ e.keys := by
  obtain ⟨p, hp, rfl⟩ := List.mem_map.1 h
  exact List.mem_map_of_mem ((List.takeWhile_sublist _).subset hp)

namespace OutputStore

/-! ### What a refused entry leaves -/

theorem insertMany_eq_self_iff {d : Dict String} {pairs : List (String × String)} :
    d.insertMany pairs = d ↔ ∀ k v, Dict.lastIn? k pairs = some v → d.find? k = some v := by
  constructor
  · intro h k v hv
    rw [← h, Dict.find?_insertMany, hv, Option.some_or]
  · intro h
    refine Dict.ext_find? fun k => ?_
    rw [Dict.find?_insertMany]
    cases hv : Dict.lastIn? k pairs with
    | none => exact Option.none_or
    | some v => exact (h k v hv).symm

/-- A refused entry leaves the outputs alone where it is refused for an output of another name, and
else where they already have the values up to the output without a name. -/
theorem outputs_of_refuses_iff {s : OutputStore} {name : String} {e : OutputEntry}
    (h : s.Refuses name e) :
    (s.register name e).2.backend.outputs = s.backend.outputs ↔
      s.Takes name e ∨
        ∀ k v, Dict.lastIn? k e.named = some v → s.backend.outputs.find? k = some v := by
  by_cases ht : s.Takes name e
  · obtain ⟨f, hr⟩ := register_of_taken ht
    simp [hr, ht]
  · obtain ⟨f, hr⟩ := register_of_cut ht ((refuses_iff.1 h).resolve_left ht)
    rw [hr, or_iff_right ht]
    exact insertMany_eq_self_iff

/-! ### The values of listed outputs -/

theorem takes_iff_any {s : OutputStore} {name : String} {e : OutputEntry} :
    e.keys.any (fun k => (s.index.owner? name k).isSome) = true ↔ s.Takes name e := by
  rw [List.any_eq_true]
  refine exists_congr fun k => and_congr_right fun _ => ?_
  rw [← not_iff_not, Bool.not_eq_true, Option.isSome_eq_false_iff, Option.isNone_iff_eq_none,
    OutputIndex.owner?_eq_none_iff]
  simp only [not_exists, not_and]

instance (s : OutputStore) (name : String) (e : OutputEntry) : Decidable (s.Takes name e) :=
  decidable_of_iff _ takes_iff_any

/-- The entry of a call whose outputs are free. -/
def admittedBy (s : OutputStore) : Call → List (String × OutputEntry)
  | .add name e => if s.Takes name e then [] else [(name, e)]
  | .flush      => []

/-- The entries of a run whose outputs are free, in turn, with their names: those that are accepted
and those that are cut short. -/
def admitted (s : OutputStore) : List Call → List (String × OutputEntry)
  | []         => []
  | c :: calls => s.admittedBy c ++ (s.after c).admitted calls

/-- The entries of a name that were cut short since one of it was last accepted. -/
def cutSince (name : String) (entries : List (String × OutputEntry)) : List OutputEntry :=
  ((entries.filter (·.1 = name)).map (·.2)).rtakeWhile ("" ∈ ·.keys)

/-- What the entries of a name that were cut short since one of it was last accepted have set. -/
def leftBehind (name : String) (entries : List (String × OutputEntry)) : List (String × String) :=
  (cutSince name entries).flatMap OutputEntry.named

theorem leftBehind_of_ne {name m : String} (h : m ≠ name) (entries : List (String × OutputEntry))
    (e : OutputEntry) : leftBehind name (entries ++ [(m, e)]) = leftBehind name entries := by
  simp [leftBehind, cutSince, h]

theorem leftBehind_of_cut {e : OutputEntry} (h : "" ∈ e.keys) (name : String)
    (entries : List (String × OutputEntry)) :
    leftBehind name (entries ++ [(name, e)]) = leftBehind name entries ++ e.named := by
  simp [leftBehind, cutSince, h]

theorem leftBehind_of_free {e : OutputEntry} (h : "" ∉ e.keys) (name : String)
    (entries : List (String × OutputEntry)) :
    leftBehind name (entries ++ [(name, e)]) = [] := by
  simp [leftBehind, cutSince, h]

/-- Each output of the last accepted entry of a name has the value that the entry gives it, or one
that was left behind since then. -/
def Valued (accepted admitted : List (String × OutputEntry)) (s : OutputStore) : Prop :=
  ∀ name e, Dict.lastIn? name accepted = some e → ∀ k ∈ e.keys,
    s.backend.outputs.find? k =
      (Dict.lastIn? k (leftBehind name admitted)).or (Dict.lastIn? k e.payload)

theorem valued_nil (s : OutputStore) : Valued [] [] s :=
  fun _ _ h => nomatch h

variable {accepted admitted : List (String × OutputEntry)} {s : OutputStore}

/-- An entry whose outputs are free sets none that is listed under another name. -/
theorem lastIn?_eq_none_of_not_takes {name m : String} {e last : OutputEntry}
    (ht : ¬ s.Takes m e) (hne : name ≠ m) (hi : Indexes accepted s.index)
    (hlast : Dict.lastIn? name accepted = some last) {k : String} (hk : k ∈ last.keys)
    {pairs : List (String × String)} (hp : ∀ k ∈ pairs.map (·.1), k ∈ e.keys) :
    Dict.lastIn? k pairs = none := by
  refine Dict.lastIn?_eq_none_iff.2 fun hmem => ht ⟨k, hp k hmem, name, hne, last.indexed, ?_, hk⟩
  rw [hi.lastWins, hlast, Option.map_some]

theorem Valued.cut (h : Valued accepted admitted s) (hi : Indexes accepted s.index) {m : String}
    {e : OutputEntry} (ht : ¬ s.Takes m e) (hempty : "" ∈ e.keys) :
    Valued accepted (admitted ++ [(m, e)]) (s.register m e).2 := by
  obtain ⟨f, hr⟩ := register_of_cut ht hempty
  intro name last hlast k hk
  rw [hr, Dict.find?_insertMany, h name last hlast k hk]
  by_cases hne : name = m
  · subst hne
    rw [leftBehind_of_cut hempty, Dict.lastIn?_append, Option.or_assoc]
  · rw [lastIn?_eq_none_of_not_takes ht hne hi hlast hk fun _ => OutputEntry.keys_named,
      leftBehind_of_ne (Ne.symm hne), Option.none_or]

theorem Valued.accept (h : Valued accepted admitted s) (hi : Indexes accepted s.index) {m : String}
    {e : OutputEntry} (ht : ¬ s.Takes m e) (hempty : "" ∉ e.keys) :
    Valued (accepted ++ [(m, e)]) (admitted ++ [(m, e)]) (s.register m e).2 := by
  intro name last hlast k hk
  rw [register_of_free ht hempty, Dict.find?_insertMany]
  rw [Dict.lastIn?_append, Dict.lastIn?_singleton] at hlast
  by_cases hne : name = m
  · subst hne
    rw [if_pos rfl, Option.some_or] at hlast
    cases hlast
    obtain ⟨v, hv⟩ := Dict.exists_lastIn? hk
    rw [leftBehind_of_free hempty, hv, Dict.lastIn?_nil, Option.some_or, Option.none_or]
  · rw [if_neg (Ne.symm hne), Option.none_or] at hlast
    rw [lastIn?_eq_none_of_not_takes ht hne hi hlast hk fun _ hmem => hmem,
      leftBehind_of_ne (Ne.symm hne), Option.none_or]
    exact h name last hlast k hk

/-- A call keeps what is known of the values, where the index is the one of the accepted entries. -/
theorem Valued.after (h : Valued accepted admitted s) (hi : Indexes accepted s.index) (c : Call) :
    Valued (accepted ++ s.acceptedBy c) (admitted ++ s.admittedBy c) (s.after c) := by
  cases c with
  | flush =>
    rw [acceptedBy, admittedBy, List.append_nil, List.append_nil]
    exact h
  | add m e =>
    by_cases ht : s.Takes m e
    · obtain ⟨f, hr⟩ := register_of_taken ht
      rw [acceptedBy_of_refuses (refuses_iff.2 (.inl ht)), admittedBy, if_pos ht, List.append_nil,
        List.append_nil, OutputStore.after, hr]
      exact h
    · rw [admittedBy, if_neg ht]
      by_cases hempty : "" ∈ e.keys
      · rw [acceptedBy_of_refuses (refuses_iff.2 (.inr hempty)), List.append_nil]
        exact h.cut hi ht hempty
      · rw [acceptedBy_of_free ht hempty]
        exact h.accept hi ht hempty

theorem Valued.run (h : Valued accepted admitted s) (hi : Indexes accepted s.index)
    (calls : List Call) :
    Valued (accepted ++ s.accepted calls) (admitted ++ s.admitted calls) (s.run calls) := by
  induction calls generalizing s accepted admitted with
  | nil => simpa [OutputStore.accepted, OutputStore.admitted] using h
  | cons c calls ih =>
    simpa [OutputStore.accepted, OutputStore.admitted] using ih (h.after hi c) (hi.after c)

/-- **What refused entries leave of the outputs.** After any calls of a fresh store, an entry that
is refused leaves the index as it is; it leaves the outputs exactly where it is refused for an
output of another name, or where those before its first output without a name have their values
already. An output that is listed under a name has the value that the last entry accepted under it
gives, unless an entry of that name that was cut short since then gives it another one. -/
theorem outputs_run (b : Backend) (calls : List Call) :
    let s := run ⟨b, ∅⟩ calls
    (∀ name e, s.Refuses name e →
        (s.register name e).2.index = s.index
          ∧ ((s.register name e).2.backend.outputs = s.backend.outputs ↔
              s.Takes name e ∨
                ∀ k v, Dict.lastIn? k e.named = some v → s.backend.outputs.find? k = some v))
      ∧ ∀ name entry, s.index.find? name = some entry → ∃ e,
          Dict.lastIn? name (OutputStore.accepted ⟨b, ∅⟩ calls) = some e ∧ entry = e.indexed
            ∧ ∀ k ∈ entry.outputs, s.backend.outputs.find? k =
                (Dict.lastIn? k (leftBehind name (OutputStore.admitted ⟨b, ∅⟩ calls))).or
                  (Dict.lastIn? k e.payload) := by
  intro s
  refine ⟨fun name e h => ⟨index_of_refuses h, outputs_of_refuses_iff h⟩,
    fun name entry hfind => ?_⟩
  have hi := Indexes.run (s := ⟨b, ∅⟩) indexes_nil calls
  have hv := (valued_nil ⟨b, ∅⟩).run indexes_nil calls
  obtain ⟨e, hlast, rfl⟩ := Option.map_eq_some_iff.1 ((hi.lastWins name).symm.trans hfind)
  exact ⟨e, hlast, rfl, hv name e hlast⟩

/-- An entry whose second output has no name, so that only its first one is set. -/
def cutEntry : OutputEntry := ⟨"2", [("region", "us"), ("", "x")]⟩

/-- The registration of an entry, and one under the same name that is cut short. -/
def cutCalls : List Call := [.add "api" ⟨"1", [("region", "eu")]⟩, .add "api" cutEntry]

theorem outputs_run_cutCalls :
    (run ⟨{}, ∅⟩ cutCalls).Refuses "api" cutEntry
      ∧ ((run ⟨{}, ∅⟩ cutCalls).register "api" cutEntry).2.index = (run ⟨{}, ∅⟩ cutCalls).index
      ∧ (run ⟨{}, ∅⟩ cutCalls).index.find? "api" = some ⟨"1", ["region"]⟩
      ∧ (run ⟨{}, ∅⟩ cutCalls).backend.outputs.find? "region" = some "us" := by
  have hr : (run ⟨{}, ∅⟩ cutCalls).Refuses "api" cutEntry := ⟨_, rfl⟩
  have hfind : (run ⟨{}, ∅⟩ cutCalls).index.find? "api" = some ⟨"1", ["region"]⟩ := by
    decide +kernel
  obtain ⟨hrefused, hvalues⟩ := outputs_run {} cutCalls
  obtain ⟨e, hlast, -, hv⟩ := hvalues "api" _ hfind
  refine ⟨hr, (hrefused "api" cutEntry hr).1, hfind, ?_⟩
  have hleft : Dict.lastIn? "region" (leftBehind "api" (OutputStore.admitted ⟨{}, ∅⟩ cutCalls)) =
      some "us" := by
    decide +kernel
  rw [hv "region" List.mem_cons_self, hleft, Option.some_or]

/-- A refused entry has set an output, so that the one of an entry that is listed has not the value
with which it was registered. -/
theorem register_cutEntry_sets_region :
    let s := run ⟨{}, ∅⟩ [.add "api" ⟨"1", [("region", "eu")]⟩]
    s.Refuses "api" cutEntry
      ∧ s.backend.outputs.find? "region" = some "eu"
      ∧ (s.register "api" cutEntry).2.backend.outputs.find? "region" = some "us"
      ∧ (s.register "api" cutEntry).2.index.find? "api" = some ⟨"1", ["region"]⟩ := by
  refine ⟨⟨_, rfl⟩, ?_, ?_, ?_⟩ <;> decide +kernel

end OutputStore

end ApiCompiler
