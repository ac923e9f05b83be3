import ApiCompiler.Output.Index
import ApiCompiler.Proofs.Dict
import ApiCompiler.Proofs.Result
import Mathlib.Data.List.TakeWhile

/-!
# Outputs — what a store indexes

A store is asked, in any order, to register entries and to write its index. What the index holds is
read off the entries that were accepted: of each name the last one. Those that were refused leave no
mark on it, wherever they stopped.

* `OutputIndex.WrittenAs`: the record of an index.
* `register_of_taken`, `register_of_cut`, `register_of_free`: what becomes of an entry.
* `indexed_run`: the index after any calls, and what the next call does to it.
-/

namespace ApiCompiler

/-- What the index holds of the entry. -/
def OutputEntry.indexed (e : OutputEntry) : IndexedEntry := ⟨e.version, e.payload.map (·.1)⟩

/-- The outputs that come before the first one without a name. -/
def OutputEntry.named (e : OutputEntry) : List (String × String) := e.payload.takeWhile (·.1 ≠ "")

theorem OutputEntry.named_of_notMem {e : OutputEntry} (h : "" ∉ e.keys) : e.named = e.payload := by
  refine List.takeWhile_eq_self_iff.2 fun p hp => decide_eq_true fun he => h ?_
  exact he ▸ List.mem_map_of_mem hp

/-- Whether an output is listed under a name. -/
def OutputIndex.Lists (i : OutputIndex) (name key : String) : Prop :=
  ∃ entry, i.find? name = some entry ∧ key ∈ entry.outputs

theorem OutputIndex.lists_insert {i : OutputIndex} {name m key : String} {entry : IndexedEntry} :
    OutputIndex.Lists (i.insert name entry) m key ↔
      m = name ∧ key ∈ entry.outputs ∨ m ≠ name ∧ i.Lists m key := by
  rw [OutputIndex.Lists, OutputIndex.Lists, Dict.find?_insert]
  by_cases h : m = name
  · simp [h]
  · simp [h]

theorem OutputIndex.owner?_eq_none_iff {i : OutputIndex} {name key : String} :
    i.owner? name key = none ↔ ∀ m, m ≠ name → ¬ i.Lists m key := by
  rw [OutputIndex.owner?, Option.map_eq_none_iff, List.find?_eq_none]
  constructor
  · rintro h m hm ⟨entry, hfind, hkey⟩
    refine h (m, entry) (Dict.mem_toList_iff.2 hfind) ?_
    rw [Bool.and_eq_true, bne_iff_ne, List.contains_iff_mem]
    exact ⟨hm, hkey⟩
  · rintro h ⟨m, entry⟩ hmem hp
    rw [Bool.and_eq_true, bne_iff_ne, List.contains_iff_mem] at hp
    exact h m hp.1 ⟨entry, Dict.mem_toList_iff.1 hmem, hp.2⟩

/-- The record of an index: an object that has for each name, by rising name, the outputs of its
entry and the version. -/
def OutputIndex.WrittenAs (i : OutputIndex) (record : Json) : Prop :=
  ∃ fields, record = .obj fields ∧ (fields.map (·.1)).Pairwise (· < ·)
    ∧ ∀ name entry, (name, entry) ∈ fields ↔
      ∃ version outputs, i.find? name = some ⟨version, outputs⟩
        ∧ entry = .obj [("stackOutputs", .arr (outputs.map .str)), ("version", .str version)]

theorem OutputIndex.writtenAs_encode (i : OutputIndex) : i.WrittenAs i.encode := by
  refine ⟨_, rfl, Dict.sorted_keys _, fun name entry => ?_⟩
  rw [Dict.mem_toList_iff, Dict.find?_mapValues, Option.map_eq_some_iff]
  constructor
  · rintro ⟨⟨version, outputs⟩, hfind, rfl⟩
    exact ⟨version, outputs, hfind, rfl⟩
  · rintro ⟨version, outputs, hfind, rfl⟩
    exact ⟨⟨version, outputs⟩, hfind, rfl⟩

namespace OutputStore

/-! ### What becomes of an entry -/

/-- Some output of the entry belongs to an entry of another name. -/
def Takes (s : OutputStore) (name : String) (e : OutputEntry) : Prop :=
  ∃ k ∈ e.keys, ∃ m, m ≠ name ∧ s.index.Lists m k

theorem checkKey_eq_ok_iff {i : OutputIndex} {name key : String} :
    checkKey i name key = .ok () ↔ ∀ m, m ≠ name → ¬ i.Lists m key := by
  rw [checkKey, ← OutputIndex.owner?_eq_none_iff]
  cases i.owner? name key <;> simp

theorem forM_checkKey_eq_ok_iff {i : OutputIndex} {name : String} {keys : List String} :
    keys.forM (checkKey i name) = .ok () ↔ ∀ k ∈ keys, ∀ m, m ≠ name → ¬ i.Lists m k :=
  Except.forM_eq_ok_iff.trans (forall₂_congr fun _ _ => checkKey_eq_ok_iff)

/-- Outputs are set up to the first one without a name. -/
theorem setOutputs_eq (outputs : List (String × String)) (b : Backend) :
    setOutputs outputs b =
      (if "" ∈ outputs.map (·.1) then .error (.backend "output name must not be empty") else .ok (),
        { b with outputs := b.outputs.insertMany (outputs.takeWhile (·.1 ≠ "")) }) := by
  induction outputs generalizing b with
  | nil => rfl
  | cons p outputs ih =>
    obtain ⟨k, v⟩ := p
    rw [setOutputs, Backend.addOutput]
    by_cases hk : k = ""
    · subst hk
      simp [Dict.insertMany]
    · have hmem : "" ∈ ((k, v) :: outputs).map (·.1) ↔ "" ∈ outputs.map (·.1) := by
        rw [List.map_cons, List.mem_cons, or_iff_right (Ne.symm hk)]
      rw [if_neg hk, if_congr hmem rfl rfl, List.takeWhile_cons_of_pos (by simpa using hk)]
      exact ih _

theorem register_of_taken {s : OutputStore} {name : String} {e : OutputEntry}
    (h : s.Takes name e) : ∃ f, s.register name e = (.error f, s) := by
  rw [register]
  cases hcheck : e.keys.forM (checkKey s.index name) with
  | error f => exact ⟨f, rfl⟩
  | ok u =>
    obtain ⟨k, hk, m, hm, hl⟩ := h
    exact absurd hl (forM_checkKey_eq_ok_iff.1 hcheck k hk m hm)

theorem forM_checkKey_of_not_takes {s : OutputStore} {name : String} {e : OutputEntry}
    (h : ¬ s.Takes name e) : e.keys.forM (checkKey s.index name) = .ok () :=
  forM_checkKey_eq_ok_iff.2 fun k hk m hm hl => h ⟨k, hk, m, hm, hl⟩

/-- An entry whose outputs are free is cut short at the first one without a name. -/
theorem register_of_cut {s : OutputStore} {name : String} {e : OutputEntry}
    (h : ¬ s.Takes name e) (hempty : "" ∈ e.keys) :
    ∃ f, s.register name e =
      (.error f, { s with backend :=
        { s.backend with outputs := s.backend.outputs.insertMany e.named } }) := by
  rw [register, forM_checkKey_of_not_takes h, setOutputs_eq, ← OutputEntry.keys, if_pos hempty]
  exact ⟨_, rfl⟩

/-- An entry whose outputs are free and have names is registered. -/
theorem register_of_free {s : OutputStore} {name : String} {e : OutputEntry}
    (h : ¬ s.Takes name e) (hempty : "" ∉ e.keys) :
    s.register name e =
      (.ok (), ⟨{ s.backend with outputs := s.backend.outputs.insertMany e.payload },
        s.index.insert name e.indexed⟩) := by
  rw [register, forM_checkKey_of_not_takes h, setOutputs_eq, ← OutputEntry.keys, if_neg hempty,
    ← OutputEntry.named, OutputEntry.named_of_notMem hempty]
  rfl

/-- The store does not accept the entry. -/
def Refuses (s : OutputStore) (name : String) (e : OutputEntry) : Prop :=
  ∃ f, (s.register name e).1 = .error f

theorem refuses_iff {s : OutputStore} {name : String} {e : OutputEntry} :
    s.Refuses name e ↔ s.Takes name e ∨ "" ∈ e.keys := by
  rw [Refuses]
  by_cases ht : s.Takes name e
  · obtain ⟨f, h⟩ := register_of_taken ht
    simp [h, ht]
  · by_cases hempty : "" ∈ e.keys
    · obtain ⟨f, h⟩ := register_of_cut ht hempty
      simp [h, hempty]
    · simp [register_of_free ht hempty, ht, hempty]

theorem index_of_refuses {s : OutputStore} {name : String} {e : OutputEntry}
    (h : s.Refuses name e) : (s.register name e).2.index = s.index := by
  by_cases ht : s.Takes name e
  · obtain ⟨f, hr⟩ := register_of_taken ht
    rw [hr]
  · obtain ⟨f, hr⟩ := register_of_cut ht ((refuses_iff.1 h).resolve_left ht)
    rw [hr]

/-! ### Runs -/

/-- What is asked of a store. -/
inductive Call where
  | add (name : String) (e : OutputEntry)
  | flush
deriving DecidableEq, Repr

/-- The store after a call. -/
def after (s : OutputStore) : Call → OutputStore
  | .add name e => (s.register name e).2
  | .flush      => s.flush

/-- The store after calls, one after the other. -/
def run (s : OutputStore) (calls : List Call) : OutputStore := calls.foldl after s

/-- The entry of a call that the store accepts. -/
def acceptedBy (s : OutputStore) : Call → List (String × OutputEntry)
  | .add name e => match (s.register name e).1 with
    | .ok _    => [(name, e)]
    | .error _ => []
  | .flush      => []

/-- The entries that are accepted in a run, in turn, with their names. -/
def accepted (s : OutputStore) : List Call → List (String × OutputEntry)
  | []         => []
  | c :: calls => s.acceptedBy c ++ (s.after c).accepted calls

@[simp] theorem run_nil (s : OutputStore) : s.run [] = s := rfl

@[simp] theorem run_cons (s : OutputStore) (c : Call) (calls : List Call) :
    s.run (c :: calls) = (s.after c).run calls := rfl

theorem acceptedBy_of_refuses {s : OutputStore} {name : String} {e : OutputEntry}
    (h : s.Refuses name e) : s.acceptedBy (.add name e) = [] := by
  obtain ⟨f, hf⟩ := h
  simp [acceptedBy, hf]

theorem acceptedBy_of_free {s : OutputStore} {name : String} {e : OutputEntry}
    (h : ¬ s.Takes name e) (hempty : "" ∉ e.keys) : s.acceptedBy (.add name e) = [(name, e)] := by
  simp [acceptedBy, register_of_free h hempty]

/-! ### The index -/

/-- An index holds the last entry of each name, and no output under two of them. -/
structure Indexes (entries : List (String × OutputEntry)) (i : OutputIndex) : Prop where
  lastWins : ∀ n, i.find? n = (Dict.lastIn? n entries).map OutputEntry.indexed
  disjoint : ∀ k n m, i.Lists n k → i.Lists m k → n = m

theorem indexes_nil : Indexes [] ∅ where
  lastWins _ := rfl
  disjoint := by
    rintro k n m ⟨entry, hfind, -⟩
    cases hfind

theorem Indexes.insert {entries : List (String × OutputEntry)} {s : OutputStore} {name : String}
    {e : OutputEntry} (h : Indexes entries s.index) (ht : ¬ s.Takes name e) :
    Indexes (entries ++ [(name, e)]) (s.index.insert name e.indexed) where
  lastWins n := by
    rw [Dict.find?_insert, Dict.lastIn?_append, Dict.lastIn?_singleton, h.lastWins]
    by_cases hn : n = name
    · simp [hn]
    · simp [hn, Ne.symm hn]
  disjoint k n m hn hm := by
    rw [OutputIndex.lists_insert] at hn hm
    rcases hn with ⟨rfl, hkey⟩ | ⟨hne, hn⟩
    · rcases hm with ⟨rfl, -⟩ | ⟨hne, hm⟩
      · rfl
      · exact absurd ⟨k, hkey, m, hne, hm⟩ ht
    · rcases hm with ⟨rfl, hkey⟩ | ⟨-, hm⟩
      · exact absurd ⟨k, hkey, n, hne, hn⟩ ht
      · exact h.disjoint k n m hn hm

/-- A call adds to the entries of an index those that it has accepted. -/
theorem Indexes.after {entries : List (String × OutputEntry)} {s : OutputStore}
    (h : Indexes entries s.index) (c : Call) :
    Indexes (entries ++ s.acceptedBy c) (s.after c).index := by
  cases c with
  | flush => simpa [acceptedBy, OutputStore.after, flush] using h
  | add name e =>
    by_cases hr : s.Refuses name e
    · rw [acceptedBy_of_refuses hr, List.append_nil, OutputStore.after, index_of_refuses hr]
      exact h
    · obtain ⟨ht, hempty⟩ := not_or.1 ((not_congr refuses_iff).1 hr)
      rw [acceptedBy_of_free ht hempty, OutputStore.after, register_of_free ht hempty]
      exact h.insert ht

theorem Indexes.run {entries : List (String × OutputEntry)} {s : OutputStore}
    (h : Indexes entries s.index) (calls : List Call) :
    Indexes (entries ++ s.accepted calls) (s.run calls).index := by
  induction calls generalizing s entries with
  | nil => simpa [accepted] using h
  | cons c calls ih => simpa [accepted] using ih (h.after c)

/-! ### The record of the index -/

/-- What writing the index does: one more record is written, in place of the last one. -/
structure Writes (s t : OutputStore) : Prop where
  record : ∃ record, s.index.WrittenAs record
    ∧ t.backend.metadata = s.backend.metadata.insert "AWS::Amplify::Output" record
  count : t.backend.metadataWrites = s.backend.metadataWrites + 1
  outputs : t.backend.outputs = s.backend.outputs
  root : t.backend.root = s.backend.root
  nested : t.backend.nested = s.backend.nested
  index : t.index = s.index

theorem writes_flush (s : OutputStore) : s.Writes s.flush where
  record := ⟨_, s.index.writtenAs_encode, rfl⟩
  count := rfl
  outputs := rfl
  root := rfl
  nested := rfl
  index := rfl

theorem metadata_register (s : OutputStore) (name : String) (e : OutputEntry) :
    (s.register name e).2.backend.metadata = s.backend.metadata := by
  by_cases ht : s.Takes name e
  · obtain ⟨f, h⟩ := register_of_taken ht
    rw [h]
  · by_cases hempty : "" ∈ e.keys
    · obtain ⟨f, h⟩ := register_of_cut ht hempty
      rw [h]
    · rw [register_of_free ht hempty]

/-- The record holds the index as it is. -/
def UpToDate (s : OutputStore) : Prop := s.backend.metadata.find? indexKey = some s.index.encode

theorem upToDate_flush (s : OutputStore) : s.flush.UpToDate := by
  rw [UpToDate, flush, Backend.addMetadata, Dict.find?_insert, if_pos rfl]

theorem UpToDate.metadata_flush {s : OutputStore} (h : s.UpToDate) :
    s.flush.backend.metadata = s.backend.metadata := by
  rw [flush, Backend.addMetadata, Dict.insert_eq_self h]

/-- A call that accepts no entry leaves a record that is up to date as it is. -/
theorem UpToDate.after {s : OutputStore} (h : s.UpToDate) {c : Call} (hc : s.acceptedBy c = []) :
    (s.after c).UpToDate ∧ (s.after c).backend.metadata = s.backend.metadata := by
  cases c with
  | flush => exact ⟨upToDate_flush s, h.metadata_flush⟩
  | add name e =>
    have hr : s.Refuses name e := by
      by_contra hr
      obtain ⟨ht, hempty⟩ := not_or.1 ((not_congr refuses_iff).1 hr)
      rw [acceptedBy_of_free ht hempty] at hc
      cases hc
    have hm := metadata_register s name e
    refine ⟨?_, hm⟩
    rw [UpToDate, OutputStore.after, hm, index_of_refuses hr]
    exact h

theorem UpToDate.run {s : OutputStore} (h : s.UpToDate) {calls : List Call}
    (hc : s.accepted calls = []) :
    (s.run calls).UpToDate ∧ (s.run calls).backend.metadata = s.backend.metadata := by
  induction calls generalizing s with
  | nil => exact ⟨h, rfl⟩
  | cons c calls ih =>
    obtain ⟨hhead, htail⟩ := List.append_eq_nil_iff.1 hc
    obtain ⟨hup, hm⟩ := h.after hhead
    obtain ⟨hup', hm'⟩ := ih hup htail
    exact ⟨hup', hm'.trans hm⟩

/-- **The index is the last accepted entry of each name.** However entries are registered and the
index is written on a fresh store, it maps each name to the version and the outputs of the last
entry that was accepted under it and has no other names; no output is listed under two names; the
next entry is refused exactly where one of its outputs has no name or is listed under another name,
and then leaves the index as it is; and the next writing of the index puts it in place of the last
record, which stays the same until an entry is accepted. -/
theorem indexed_run (b : Backend) (calls : List Call) :
    let s := run ⟨b, ∅⟩ calls
    Indexes (accepted ⟨b, ∅⟩ calls) s.index
      ∧ (∀ name e, s.Refuses name e ↔
          ∃ p ∈ e.payload, (∃ m, m ≠ name ∧ s.index.Lists m p.1) ∨ p.1 = "")
      ∧ (∀ name e, s.Refuses name e → (s.register name e).2.index = s.index)
      ∧ s.Writes s.flush
      ∧ ∀ later, s.flush.accepted later = [] →
          (s.flush.run later).flush.backend.metadata = s.flush.backend.metadata := by
  intro s
  refine ⟨Indexes.run (s := ⟨b, ∅⟩) indexes_nil calls, fun name e => ?_,
    fun name e => index_of_refuses, writes_flush s, fun later hlater => ?_⟩
  · rw [refuses_iff, Takes, OutputEntry.keys]
    constructor
    · rintro (⟨k, hk, ht⟩ | hempty)
      · obtain ⟨p, hp, rfl⟩ := List.mem_map.1 hk
        exact ⟨p, hp, .inl ht⟩
      · obtain ⟨p, hp, hname⟩ := List.mem_map.1 hempty
        exact ⟨p, hp, .inr hname⟩
    · rintro ⟨p, hp, ht | hname⟩
      · exact .inl ⟨p.1, List.mem_map_of_mem hp, ht⟩
      · exact .inr (hname ▸ List.mem_map_of_mem hp)
  · obtain ⟨hup, hm⟩ := (upToDate_flush s).run hlater
    rw [hup.metadata_flush, hm]

/-- An output that moves from one name to another: the first one no longer has it. -/
def movingCalls : List Call :=
  [.add "auth" ⟨"1", [("region", "eu")]⟩, .add "auth" ⟨"2", [("pool", "p")]⟩,
    .add "api" ⟨"1", [("region", "us"), ("endpoint", "e")]⟩]

/-- The first name does not get the output back, and each name has what it holds in the record. -/
theorem indexed_run_movingCalls :
    let s := run ⟨{}, ∅⟩ movingCalls
    s.index.find? "auth" = some ⟨"2", ["pool"]⟩
      ∧ s.index.find? "api" = some ⟨"1", ["region", "endpoint"]⟩
      ∧ s.Refuses "auth" ⟨"3", [("region", "eu")]⟩
      ∧ s.Writes s.flush
      ∧ s.flush.backend.metadata.find? "AWS::Amplify::Output" = some (.obj
          [("api", .obj [("stackOutputs", .arr [.str "region", .str "endpoint"]),
            ("version", .str "1")]),
          ("auth", .obj [("stackOutputs", .arr [.str "pool"]), ("version", .str "2")])]) := by
  intro s
  obtain ⟨hindex, hrefuses, -, hwrites, -⟩ := indexed_run {} movingCalls
  have hapi : s.index.find? "api" = some ⟨"1", ["region", "endpoint"]⟩ := by
    rw [hindex.lastWins]
    decide +kernel
  refine ⟨by rw [hindex.lastWins]; decide +kernel, hapi, ?_, hwrites, by decide +kernel⟩
  refine (hrefuses "auth" ⟨"3", [("region", "eu")]⟩).2 ⟨_, List.mem_cons_self, .inl ?_⟩
  exact ⟨"api", by decide, _, hapi, List.mem_cons_self⟩

end OutputStore

end ApiCompiler
