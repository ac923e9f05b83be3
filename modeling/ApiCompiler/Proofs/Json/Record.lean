import ApiCompiler.Access.Rule
import ApiCompiler.Proofs.Json.Ordered
import ApiCompiler.Proofs.Result

/-!
# JSON — what is written is read back

* `Restores`: what one function writes, a decoder reads back, wherever it is held. Lists,
  dictionaries and names of variants do so where their parts do.
* `Record.Reads`: the value that a record is in the fields of an object, field by field.
* `decode_of_reads`: the decoder of the record ends with that value.
* `Local.decode_congr`: the decoder of a record does not see the other keys of an object.
* `build_part_eq_ok`, `build_map_eq_ok`, `build_seq_eq_ok`: what the fields were, where it ended
  with a value.
-/

namespace ApiCompiler.Json

variable {α β γ : Type}

/-- What `encode` writes, `decode` reads back, wherever it is held. -/
def Restores (encode : α → Json) (decode : Decoder α) : Prop :=
  ∀ source a, decode source (encode a) = .ok a

namespace Restores

variable {encode : α → Json} {decode : Decoder α}

theorem string : Restores str Decoder.string := fun _ _ => rfl

theorem boolean : Restores bool Decoder.boolean := fun _ _ => rfl

theorem word32 : Restores (fun n : UInt32 => int n.toNat) Decoder.word32 := by
  intro source n
  have hn : n.toNat < 4294967296 := n.toNat_lt
  have hbounds : (0 : Int) ≤ n.toNat ∧ (n.toNat : Int) < 4294967296 := by omega
  rw [Decoder.word32, if_pos hbounds, Int.toNat_natCast, UInt32.ofNat_toNat]

theorem list (h : Restores encode decode) :
    Restores (fun as => arr (as.map encode)) (Decoder.list decode) := by
  intro source as
  have hitems : (as.map encode).mapM (decode source) = .ok (as.map id) :=
    Except.mapM_map fun a _ => h source a
  rwa [List.map_id] at hitems

theorem strings : Restores ofStrings (Decoder.list Decoder.string) := string.list

/-- The name of a variant is read back where variants have different names. -/
theorem variant {name : α → String} {variants : List α} (hn : (variants.map name).Nodup)
    (hall : ∀ a, a ∈ variants) :
    Restores (fun a => str (name a)) (Decoder.variant (variants.map fun a => (name a, a))) := by
  intro source a
  have hkeys : ((variants.map fun a => (name a, a)).map (·.1)).Nodup := by rwa [List.map_map]
  rw [Decoder.variant, Decoder.variantNamed,
    Dict.findList?_of_nodup hkeys (List.mem_map.2 ⟨a, hall a, rfl⟩)]

end Restores

namespace Decoder

/-- An object with one kind of value is read value by value. -/
theorem dict_mapValues {source : Source} {encode : α → Json} {decode : Decoder β} {f : α → β}
    (h : ∀ a, decode source (encode a) = .ok (f a)) (d : Dict α) :
    Decoder.dict decode source (ofDict (d.mapValues fun _ => encode))
      = .ok (d.mapValues fun _ => f) := by
  have hpairs : ((d.toList.map fun p => (p.1, encode p.2)).mapM fun q => do
      return (q.1, ← decode source q.2)) = .ok (d.toList.map fun p => (p.1, f p.2)) :=
    Except.mapM_map fun p _ => by rw [h p.2]; rfl
  change ((d.toList.map fun p => (p.1, encode p.2)).mapM fun q => do
      return (q.1, ← decode source q.2)) >>= (fun pairs => .ok (Dict.ofList pairs)) = _
  rw [hpairs]
  exact congrArg Except.ok (Dict.ofList_toList (d.mapValues fun _ => f))

theorem nullable_of_ne_null {source : Source} {decode : Decoder α} {j : Json} {a : α}
    (hj : j ≠ null) (h : decode source j = .ok a) : decode.nullable source j = .ok (some a) := by
  unfold nullable
  split
  · exact absurd rfl hj
  · rw [h]
    rfl

theorem string_eq_ok {source : Source} {j : Json} {s : String}
    (h : Decoder.string source j = .ok s) : j = str s := by
  unfold Decoder.string at h
  split at h <;> cases h
  rfl

theorem mem_of_variantNamed {variants : List (String × α)} {name : String} {a : α}
    (h : variantNamed variants name = .ok a) : (name, a) ∈ variants := by
  unfold variantNamed at h
  split at h <;> cases h
  exact Dict.mem_of_findList? ‹_›

end Decoder

theorem Restores.dict {encode : α → Json} {decode : Decoder α} (h : Restores encode decode) :
    Restores (fun d : Dict α => ofDict (d.mapValues fun _ => encode)) (Decoder.dict decode) :=
  fun source d => (Decoder.dict_mapValues (h source) d).trans (congrArg Except.ok d.mapValues_id)

/-- A value that may be missing, which is null where it is. -/
theorem Restores.nullable {encode : α → Json} {decode : Decoder α} (h : Restores encode decode)
    (hnull : ∀ a, encode a ≠ null) :
    Restores (fun o => (o.map encode).getD null) decode.nullable := by
  intro source o
  cases o with
  | none => rfl
  | some a => exact Decoder.nullable_of_ne_null (hnull a) (h source a)

/-! ### Fields that may be left out -/

theorem findList?_fieldOf? (k l : String) (j : Option Json) :
    Dict.findList? k (fieldOf? l j) = if k = l then j else none := by
  cases j with
  | none => exact (ite_self none).symm
  | some j => rfl

theorem findList?_fieldOfStrings (k l : String) (items : List String) :
    Dict.findList? k (fieldOfStrings l items)
      = if k = l then (if items.isEmpty then none else some (ofStrings items)) else none := by
  rw [fieldOfStrings]
  split
  · exact (ite_self none).symm
  · rfl

theorem keys_fieldOf? (l : String) (j : Option Json) :
    ((fieldOf? l j).map (·.1)).Sublist [l] := by
  cases j with
  | none => exact List.nil_sublist _
  | some j => exact .refl _

theorem keys_fieldOfStrings (l : String) (items : List String) :
    ((fieldOfStrings l items).map (·.1)).Sublist [l] := by
  rw [fieldOfStrings]
  split
  · exact List.nil_sublist _
  · exact .refl _

namespace Record

/-! ### Records -/

/-- The parts that the fields of an object give. -/
def partsOf (source : Source) (fields : List (String × Json)) : Parts :=
  ⟨source, fun _ name => Dict.findList? name fields, fun _ => .missingField, false⟩

/-- The record is `a` in the fields of an object: no field is refused, and they make `a`. -/
structure Reads (r : Record α) (source : Source) (fields : List (String × Json)) (a : α) :
    Prop where
  passes : ∀ k j, Dict.findList? k fields = some j → r.check source k j = .ok ()
  builds : ∀ i, r.build (partsOf source fields) i = .ok a

variable {source : Source} {fields : List (String × Json)} {name : String} {d : Decoder α}
  {encode : α → Json} {whenAbsent whenShort : Option α} {a : α} {i : Nat}

theorem build_part_of_some {parts : Parts} {j : Json} (h : parts.find i name = some j) :
    (part name d whenAbsent whenShort).build parts i = d parts.source j := by
  unfold part
  dsimp only
  rw [h]

theorem build_part_of_none {parts : Parts} (h : parts.find i name = none)
    (hnamed : parts.unnamed = false) :
    (part name d (some a) whenShort).build parts i = .ok a := by
  unfold part
  dsimp only
  rw [h, hnamed]
  rfl

/-- A part that is there is what its decoder makes of it. -/
theorem Reads.part {j : Json} (hf : Dict.findList? name fields = some j)
    (hd : d source j = .ok a) : (part name d whenAbsent whenShort).Reads source fields a where
  passes k w hw := by
    by_cases hk : k = name
    · subst hk
      cases hf.symm.trans hw
      change (if k = k then discard (d source j) else .ok ()) = _
      rw [if_pos rfl, hd]
      rfl
    · exact if_neg hk
  builds _ := (build_part_of_some hf).trans hd

/-- A part that is not there is what stands for it. -/
theorem Reads.absent (hf : Dict.findList? name fields = none) :
    (Record.part name d (some a) whenShort).Reads source fields a where
  passes k w hw := by
    refine if_neg ?_
    rintro rfl
    cases hf.symm.trans hw
  builds _ := build_part_of_none hf rfl

theorem Reads.map {r : Record α} (h : r.Reads source fields a) (f : α → β) :
    (f <$> r).Reads source fields (f a) where
  passes := h.passes
  builds i := by
    change f <$> r.build _ i = _
    rw [h.builds i]
    rfl

theorem Reads.seq {f : Record (α → β)} {x : Record α} {g : α → β} (hf : f.Reads source fields g)
    (hx : x.Reads source fields a) : (f <*> x).Reads source fields (g a) where
  passes k j hj := by
    change f.check source k j >>= (fun _ => x.check source k j) = _
    rw [hf.passes k j hj]
    exact hx.passes k j hj
  builds i := by
    change f.build _ i >>= (fun g => x.build _ (i + f.names.length) >>= fun a => .ok (g a)) = _
    rw [hf.builds i]
    change x.build _ (i + f.names.length) >>= (fun a => .ok (g a)) = _
    rw [hx.builds]
    rfl

/-! ### Kinds of fields -/

theorem Reads.field (h : Restores encode d) (hf : Dict.findList? name fields = some (encode a)) :
    (field name d).Reads source fields a :=
  .part hf (h source a)

theorem Reads.withDefault {b : α} (h : Restores encode d)
    (hf : Dict.findList? name fields = some (encode a)) :
    (withDefault name d b).Reads source fields a :=
  .part hf (h source a)

/-- A field that is written as null where it is missing. -/
theorem Reads.nulled {o : Option α} {short : Option (Option α)} (h : Restores encode d)
    (hnull : ∀ a, encode a ≠ null)
    (hf : Dict.findList? name fields = some ((o.map encode).getD null)) :
    (Record.part name d.nullable (some none) short).Reads source fields o :=
  .part hf (h.nullable hnull source o)

/-- A field that is not written where it is missing. -/
theorem Reads.omitted {o : Option α} (h : Restores encode d) (hnull : ∀ a, encode a ≠ null)
    (hf : Dict.findList? name fields = o.map encode) :
    (optional name d).Reads source fields o := by
  cases o with
  | none => exact .absent hf
  | some a => exact .part hf (Decoder.nullable_of_ne_null (hnull a) (h source a))

/-- A list of texts that is not written where it is empty. -/
theorem Reads.texts {items : List String}
    (hf : Dict.findList? name fields = if items.isEmpty then none else some (ofStrings items)) :
    (Record.withDefault name (Decoder.list Decoder.string) []).Reads source fields items := by
  cases items with
  | nil => exact .absent hf
  | cons item items => exact .part hf (Restores.strings source _)

/-! ### Objects -/

/-- The fields of an object pass where none comes twice and the record refuses none of them. -/
theorem checkFields_eq_ok {r : Record α} (hn : (fields.map (·.1)).Nodup) {seen : List String}
    (hseen : ∀ f ∈ fields, f.1 ∉ seen) (h : ∀ f ∈ fields, r.check source f.1 f.2 = .ok ()) :
    r.checkFields source seen fields = .ok () := by
  induction fields generalizing seen with
  | nil => rfl
  | cons f fields ih =>
    obtain ⟨k, j⟩ := f
    obtain ⟨hk, hn⟩ := List.nodup_cons.1 hn
    obtain ⟨hnew, hseen⟩ := List.forall_mem_cons.1 hseen
    obtain ⟨hcheck, h⟩ := List.forall_mem_cons.1 h
    rw [checkFields]
    split
    · rw [if_neg fun hs => hnew hs.2, hcheck]
      refine ih hn (fun f hf => ?_) h
      rw [List.mem_cons, not_or]
      refine ⟨?_, hseen f hf⟩
      rintro rfl
      exact hk (List.mem_map.2 ⟨f, hf, rfl⟩)
    · exact ih hn hseen h

/-- **The decoder of a record ends with the value that the record is** in an object whose keys
come once. -/
theorem decode_of_reads {r : Record α} (hn : (fields.map (·.1)).Nodup)
    (h : r.Reads source fields a) (title : String) :
    r.decode title source (obj fields) = .ok a := by
  have hcheck : r.checkFields source [] fields = .ok () :=
    checkFields_eq_ok hn (fun _ _ => List.not_mem_nil) fun f hf =>
      h.passes f.1 f.2 (Dict.findList?_of_nodup hn hf)
  rw [decode_obj, ofFields, hcheck]
  exact h.builds 0

/-! ### Other keys -/

theorem checkFields_filter (r : Record α) (seen : List String) (fields : List (String × Json)) :
    r.checkFields source seen (fields.filter fun f => decide (f.1 ∈ r.names))
      = r.checkFields source seen fields := by
  induction fields generalizing seen with
  | nil => rfl
  | cons f fields ih =>
    obtain ⟨k, j⟩ := f
    rw [List.filter_cons]
    by_cases hk : k ∈ r.names
    · rw [if_pos (decide_eq_true hk), checkFields, checkFields, if_pos hk, if_pos hk, ih]
    · rw [if_neg (by simpa using hk), checkFields, if_neg hk, ih]

/-- What a record makes of the fields of an object depends on those that it names. -/
def Local (r : Record α) : Prop :=
  ∀ source fields fields' i,
    (∀ k ∈ r.names, Dict.findList? k fields = Dict.findList? k fields') →
      r.build (partsOf source fields) i = r.build (partsOf source fields') i

theorem local_part (name : String) (d : Decoder α) (whenAbsent whenShort : Option α) :
    (part name d whenAbsent whenShort).Local := by
  intro source fields fields' i h
  unfold part partsOf
  dsimp only
  rw [h name List.mem_cons_self]

theorem Local.map {r : Record α} (h : r.Local) (f : α → β) : (f <$> r).Local :=
  fun source fields fields' i hf => congrArg (f <$> ·) (h source fields fields' i hf)

theorem Local.seq {f : Record (α → β)} {x : Record α} (hf : f.Local) (hx : x.Local) :
    (f <*> x).Local := by
  intro source fields fields' i h
  change f.build _ i >>= (fun g => x.build _ (i + f.names.length) >>= fun a => .ok (g a))
    = f.build _ i >>= fun g => x.build _ (i + f.names.length) >>= fun a => .ok (g a)
  rw [hf source fields fields' i fun k hk => h k (List.mem_append_left _ hk),
    hx source fields fields' _ fun k hk => h k (List.mem_append_right _ hk)]

/-- **The decoder of a record does not see the other keys of an object**, not even where it
fails. -/
theorem Local.decode_congr {r : Record α} (hr : r.Local) {d e : Dict Json}
    (h : ∀ k ∈ r.names, d.find? k = e.find? k) (title : String) (source : Source) :
    r.decode title source (ofDict d) = r.decode title source (ofDict e) := by
  have hlist : (d.toList.filter fun f => decide (f.1 ∈ r.names))
      = e.toList.filter fun f => decide (f.1 ∈ r.names) :=
    congrArg Dict.toList (Dict.restrict_congr (q := fun k => decide (k ∈ r.names)) fun k hk =>
      h k (of_decide_eq_true hk))
  have hcheck : r.checkFields source [] d.toList = r.checkFields source [] e.toList := by
    rw [← checkFields_filter, hlist, checkFields_filter]
  rw [ofDict, ofDict, decode_obj, decode_obj, ofFields, ofFields, hcheck]
  exact congrArg (r.checkFields source [] e.toList >>= ·)
    (funext fun _ => hr source d.toList e.toList 0 h)

/-! ### What the fields were -/

/-- The parts of a value make what a decoder ends with. -/
theorem build_of_decode {r : Record α} {title : String} {j : Json}
    (h : r.decode title source j = .ok a) : ∃ parts, r.build parts 0 = .ok a := by
  unfold decode at h
  split at h
  · obtain ⟨_, -, h⟩ := Except.bind_eq_ok h
    exact ⟨_, h⟩
  · rw [ofItems] at h
    obtain ⟨b, hbuild, h⟩ := Except.bind_eq_ok h
    split at h
    · cases h
      exact ⟨_, hbuild⟩
    · cases h
  · cases h

/-- The fields of an object make what a decoder ends with. -/
theorem build_of_decode_obj {r : Record α} {title : String}
    (h : r.decode title source (obj fields) = .ok a) :
    r.build (partsOf source fields) 0 = .ok a := by
  obtain ⟨_, -, h⟩ := Except.bind_eq_ok h
  exact h

theorem build_part_eq_ok {parts : Parts}
    (h : (part name d whenAbsent whenShort).build parts i = .ok a) :
    (∃ j, parts.find i name = some j ∧ d parts.source j = .ok a)
      ∨ parts.find i name = none ∧ (if parts.unnamed then whenShort else whenAbsent) = some a := by
  unfold part at h
  dsimp only at h
  split at h
  · exact .inl ⟨_, ‹_›, h⟩
  · split at h <;> cases h
    exact .inr ⟨‹_›, ‹_›⟩

theorem build_map_eq_ok {r : Record α} {f : α → β} {parts : Parts} {b : β}
    (h : (f <$> r).build parts i = .ok b) : ∃ a, r.build parts i = .ok a ∧ f a = b :=
  Except.map_eq_ok h

theorem build_seq_eq_ok {f : Record (α → β)} {x : Record α} {parts : Parts} {b : β}
    (h : (f <*> x).build parts i = .ok b) : ∃ g a, f.build parts i = .ok g
      ∧ x.build parts (i + f.names.length) = .ok a ∧ g a = b := by
  obtain ⟨g, hg, h⟩ := Except.bind_eq_ok h
  obtain ⟨a, ha, h⟩ := Except.bind_eq_ok h
  cases h
  exact ⟨g, a, hg, ha, rfl⟩

end Record

end ApiCompiler.Json
