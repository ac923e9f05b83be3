import ApiCompiler.Proofs.Config.RoundTrip
import ApiCompiler.Proofs.Output.Registered
import Mathlib.Data.List.Induction

/-!
# Outputs — which documents are valid

A document is asked for its version and for the six parts of its description; whatever else it holds
is not looked at. Where it is written by the program it is valid and says what it was written from,
which is how a description comes to be registered.

* `decode_ofDict`: what a document with a description is decoded into.
* `Describes`: a document says what a description says.
* `decode_eq_ok_iff`: the descriptions that a document is decoded into are those it describes.
* `registerApi_of_free`: what becomes of the description of an API.
* `validate_accepts_exactly`: all of it together.
-/

namespace ApiCompiler

open Json Record

/-! ### Descriptions -/

namespace OutputPayload

theorem restores : Restores encode decode := by
  rintro source ⟨region, endpoint, type, key, api, schema⟩
  have hkeys : List.Nodup ["amplifyApiModelSchemaS3Uri", "awsAppsyncApiEndpoint",
      "awsAppsyncApiId", "awsAppsyncApiKey", "awsAppsyncAuthenticationType",
      "awsAppsyncRegion"] := by decide
  refine decode_of_reads (hkeys.sublist ?_)
    (Reads.field .string ?_ |>.map _ |>.seq (.field .string ?_)
      |>.seq (.field AuthenticationType.restores ?_) |>.seq (.omitted .string str_ne_null ?_)
      |>.seq (.field .string ?_) |>.seq (.field .string ?_)) _
  · simp only [List.map_append]
    exact ((List.Sublist.refl _).append (keys_fieldOf? _ _)).append (.refl _)
  all_goals simp [Dict.findList?, findList?_fieldOf?]

theorem local_record : record.Local :=
  (local_part _ _ _ _).map _ |>.seq (local_part _ _ _ _) |>.seq (local_part _ _ _ _)
    |>.seq (local_part _ _ _ _) |>.seq (local_part _ _ _ _) |>.seq (local_part _ _ _ _)

/-- The fields of a document say what the description says; without an API key they may leave it
out or say null. -/
structure Describes (fields : Dict Json) (p : OutputPayload) : Prop where
  region : fields.find? "awsAppsyncRegion" = some (str p.region)
  endpoint : fields.find? "awsAppsyncApiEndpoint" = some (str p.endpoint)
  authenticationType :
    fields.find? "awsAppsyncAuthenticationType" = some (str p.authenticationType.name)
  someKey : ∀ k, p.apiKey = some k → fields.find? "awsAppsyncApiKey" = some (str k)
  noKey : p.apiKey = none →
    fields.find? "awsAppsyncApiKey" = none ∨ fields.find? "awsAppsyncApiKey" = some null
  apiId : fields.find? "awsAppsyncApiId" = some (str p.apiId)
  schemaUri : fields.find? "amplifyApiModelSchemaS3Uri" = some (str p.schemaUri)

theorem Describes.apiKey_eq_none_iff {fields : Dict Json} {p : OutputPayload}
    (h : Describes fields p) : p.apiKey = none ↔
      fields.find? "awsAppsyncApiKey" = none ∨ fields.find? "awsAppsyncApiKey" = some null := by
  refine ⟨h.noKey, fun hfind => ?_⟩
  cases hk : p.apiKey with
  | none => rfl
  | some k =>
    rw [h.someKey k hk] at hfind
    obtain hfind | hfind := hfind <;> cases hfind

end OutputPayload

/-- A text that is decoded into one of several names is that name. -/
theorem AuthenticationType.name_of_decode {source : Source} {s : String} {t : AuthenticationType}
    (h : decode source (str s) = .ok t) : t.name = s := by
  obtain ⟨_, -, he⟩ := List.mem_map.1 (Decoder.mem_of_variantNamed h)
  cases he
  rfl

namespace OutputPayload

variable {source : Source} {fields : Dict Json} {p : OutputPayload} {name : String} {i : Nat}

/-- The text that a field must be. -/
theorem find?_of_build {s : String}
    (h : (Record.field name Decoder.string).build (partsOf source fields.toList) i = .ok s) :
    fields.find? name = some (str s) := by
  obtain ⟨j, hj, hd⟩ | ⟨-, hnone⟩ := build_part_eq_ok h
  · exact Decoder.string_eq_ok hd ▸ hj
  · cases hnone

/-- The text that a field may be. -/
theorem find?_of_build_optional {o : Option String}
    (h : (Record.optional name Decoder.string).build (partsOf source fields.toList) i = .ok o) :
    (∀ s, o = some s → fields.find? name = some (str s))
      ∧ (o = none → fields.find? name = none ∨ fields.find? name = some null) := by
  obtain ⟨j, hj, hd⟩ | ⟨hnone, ho⟩ := build_part_eq_ok h
  · unfold Decoder.nullable at hd
    split at hd
    · cases hd
      exact ⟨nofun, fun _ => .inr hj⟩
    · obtain ⟨s, hs, rfl⟩ := Except.map_eq_ok hd
      refine ⟨fun s' hs' => ?_, nofun⟩
      cases hs'
      exact Decoder.string_eq_ok hs ▸ hj
  · cases ho
    exact ⟨nofun, fun _ => .inl hnone⟩

/-- **The descriptions that a document is decoded into are those that it describes**, where its
authentication type is a text if it has one. -/
theorem decode_eq_ok_iff
    (hauth : ∀ j, fields.find? "awsAppsyncAuthenticationType" = some j → ∃ s, j = str s) :
    decode source (ofDict fields) = .ok p ↔ Describes fields p := by
  constructor
  · intro h
    obtain ⟨_, uri, h₅, huri, rfl⟩ := build_seq_eq_ok (build_of_decode_obj h)
    obtain ⟨_, api, h₄, hapi, rfl⟩ := build_seq_eq_ok h₅
    obtain ⟨_, key, h₃, hkey, rfl⟩ := build_seq_eq_ok h₄
    obtain ⟨_, type, h₂, htype, rfl⟩ := build_seq_eq_ok h₃
    obtain ⟨_, endpoint, h₁, hendpoint, rfl⟩ := build_seq_eq_ok h₂
    obtain ⟨region, hregion, rfl⟩ := build_map_eq_ok h₁
    obtain ⟨hsome, hnone⟩ := find?_of_build_optional hkey
    refine ⟨find?_of_build hregion, find?_of_build hendpoint, ?_, hsome, hnone,
      find?_of_build hapi, find?_of_build huri⟩
    obtain ⟨j, hj, hd⟩ | ⟨-, habsent⟩ := build_part_eq_ok htype
    · obtain ⟨s, rfl⟩ := hauth j hj
      exact (AuthenticationType.name_of_decode hd).symm ▸ hj
    · cases habsent
  · intro h
    obtain ⟨region, endpoint, type, key, api, uri⟩ := p
    have hkey : (Record.optional "awsAppsyncApiKey" Decoder.string).Reads source fields.toList
        key := by
      cases key with
      | some k => exact .part (h.someKey k rfl) rfl
      | none =>
        obtain habsent | hnull := h.noKey rfl
        · exact .absent habsent
        · exact .part hnull rfl
    exact decode_of_reads fields.nodup_keys
      (Reads.field .string h.region |>.map _ |>.seq (.field .string h.endpoint)
        |>.seq (.field AuthenticationType.restores h.authenticationType) |>.seq hkey
        |>.seq (.field .string h.apiId) |>.seq (.field .string h.schemaUri)) _

end OutputPayload

/-! ### Documents -/

namespace OutputDocument

/-- What a document with a description is decoded into. -/
theorem decode_ofDict {d : Dict Json} {j : Json} (h : d.find? "payload" = some j)
    (source : Source) :
    decode source (ofDict d) =
      match d.find? "version" with
      | none   => .error (.missingField "version")
      | some v => checkVersion v >>= fun _ => v1 <$> OutputPayload.decode .buffered j := by
  have hlocal : recordV1.Local := (local_part _ _ _ _).map _
  have hfind : ∀ k ∈ recordV1.names,
      (d.restrict (· != "version")).find? k = (Dict.empty.insert "payload" j).find? k := by
    intro k hk
    obtain rfl := List.mem_singleton.1 hk
    rw [Dict.find?_restrict, h]
    rfl
  have hrest : recordV1.decode titleV1 .buffered (ofDict (d.restrict (· != "version")))
      = v1 <$> OutputPayload.decode .buffered j := by
    rw [hlocal.decode_congr hfind]
    change (discard (OutputPayload.decode .buffered j) >>= fun _ => .ok ()) >>=
      (fun _ => v1 <$> OutputPayload.decode .buffered j) = _
    cases OutputPayload.decode .buffered j <;> rfl
  change (match d.find? "version" with | none => _ | some v => _) = _
  cases d.find? "version" with
  | none => rfl
  | some v => exact congrArg (checkVersion v >>= fun _ => ·) hrest

theorem restores : Restores encode decode := by
  rintro source ⟨p⟩
  have hlt : "payload" < "version" := by decide
  change decode source (ofDict ⟨[("payload", p.encode), ("version", str "1")],
    List.pairwise_pair.2 hlt⟩) = _
  rw [decode_ofDict (j := p.encode) rfl, OutputPayload.restores]
  rfl

theorem validate_eq_ok_iff {j : Json} {v : OutputDocument} :
    validate j = .ok v ↔ decode .value j = .ok v := by
  rw [validate]
  cases decode .value j <;> simp

theorem checkVersion_eq_ok_iff {j : Json} : checkVersion j = .ok () ↔ j = str "1" := by
  unfold checkVersion
  split
  · simp [versions]
  · next hne => simpa using hne "1"

/-- A document is valid where its version is `1` and its description is one. -/
theorem validate_ofDict_eq_ok_iff {d : Dict Json} {j : Json} {p : OutputPayload}
    (h : d.find? "payload" = some j) :
    validate (ofDict d) = .ok (v1 p) ↔
      d.find? "version" = some (str "1") ∧ OutputPayload.decode .buffered j = .ok p := by
  rw [validate_eq_ok_iff, decode_ofDict h]
  cases d.find? "version" with
  | none => simp
  | some v =>
    rw [Option.some.injEq, ← checkVersion_eq_ok_iff]
    change (checkVersion v >>= fun _ => v1 <$> OutputPayload.decode .buffered j) = _ ↔ _
    constructor
    · intro hdecode
      obtain ⟨_, hv, hdecode⟩ := Except.bind_eq_ok hdecode
      obtain ⟨p', hp, he⟩ := Except.map_eq_ok hdecode
      cases he
      exact ⟨hv, hp⟩
    · rintro ⟨hv, hp⟩
      rw [hv, hp]
      rfl

/-- The version, the texts and the names that make a document with a description valid. -/
structure Accepted (fields payload : Dict Json) : Prop where
  version : fields.find? "version" = some (str "1")
  region : ∃ s, payload.find? "awsAppsyncRegion" = some (str s)
  endpoint : ∃ s, payload.find? "awsAppsyncApiEndpoint" = some (str s)
  authenticationType : ∃ t : AuthenticationType,
    payload.find? "awsAppsyncAuthenticationType" = some (str t.name)
  apiKey : payload.find? "awsAppsyncApiKey" = none ∨ payload.find? "awsAppsyncApiKey" = some null
    ∨ ∃ s, payload.find? "awsAppsyncApiKey" = some (str s)
  apiId : ∃ s, payload.find? "awsAppsyncApiId" = some (str s)
  schemaUri : ∃ s, payload.find? "amplifyApiModelSchemaS3Uri" = some (str s)

theorem accepted_iff {fields payload : Dict Json} :
    Accepted fields payload ↔
      fields.find? "version" = some (str "1") ∧ ∃ p, OutputPayload.Describes payload p := by
  constructor
  · rintro ⟨hversion, ⟨region, hregion⟩, ⟨endpoint, hendpoint⟩, ⟨type, htype⟩, hkey, ⟨api, hapi⟩,
      ⟨uri, huri⟩⟩
    refine ⟨hversion, ?_⟩
    obtain hnone | hnull | ⟨key, hkey⟩ := hkey
    · exact ⟨⟨region, endpoint, type, none, api, uri⟩, hregion, hendpoint, htype, nofun,
        fun _ => .inl hnone, hapi, huri⟩
    · exact ⟨⟨region, endpoint, type, none, api, uri⟩, hregion, hendpoint, htype, nofun,
        fun _ => .inr hnull, hapi, huri⟩
    · refine ⟨⟨region, endpoint, type, some key, api, uri⟩, hregion, hendpoint, htype, ?_, nofun,
        hapi, huri⟩
      rintro _ ⟨⟩
      exact hkey
  · rintro ⟨hversion, p, h⟩
    refine ⟨hversion, ⟨_, h.region⟩, ⟨_, h.endpoint⟩, ⟨_, h.authenticationType⟩, ?_, ⟨_, h.apiId⟩,
      ⟨_, h.schemaUri⟩⟩
    cases hk : p.apiKey with
    | none => exact (h.noKey hk).imp_right .inl
    | some k => exact .inr (.inr ⟨k, h.someKey k hk⟩)

end OutputDocument

/-! ### Registering a description -/

theorem OutputEntry.setIn_of_notMem {key value : String} {outputs : List (String × String)}
    (h : key ∉ outputs.map (·.1)) : setIn key value outputs = outputs ++ [(key, value)] := by
  induction outputs with
  | nil => rfl
  | cons p outputs ih =>
    obtain ⟨hp, h⟩ := not_or.1 (mt List.mem_cons.2 h)
    rw [setIn, if_neg (Ne.symm hp), ih h, List.cons_append]

/-- The entry of outputs with different names is the list of them. -/
theorem OutputEntry.ofFields_of_nodup {version : String} {fields : List (String × String)}
    (h : (fields.map (·.1)).Nodup) : ofFields version fields = ⟨version, fields⟩ := by
  induction fields using List.reverseRecOn with
  | nil => rfl
  | append_singleton fields f ih =>
    rw [List.map_append, List.nodup_append] at h
    have hf : f.1 ∉ fields.map (·.1) := fun hm => h.2.2 f.1 hm f.1 List.mem_cons_self rfl
    have hfold := ih h.1
    rw [ofFields] at hfold ⊢
    rw [List.foldl_append, hfold]
    exact congrArg (OutputEntry.mk version) (setIn_of_notMem hf)

namespace OutputPayload

/-- The outputs of a description, in the order in which its parts are declared. -/
def outputs (p : OutputPayload) : List (String × String) :=
  [("awsAppsyncRegion", p.region), ("awsAppsyncApiEndpoint", p.endpoint),
    ("awsAppsyncAuthenticationType", p.authenticationType.name)]
    ++ (p.apiKey.map fun k => ("awsAppsyncApiKey", k)).toList
    ++ [("awsAppsyncApiId", p.apiId), ("amplifyApiModelSchemaS3Uri", p.schemaUri)]

/-- The names of the outputs are those of the parts, without the API key where there is none. -/
theorem keys_outputs (p : OutputPayload) :
    p.outputs.map (·.1) =
      record.names.filter fun k => k != "awsAppsyncApiKey" || p.apiKey.isSome := by
  obtain ⟨region, endpoint, type, key, api, uri⟩ := p
  cases key <;> rfl

theorem toEntry_v1 (p : OutputPayload) : (OutputDocument.v1 p).toEntry = ⟨"1", p.outputs⟩ := by
  have hn : (p.outputs.map (·.1)).Nodup := by
    rw [keys_outputs]
    exact List.Nodup.sublist List.filter_sublist (by decide)
  exact OutputEntry.ofFields_of_nodup hn

end OutputPayload

/-- The description of an API is registered where no other entry holds an output of it. -/
theorem OutputStore.registerApi_of_free {s : OutputStore} {p : OutputPayload}
    (h : ∀ k ∈ p.outputs.map (·.1), ∀ m, m ≠ apiEntryName → ¬ s.index.Lists m k) :
    s.registerApi p =
      (.ok (), ⟨{ s.backend with outputs := s.backend.outputs.insertMany p.outputs },
        s.index.insert apiEntryName ⟨"1", p.outputs.map (·.1)⟩⟩) := by
  have hvalid : OutputDocument.validate (OutputDocument.v1 p).encode = .ok (.v1 p) :=
    OutputDocument.validate_eq_ok_iff.2 (OutputDocument.restores .value _)
  have hfree : ¬ s.Takes apiEntryName ⟨"1", p.outputs⟩ := by
    rintro ⟨k, hk, m, hm, hl⟩
    exact h k hk m hm hl
  have hnamed : "" ∉ (OutputEntry.mk "1" p.outputs).keys := by
    change "" ∉ p.outputs.map (·.1)
    rw [p.keys_outputs]
    exact fun hm => absurd (List.mem_of_mem_filter hm) (by decide)
  rw [registerApi, hvalid]
  exact (congrArg (s.register apiEntryName) p.toEntry_v1).trans (register_of_free hfree hnamed)

namespace OutputDocument

/-- **A document is valid exactly where it keeps to its version.** What the program writes is valid
and says what it was written from. Where the description is an object whose authentication type is a
text if it has one, the document is valid exactly where its version, its texts and its names are
there, and then it says what its fields do, without an API key where that is missing or null.
Neither the verdict nor the description depends on a key that is not one of these. The description
of an API is registered where no other entry holds an output of it, with its parts in the order in
which they are declared, the API key among them where there is one. -/
theorem validate_accepts_exactly :
    (∀ v : OutputDocument, validate v.encode = .ok v)
    ∧ (∀ fields payload : Dict Json, fields.find? "payload" = some (ofDict payload) →
        (∀ j, payload.find? "awsAppsyncAuthenticationType" = some j → ∃ s, j = str s) →
        ((∃ v, validate (ofDict fields) = .ok v) ↔ Accepted fields payload)
        ∧ ∀ p, validate (ofDict fields) = .ok (v1 p) → OutputPayload.Describes payload p
            ∧ (p.apiKey = none ↔ payload.find? "awsAppsyncApiKey" = none
                ∨ payload.find? "awsAppsyncApiKey" = some null))
    ∧ (∀ fields payload fields' payload' : Dict Json,
        fields.find? "payload" = some (ofDict payload) →
        fields'.find? "payload" = some (ofDict payload') →
        fields.find? "version" = fields'.find? "version" →
        (∀ k ∈ OutputPayload.record.names, payload.find? k = payload'.find? k) →
        validate (ofDict fields) = validate (ofDict fields'))
    ∧ ∀ (s : OutputStore) (p : OutputPayload),
        (∀ k ∈ p.outputs.map (·.1), ∀ m, m ≠ apiEntryName → ¬ s.index.Lists m k) →
        s.registerApi p =
            (.ok (), ⟨{ s.backend with outputs := s.backend.outputs.insertMany p.outputs },
              s.index.insert apiEntryName ⟨"1", p.outputs.map (·.1)⟩⟩)
          ∧ p.outputs.map (·.1) =
              OutputPayload.record.names.filter fun k =>
                k != "awsAppsyncApiKey" || p.apiKey.isSome := by
  refine ⟨fun v => validate_eq_ok_iff.2 (restores .value v), ?_, ?_, ?_⟩
  · intro fields payload hpayload hauth
    have hiff : ∀ p, validate (ofDict fields) = .ok (v1 p) ↔
        fields.find? "version" = some (str "1") ∧ OutputPayload.Describes payload p := fun p => by
      rw [validate_ofDict_eq_ok_iff hpayload, OutputPayload.decode_eq_ok_iff hauth]
    refine ⟨?_, fun p h => ?_⟩
    · rw [accepted_iff]
      constructor
      · rintro ⟨⟨p⟩, h⟩
        exact ⟨((hiff p).1 h).1, p, ((hiff p).1 h).2⟩
      · rintro ⟨hversion, p, h⟩
        exact ⟨v1 p, (hiff p).2 ⟨hversion, h⟩⟩
    · have hdescribes := ((hiff p).1 h).2
      exact ⟨hdescribes, hdescribes.apiKey_eq_none_iff⟩
  · intro fields payload fields' payload' hfields hfields' hversion hpayload
    have hdecode : OutputPayload.decode .buffered (ofDict payload)
        = OutputPayload.decode .buffered (ofDict payload') :=
      OutputPayload.local_record.decode_congr hpayload _ _
    rw [validate, validate, decode_ofDict hfields, decode_ofDict hfields', hversion, hdecode]
  · exact fun s p h => ⟨OutputStore.registerApi_of_free h, p.keys_outputs⟩

/-- A description with null for its API key and with a key that is not a part of one. -/
def strangePayload : Dict Json :=
  .ofList [("awsAppsyncRegion", str "eu"), ("awsAppsyncApiEndpoint", str "e"), ("extra", int 7),
    ("awsAppsyncAuthenticationType", str "AWS_IAM"), ("awsAppsyncApiKey", null),
    ("awsAppsyncApiId", str "i"), ("amplifyApiModelSchemaS3Uri", str "s3")]

theorem validate_accepts_exactly_strangePayload :
    (∃ v, validate (mkObj [("payload", ofDict strangePayload), ("version", str "1")]) = .ok v)
      ∧ ¬ ∃ v,
        validate (mkObj [("payload", ofDict strangePayload), ("version", str "2")]) = .ok v := by
  have hauth : ∀ j, strangePayload.find? "awsAppsyncAuthenticationType" = some j → ∃ s, j = str s :=
    fun j hj => ⟨"AWS_IAM", (Option.some.inj hj).symm⟩
  obtain ⟨-, hexact, -⟩ := validate_accepts_exactly
  obtain ⟨hfirst, -⟩ := hexact (.ofList [("payload", ofDict strangePayload), ("version", str "1")])
    strangePayload rfl hauth
  obtain ⟨hsecond, -⟩ := hexact (.ofList [("payload", ofDict strangePayload), ("version", str "2")])
    strangePayload rfl hauth
  refine ⟨hfirst.2 ⟨rfl, ⟨"eu", rfl⟩, ⟨"e", rfl⟩, ⟨.iam, rfl⟩, .inr (.inl rfl), ⟨"i", rfl⟩,
    ⟨"s3", rfl⟩⟩, fun h => ?_⟩
  exact absurd (hsecond.1 h).version (by decide)

end OutputDocument

end ApiCompiler
