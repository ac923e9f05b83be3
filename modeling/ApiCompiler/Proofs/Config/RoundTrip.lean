import ApiCompiler.Config.Basic
import ApiCompiler.Log
import ApiCompiler.Output.Index
import ApiCompiler.Proofs.Json.Record

/-!
# Configuration — what is written is read back

* `restores`, one for each structure of a configuration, and for what passes and outputs write.
* `Resource.decode_encode`: a resource is read back with the canonical forms of its properties.
* `restores_all`: all of them together.
-/

namespace ApiCompiler

open Json Record

/-! ### Names -/

theorem AuthenticationType.restores : Restores encode decode := .variant (by decide) mem_all

theorem ConflictHandler.restores : Restores encode decode := by
  refine Restores.variant ?_ fun h => ?_
  · decide
  · cases h <;> decide

theorem DbType.restores : Restores encode decode := by
  refine Restores.variant ?_ fun t => ?_
  · decide
  · cases t <;> decide

theorem AuthStrategy.restores : Restores encode decode := by
  refine Restores.variant ?_ fun s => ?_
  · decide
  · cases s <;> decide

theorem ResourceKind.restores : Restores encode decode := by
  refine Restores.variant ?_ fun k => ?_
  · decide
  · cases k <;> decide

theorem LogLevel.restores : Restores encode decode :=
  fun _ l => congrArg Except.ok (ofName_name l)

/-! ### Structures -/

theorem ofString?_eq (o : Option String) : ofString? o = (o.map str).getD null := by
  cases o <;> rfl

/-- A text is not null. -/
theorem str_ne_null (s : String) : str s ≠ null := nofun

theorem FunctionHandle.restores : Restores encode decode := by
  rintro source ⟨name, arn⟩
  refine decode_of_reads (by simp)
    (Reads.field .string ?_ |>.map _ |>.seq (.field .string ?_)) _
    <;> simp [Dict.findList?]

theorem AuthMode.restores : Restores encode decode := by
  rintro source ⟨type, days, pool, issuer, function⟩
  have hkeys : List.Nodup ["apiKeyExpirationDays", "authenticationType", "lambdaFunction",
      "openIdIssuerUrl", "userPoolId"] := by decide
  refine decode_of_reads (hkeys.sublist ?_)
    (Reads.field AuthenticationType.restores ?_ |>.map _ |>.seq (.omitted .word32 nofun ?_)
      |>.seq (.omitted .string str_ne_null ?_) |>.seq (.omitted .string str_ne_null ?_)
      |>.seq (.omitted .string str_ne_null ?_)) _
  · simp only [List.map_append]
    exact ((((keys_fieldOf? _ _).append (.refl _)).append (keys_fieldOf? _ _)).append
      (keys_fieldOf? _ _)).append (keys_fieldOf? _ _)
  all_goals simp [Dict.findList?, findList?_fieldOf?]

theorem AuthConfiguration.restores : Restores encode decode := by
  rintro source ⟨default, additional⟩
  refine decode_of_reads (by simp)
    (Reads.field AuthMode.restores ?_ |>.map _ |>.seq (.withDefault AuthMode.restores.list ?_)) _
    <;> simp [Dict.findList?]

theorem ConflictDetection.restores : Restores encode decode := by
  rintro source ⟨handler, lambdaHandler⟩
  refine decode_of_reads (by simp)
    (Reads.field ConflictHandler.restores ?_ |>.map _ |>.seq (.nulled .string str_ne_null ?_)) _
    <;> simp [Dict.findList?, ofString?_eq]

theorem ResolverConfig.restores : Restores encode decode := by
  rintro source ⟨project, models⟩
  refine decode_of_reads (by simp)
    (Reads.nulled ConflictDetection.restores nofun ?_ |>.map _
      |>.seq (.withDefault ConflictDetection.restores.dict ?_)) _
    <;> simp [Dict.findList?]

theorem Slot.restores : Restores encode decode := by
  rintro source ⟨typeName, fieldName, slotName, request, response⟩
  refine decode_of_reads (by simp)
    (Reads.field .string ?_ |>.map _ |>.seq (.field .string ?_) |>.seq (.field .string ?_)
      |>.seq (.nulled .string str_ne_null ?_) |>.seq (.nulled .string str_ne_null ?_)) _
    <;> simp [Dict.findList?, ofString?_eq]

theorem TransformParameters.restores : Restores encode decode := by
  intro source p
  cases p
  refine decode_of_reads (by simp)
    (Reads.withDefault .boolean ?_ |>.map _ |>.seq (.withDefault .boolean ?_)
      |>.seq (.withDefault .boolean ?_) |>.seq (.withDefault .boolean ?_)
      |>.seq (.withDefault .boolean ?_) |>.seq (.withDefault .boolean ?_)
      |>.seq (.withDefault .boolean ?_) |>.seq (.withDefault .boolean ?_)
      |>.seq (.withDefault .boolean ?_) |>.seq (.withDefault .boolean ?_)
      |>.seq (.withDefault .boolean ?_) |>.seq (.withDefault .boolean ?_)
      |>.seq (.withDefault .boolean ?_) |>.seq (.withDefault .boolean ?_)) _
    <;> simp [Dict.findList?]

theorem SubnetZone.restores : Restores encode decode := by
  rintro source ⟨subnet, zone⟩
  refine decode_of_reads (by simp)
    (Reads.field .string ?_ |>.map _ |>.seq (.field .string ?_)) _
    <;> simp [Dict.findList?]

theorem VpcConfig.restores : Restores encode decode := by
  rintro source ⟨vpc, groups, subnets⟩
  refine decode_of_reads (by simp)
    (Reads.field .string ?_ |>.map _ |>.seq (.field .strings ?_)
      |>.seq (.field SubnetZone.restores.list ?_)) _
    <;> simp [Dict.findList?]

theorem LayerVersion.restores : Restores encode decode := by
  rintro source ⟨region⟩
  refine decode_of_reads (by simp)
    (Reads.field .string ?_ |>.map _) _
  simp [Dict.findList?]

theorem LayerMapping.restores : Restores encode decode := LayerVersion.restores.dict

theorem DatasourceType.restores : Restores encode decode := by
  rintro source ⟨type, provision⟩
  refine decode_of_reads (by simp)
    (Reads.field DbType.restores ?_ |>.map _ |>.seq (.field .boolean ?_)) _
    <;> simp [Dict.findList?]

theorem ConnectionSecrets.restores : Restores encode decode := by
  rintro source ⟨username, password, host, database, port⟩
  refine decode_of_reads (by simp)
    (Reads.field .string ?_ |>.map _ |>.seq (.field .string ?_) |>.seq (.field .string ?_)
      |>.seq (.field .string ?_) |>.seq (.field .string ?_)) _
    <;> simp [Dict.findList?]

theorem SynthParameters.restores : Restores encode decode := by
  rintro source ⟨environment, api, account, region, role, publicRole, admins, pool, iam⟩
  refine decode_of_reads (by simp)
    (Reads.withDefault .string ?_ |>.map _ |>.seq (.withDefault .string ?_)
      |>.seq (.nulled .string str_ne_null ?_) |>.seq (.nulled .string str_ne_null ?_)
      |>.seq (.nulled .string str_ne_null ?_) |>.seq (.nulled .string str_ne_null ?_)
      |>.seq (.withDefault .strings ?_) |>.seq (.nulled .string str_ne_null ?_)
      |>.seq (.withDefault .boolean ?_)) _
    <;> simp [Dict.findList?, ofString?_eq]

theorem AuthRule.restores : Restores encode decode := by
  rintro source ⟨allow, provider, groups, owner, operations⟩
  have hkeys : List.Nodup ["allow", "groups", "operations", "ownerField", "provider"] := by decide
  refine decode_of_reads (hkeys.sublist ?_)
    (Reads.field AuthStrategy.restores ?_ |>.map _ |>.seq (.omitted .string str_ne_null ?_)
      |>.seq (.texts ?_) |>.seq (.omitted .string str_ne_null ?_) |>.seq (.texts ?_)) _
  · simp only [List.map_append]
    exact ((((List.Sublist.refl _).append (keys_fieldOfStrings _ _)).append
      (keys_fieldOfStrings _ _)).append (keys_fieldOf? _ _)).append (keys_fieldOf? _ _)
  all_goals
    simp [Dict.findList?, findList?_fieldOf?, findList?_fieldOfStrings]

theorem LogEntry.restores : Restores encode decode := by
  rintro source ⟨level, message⟩
  refine decode_of_reads (by simp)
    (Reads.field LogLevel.restores ?_ |>.map _ |>.seq (.field .string ?_)) _
    <;> simp [Dict.findList?]

theorem Json.Restores.pair :
    Restores (fun p : String × String => arr [str p.1, str p.2]) Decoder.pair := fun _ _ => rfl

theorem OutputEntry.restores : Restores encode decode := by
  rintro source ⟨version, payload⟩
  refine decode_of_reads (by simp)
    (Reads.field .string ?_ |>.map _ |>.seq (.field Restores.pair.list ?_)) _
    <;> simp [Dict.findList?]

/-! ### Resources -/

namespace Json

/-- What `decode` makes of any value is read back from what `encode` writes of it. -/
def Settles {α : Type} (encode : α → Json) (decode : Decoder α) : Prop :=
  ∀ source source' j a, decode source j = .ok a → decode source' (encode a) = .ok a

/-- The values that a decoder makes of an object with any values are canonical. -/
theorem isOrdered_of_dict_any {source : Source} {j : Json} {d : Dict Json}
    (h : Decoder.dict Decoder.any source j = .ok d) : ∀ v ∈ d.values, v.isOrdered = true := by
  unfold Decoder.dict at h
  split at h
  · obtain ⟨pairs, hpairs, h⟩ := Except.bind_eq_ok h
    cases h
    intro v hv
    obtain ⟨p, hp, rfl⟩ := List.mem_map.1 hv
    obtain ⟨f, -, hf⟩ := Except.mem_of_mapM hpairs (Dict.mem_of_mem_ofList hp)
    cases hf
    exact isOrdered_canonical f.2
  · cases h

end Json

namespace Resource

/-- The resource with its properties in canonical form. -/
def canonical (r : Resource) : Resource :=
  { r with properties := r.properties.mapValues fun _ => Json.canonical }

/-- Whether the keys of every object in the properties rise. -/
def isOrdered (r : Resource) : Bool := r.properties.values.all Json.isOrdered

/-- A resource is read back in canonical form. -/
theorem decode_encode (source : Source) (r : Resource) :
    decode source r.encode = .ok r.canonical := by
  obtain ⟨id, kind, properties, stack⟩ := r
  have hproperties : Decoder.dict Decoder.any source (ofDict properties)
      = .ok (properties.mapValues fun _ => Json.canonical) := by
    have hvalues := Decoder.dict_mapValues (fun v => (rfl : Decoder.any source v = _)) properties
    rwa [Dict.mapValues_id] at hvalues
  refine decode_of_reads (by simp)
    (Reads.field .string ?_ |>.map _ |>.seq (.field ResourceKind.restores ?_)
      |>.seq (.part ?_ hproperties) |>.seq (.nulled .string str_ne_null ?_)) _
    <;> simp [Dict.findList?, ofString?_eq]

theorem canonical_eq_self_iff {r : Resource} : r.canonical = r ↔ r.isOrdered = true := by
  rw [isOrdered, List.all_eq_true]
  constructor
  · intro h v hv
    obtain ⟨k, hk⟩ := Dict.mem_values_iff.1 hv
    have hv' := congrArg (fun s : Resource => s.properties.find? k) h
    simp only [canonical, Dict.find?_mapValues, hk, Option.map_some, Option.some.injEq] at hv'
    exact Json.canonical_eq_self_iff.1 hv'
  · intro h
    have hproperties : (r.properties.mapValues fun _ => Json.canonical) = r.properties := by
      refine Dict.ext_find? fun k => ?_
      rw [Dict.find?_mapValues]
      cases hk : r.properties.find? k with
      | none => rfl
      | some v => exact congrArg some (canonical_of_isOrdered (h v (Dict.mem_values_iff.2 ⟨k, hk⟩)))
    rw [canonical, hproperties]

/-- A decoded resource has rising keys. -/
theorem isOrdered_of_decode {source : Source} {j : Json} {r : Resource}
    (h : decode source j = .ok r) : r.isOrdered = true := by
  obtain ⟨parts, h₀⟩ := build_of_decode h
  obtain ⟨_, stack, h₁, -, rfl⟩ := build_seq_eq_ok h₀
  obtain ⟨_, d, h₂, hd, rfl⟩ := build_seq_eq_ok h₁
  obtain ⟨_, kind, h₃, -, rfl⟩ := build_seq_eq_ok h₂
  obtain ⟨id, -, rfl⟩ := build_map_eq_ok h₃
  obtain ⟨v, -, hv⟩ | ⟨-, hnone⟩ := build_part_eq_ok hd
  · exact List.all_eq_true.2 (isOrdered_of_dict_any hv)
  · exact absurd hnone (by cases parts.unnamed <;> nofun)

end Resource

/-- **What is written is read back**: every structure of a configuration and of an output is what
its decoder makes of what it is written as, and a resource is where the keys in its properties
rise, as they do in memory and in every decoded resource. -/
theorem restores_all :
    (Restores FunctionHandle.encode FunctionHandle.decode
      ∧ Restores AuthMode.encode AuthMode.decode
      ∧ Restores AuthConfiguration.encode AuthConfiguration.decode
      ∧ Restores ConflictDetection.encode ConflictDetection.decode
      ∧ Restores ResolverConfig.encode ResolverConfig.decode
      ∧ Restores Slot.encode Slot.decode
      ∧ Restores TransformParameters.encode TransformParameters.decode
      ∧ Restores VpcConfig.encode VpcConfig.decode
      ∧ Restores LayerMapping.encode LayerMapping.decode
      ∧ Restores DatasourceType.encode DatasourceType.decode
      ∧ Restores ConnectionSecrets.encode ConnectionSecrets.decode
      ∧ Restores SynthParameters.encode SynthParameters.decode
      ∧ Restores AuthStrategy.encode AuthStrategy.decode
      ∧ Restores AuthRule.encode AuthRule.decode
      ∧ Restores AuthenticationType.encode AuthenticationType.decode
      ∧ Restores LogEntry.encode LogEntry.decode
      ∧ Restores ResourceKind.encode ResourceKind.decode
      ∧ Restores OutputEntry.encode OutputEntry.decode)
    ∧ (∀ source (r : Resource), Resource.decode source r.encode = .ok r ↔ r.isOrdered = true)
    ∧ Settles Resource.encode Resource.decode := by
  refine ⟨⟨FunctionHandle.restores, AuthMode.restores, AuthConfiguration.restores,
    ConflictDetection.restores, ResolverConfig.restores, Slot.restores,
    TransformParameters.restores, VpcConfig.restores, LayerMapping.restores,
    DatasourceType.restores, ConnectionSecrets.restores, SynthParameters.restores,
    AuthStrategy.restores, AuthRule.restores, AuthenticationType.restores, LogEntry.restores,
    ResourceKind.restores, OutputEntry.restores⟩, fun source r => ?_,
    fun source source' j r h => ?_⟩
  · rw [Resource.decode_encode, Except.ok.injEq, Resource.canonical_eq_self_iff]
  · rw [Resource.decode_encode,
      Resource.canonical_eq_self_iff.2 (Resource.isOrdered_of_decode h)]

end ApiCompiler
