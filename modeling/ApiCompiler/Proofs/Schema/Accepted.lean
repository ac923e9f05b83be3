import ApiCompiler.Proofs.Schema.Structured

/-!
# Schema — what is accepted is well-formed

* `yields_valueWithin`, `yields_typeRef`: what nests, by induction on how deep it may.
* `yields_fieldDefinition`, `yields_definition`: what a definition is made of, and the definition.
  All values in it have the properties of what is read as a value.
* `Document.isWellFormed_of_parse`: a text is only ever read as a well-formed document.
-/

namespace ApiCompiler.Schema

open ApiCompiler.Parser

/-! ### Tokens -/

theorem yields_token {α : Type} {p : Parser α} {P : α → Prop} (h : Yields p P) :
    Yields (token p) P :=
  .after fun _ => h

theorem yields_name : Yields name fun n => isName n = true := by
  have start : Yields (satisfy isNameStart) fun c => isNameStart c = true := by
    intro s c r h
    cases s with
    | nil => cases h
    | cons d s =>
      rw [satisfy] at h
      split at h
      · next hd =>
        cases h
        exact hd
      · cases h
  have rest : Yields (chars isNameChar) fun w => ∀ c ∈ w, isNameChar c = true := by
    intro s w r h
    cases h
    exact fun c hc => List.all_eq_true.1 List.all_takeWhile c hc
  refine start.bind fun c hc => rest.bind fun w hw => .pure ?_
  rw [isName, String.toList_ofList, Bool.and_eq_true, List.all_eq_true]
  exact ⟨hc, hw⟩

theorem isWellFormed_numberValue? {negative : Bool} {whole : List Char}
    {fraction : Option (List Char)} {exponent : Option (Bool × List Char)} {v : Value}
    (h : numberValue? negative whole fraction exponent = some v) : v.isWellFormed = true := by
  unfold numberValue? at h
  split at h
  · obtain ⟨hfits, he⟩ := Option.ite_none_right_eq_some.1 h
    rw [← Option.some.inj he]
    exact hfits
  · rw [← Option.some.inj h]
    rfl

theorem yields_number : Yields number (·.isWellFormed = true) := by
  refine .after fun _ => .after fun _ => .after fun _ => .after fun _ s v r h => ?_
  obtain ⟨w, hw, he⟩ := Option.map_eq_some_iff.1 h
  cases he
  exact isWellFormed_numberValue? hw

/-! ### Values and directives -/

theorem yields_argument {p : Parser Value} {P : Value → Prop} (h : Yields p P) :
    Yields (argument p) fun q => isName q.1 = true ∧ P q.2 :=
  (yields_token yields_name).bind fun _ hk => .after fun _ => (yields_token h).bind fun _ hv =>
    .pure ⟨hk, hv⟩

theorem isWellFormed_wordValue {n : String} (h : isName n = true) :
    (wordValue n).isWellFormed = true := by
  unfold wordValue
  split
  · rfl
  · split
    · rfl
    · split
      · rfl
      · next ht hf hn => simp [Value.isWellFormed, Value.reservedWords, h, ht, hf, hn]

/-- **What holds of everything that is read as a value**: what holds of the numbers that are read,
of texts and of words, and passes from values to a list or an object of them. -/
theorem yields_valueWithin {P : Value → Prop} (hnumber : Yields number P)
    (hstring : ∀ s, P (.string s)) (hword : ∀ n, isName n = true → P (wordValue n))
    (hlist : ∀ items, (∀ v ∈ items, P v) → P (.list items))
    (hobject : ∀ fields : List (String × Value), (∀ q ∈ fields, isName q.1 = true ∧ P q.2) →
      P (.object fields)) (depth : Nat) : Yields (valueWithin depth) P := by
  induction depth with
  | zero => exact nofun
  | succ depth ih =>
    have text : ∀ p : Parser String, Yields (Value.string <$> p) P :=
      fun p => (Yields.any p).map fun s _ => hstring s
    exact hnumber.orElse ((text _).orElse ((text _).orElse
      (((yields_token ih).many.between.map hlist).orElse
        (((yields_argument ih).many.between.map hobject).orElse (yields_name.map hword)))))

theorem yields_value : Yields value (·.isWellFormed = true) := fun s =>
  yields_valueWithin yields_number (fun _ => rfl) (fun _ => isWellFormed_wordValue)
    (fun _ => Value.isWellFormed_list_iff.2) (fun _ => Value.isWellFormed_object_iff.2) s.length s

theorem forall_getD {α : Type} {P : α → Prop} {o : Option (List α)}
    (h : ∀ as ∈ o, ∀ a ∈ as, P a) : ∀ a ∈ o.getD [], P a := by
  cases o with
  | none => exact nofun
  | some as => exact h as rfl

section

variable {P : Value → Prop} (hP : Yields value P)

include hP

theorem yields_directive :
    Yields directive fun e => e.isWellFormed = true ∧ ∀ v ∈ e.values, P v := by
  refine .after fun _ => yields_name.bind fun n hn =>
    (yields_argument (yields_value.and hP)).many.between.opt.bind fun arguments ha => .pure ?_
  have hall := forall_getD ha
  exact ⟨Directive.isWellFormed_iff.2 ⟨hn, fun q hq => ⟨(hall q hq).1, (hall q hq).2.1⟩⟩,
    List.forall_mem_map.2 fun q hq => (hall q hq).2.2⟩

theorem yields_directives :
    Yields directives fun es => ∀ e ∈ es, e.isWellFormed = true ∧ ∀ v ∈ e.values, P v :=
  (yields_token (yields_directive hP)).many

end

/-! ### Types and fields -/

theorem yields_typeRefWithin (depth : Nat) :
    Yields (typeRefWithin depth) (·.isWellFormed = true) := by
  induction depth with
  | zero => exact nofun
  | succ depth ih =>
    -- what stands before a mark excludes null at most inside
    have base : Yields (TypeRef.named <$> name
          <|> TypeRef.list <$> between (char '[') (token (typeRefWithin depth)) (symbol ']'))
        fun t => t.isWellFormed = true ∧ t.isNonNull = false :=
      (yields_name.map fun _ hn => ⟨hn, rfl⟩).orElse
        ((yields_token ih).between.map fun _ ht => ⟨ht, rfl⟩)
    refine base.bind fun t ht => .after fun bang => .pure ?_
    split
    · rw [TypeRef.isWellFormed, ht.1, ht.2]
      rfl
    · exact ht.1

theorem yields_typeRef : Yields typeRef (·.isWellFormed = true) :=
  fun s => yields_typeRefWithin s.length s

theorem yields_defaultValue {P : Value → Prop} (hP : Yields value P) : Yields defaultValue P :=
  .after fun _ => yields_token hP

section

variable {P : Value → Prop} (hP : Yields value P)

include hP

theorem yields_argumentDefinition :
    Yields argumentDefinition fun a => a.isWellFormed = true ∧ ∀ v ∈ a.values, P v := by
  refine .after fun _ => (yields_token yields_name).bind fun n hn => .after fun _ =>
    (yields_token yields_typeRef).bind fun t ht =>
      (yields_defaultValue (yields_value.and hP)).opt.bind fun v hv => .after fun _ => .pure ?_
  exact ⟨ArgumentDefinition.isWellFormed_iff.2 ⟨hn, ht, fun w hw => (hv w hw).1⟩,
    fun w hw => (hv w (Option.mem_toList.1 hw)).2⟩

theorem yields_fieldDefinition :
    Yields fieldDefinition fun f => f.isWellFormed = true ∧ ∀ v ∈ f.values, P v := by
  refine .after fun _ => (yields_token yields_name).bind fun n hn =>
    (yields_argumentDefinition hP).many.between.opt.bind fun arguments ha => .after fun _ =>
      (yields_token yields_typeRef).bind fun t ht => .after fun _ =>
        (yields_directives hP).bind fun es hes => .pure ?_
  have hall := forall_getD ha
  exact ⟨FieldDefinition.isWellFormed_iff.2
      ⟨hn, fun a ha => (hall a ha).1, ht, fun e he => (hes e he).1⟩,
    List.forall_mem_append.2 ⟨List.forall_mem_flatMap.2 fun a ha => (hall a ha).2,
      List.forall_mem_flatMap.2 fun e he => (hes e he).2⟩⟩

end

/-! ### Definitions -/

theorem yields_implementsClause :
    Yields implementsClause fun names => ∀ n ∈ names, isName n = true :=
  .after fun _ => Yields.many1 (.after fun _ => yields_token yields_name)

theorem yields_enumMember : Yields enumMember fun m => isName m = true :=
  .after fun _ => (yields_token yields_name).bind fun _ hm => .after fun _ => .pure hm

theorem yields_unionMembers : Yields unionMembers fun names => ∀ n ∈ names, isName n = true :=
  .after fun _ => .after fun _ => (yields_token yields_name).sepBy1

/-- A definition without fields is well-formed where its parts are, and the values in it are those
of its directives. -/
theorem isWellFormed_of_noFields {P : Value → Prop} {t : TypeDefinition} (hfields : t.fields = [])
    (hi : t.implements = []) (hn : isName t.name = true)
    (hes : ∀ e ∈ t.directives, e.isWellFormed = true ∧ ∀ v ∈ e.values, P v)
    (hm : ∀ n ∈ t.members, isName n = true) (hk : t.kind.hasMembers = false → t.members = []) :
    t.isWellFormed = true ∧ ∀ v ∈ t.values, P v := by
  constructor
  · exact TypeDefinition.isWellFormed_iff.2 ⟨hn, hi ▸ nofun, fun e he => (hes e he).1,
      hfields ▸ nofun, hm, TypeDefinition.fitsKind_iff.2 ⟨fun _ => ⟨hfields, hi⟩, hk⟩⟩
  · rw [TypeDefinition.values, hfields, List.flatMap_nil, List.append_nil, List.forall_mem_flatMap]
    exact fun e he => (hes e he).2

section

variable {P : Value → Prop} (hP : Yields value P)

include hP

theorem yields_fieldsDefinition {kind : TypeKind} (hk : kind.hasFields = true) (extends? : Bool) :
    Yields (fieldsDefinition kind extends?) fun t =>
      t.isWellFormed = true ∧ ∀ v ∈ t.values, P v := by
  refine (yields_token yields_name).bind fun n hn => yields_implementsClause.opt.bind
    fun implements hi => (yields_directives hP).bind fun es hes =>
      (yields_fieldDefinition hP).many.between.opt.bind fun fields hf => .pure ?_
  have hall := forall_getD hf
  have fits : ∀ {h : kind.hasFields = false}, False := fun {h} => by
    rw [hk] at h
    cases h
  exact ⟨TypeDefinition.isWellFormed_iff.2 ⟨hn, forall_getD hi, fun e he => (hes e he).1,
      fun f hf => (hall f hf).1, nofun,
      TypeDefinition.fitsKind_iff.2 ⟨fun h => (fits (h := h)).elim, fun _ => rfl⟩⟩,
    List.forall_mem_append.2 ⟨List.forall_mem_flatMap.2 fun e he => (hes e he).2,
      List.forall_mem_flatMap.2 fun f hf => (hall f hf).2⟩⟩

theorem yields_enumDefinition (extends? : Bool) : Yields (enumDefinition extends?) fun t =>
    t.isWellFormed = true ∧ ∀ v ∈ t.values, P v :=
  (yields_token yields_name).bind fun _ hn => (yields_directives hP).bind fun _ hes =>
    yields_enumMember.many.between.opt.bind fun _ hm =>
      .pure (isWellFormed_of_noFields rfl rfl hn hes (forall_getD hm) nofun)

theorem yields_unionDefinition (extends? : Bool) : Yields (unionDefinition extends?) fun t =>
    t.isWellFormed = true ∧ ∀ v ∈ t.values, P v :=
  (yields_token yields_name).bind fun _ hn => (yields_directives hP).bind fun _ hes =>
    yields_unionMembers.opt.bind fun _ hm =>
      .pure (isWellFormed_of_noFields rfl rfl hn hes (forall_getD hm) nofun)

theorem yields_scalarDefinition (extends? : Bool) : Yields (scalarDefinition extends?) fun t =>
    t.isWellFormed = true ∧ ∀ v ∈ t.values, P v :=
  (yields_token yields_name).bind fun _ hn => (yields_directives hP).bind fun _ hes =>
    .pure (isWellFormed_of_noFields rfl rfl hn hes nofun fun _ => rfl)

/-- What is declared, if anything is, is well-formed, whichever keyword it has. -/
theorem yields_definitionOf (keyword : String) (extends? : Bool) :
    Yields (definitionOf keyword extends?) fun o =>
      ∀ t ∈ o, t.isWellFormed = true ∧ ∀ v ∈ t.values, P v := by
  have declared : ∀ {p : Parser TypeDefinition} {Q : TypeDefinition → Prop}, Yields p Q →
      Yields (some <$> p) fun o => ∀ t ∈ o, Q t :=
    fun h => h.map fun _ ht _ he => Option.some.inj he ▸ ht
  have nothing : ∀ (p : Parser Unit) {Q : TypeDefinition → Prop}, Yields ((fun _ => none) <$> p)
      fun o : Option TypeDefinition => ∀ t ∈ o, Q t :=
    fun p _ => (Yields.any p).map fun _ _ => nofun
  have fields {kind : TypeKind} (hk : kind.hasFields = true) :=
    declared (yields_fieldsDefinition hP hk extends?)
  exact (fields rfl).ite ((fields rfl).ite ((fields rfl).ite
    ((declared (yields_enumDefinition hP extends?)).ite
      ((declared (yields_unionDefinition hP extends?)).ite
        ((declared (yields_scalarDefinition hP extends?)).ite
          ((nothing _).ite ((nothing _).ite nofun)))))))

theorem yields_definition : Yields definition fun o =>
    ∀ t ∈ o, t.isWellFormed = true ∧ ∀ v ∈ t.values, P v :=
  .after fun _ => .after fun keyword =>
    (Yields.after fun extended => yields_definitionOf hP extended true).ite
      (yields_definitionOf hP keyword false)

end

end ApiCompiler.Schema

namespace ApiCompiler.Document

open Schema ApiCompiler.Parser

/-- Every definition that is read is well-formed, and every value in it has the properties of what
is read as a value. -/
theorem forall_of_parse {P : Value → Prop} (hP : Yields value P) {text : String} {d : Document}
    (h : parse text = .ok d) :
    ∀ t ∈ d.definitions, t.isWellFormed = true ∧ ∀ v ∈ t.values, P v := by
  rw [parse] at h
  split at h
  · next definitions he =>
    cases h
    intro t ht
    obtain rfl : (collect definition text.toList).1.filterMap id = definitions :=
      congrArg Prod.fst he
    obtain ⟨o, ho, hot⟩ := List.mem_filterMap.1 ht
    exact (yields_definition hP).many text.toList _ _ rfl o ho t hot
  · cases h

/-- **A text is only ever read as a well-formed document.** -/
theorem isWellFormed_of_parse {text : String} {d : Document} (h : parse text = .ok d) :
    d.isWellFormed = true :=
  isWellFormed_iff_forall.2 fun t ht => (forall_of_parse (Yields.any value) h t ht).1

end ApiCompiler.Document
