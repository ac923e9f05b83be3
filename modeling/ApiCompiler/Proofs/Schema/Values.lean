import ApiCompiler.Proofs.Schema.Tokens

/-!
# Schema — reading printed values, directives and types

* `value_append`, `directives_append`, `typeRef_append`: each is read off its own text, and the
  rest of the text is left.
* `Value.induct`: induction on values, with what holds of every item and of every field.
-/

namespace ApiCompiler

/-! ### Printed lists -/

theorem length_le_joined (separator : List Char) {w : List Char} {parts : List (List Char)}
    (h : w ∈ parts) : w.length ≤ (joined separator parts).length := by
  have hrest : ∀ rest : List (List Char), w ∈ rest →
      w.length ≤ (rest.flatMap fun r => separator ++ r).length := by
    intro rest hw
    induction rest with
    | nil => cases hw
    | cons r rest ih =>
      rw [List.flatMap_cons, List.length_append, List.length_append]
      rcases List.mem_cons.1 hw with rfl | hw
      · omega
      · have := ih hw
        omega
  cases parts with
  | nil => cases h
  | cons part rest =>
    rw [joined, List.length_append]
    rcases List.mem_cons.1 h with rfl | h
    · omega
    · have := hrest rest h
      omega

namespace Value

theorem printItems_eq (vs : List Value) : printItems vs = vs.map print := by
  induction vs with
  | nil => rfl
  | cons v vs ih => rw [printItems, ih, List.map_cons]

/-- A named value as it is written. -/
def printField (p : String × Value) : List Char := p.1.toList ++ (": ".toList ++ p.2.print)

theorem printFields_eq (fields : List (String × Value)) :
    printFields fields = fields.map printField := by
  induction fields with
  | nil => rfl
  | cons p rest ih => rw [printFields, ih, List.map_cons, printField, List.append_assoc]

theorem length_print_item {v : Value} {items : List Value} (h : v ∈ items) :
    v.print.length < (list items).print.length := by
  have := length_le_joined ", ".toList (List.mem_map_of_mem (f := print) h)
  rw [print, printItems_eq, List.length_append, List.length_cons]
  omega

theorem length_print_field {p : String × Value} {fields : List (String × Value)}
    (h : p ∈ fields) : p.2.print.length < (object fields).print.length := by
  have := length_le_joined ", ".toList (List.mem_map_of_mem (f := printField) h)
  have hp : p.2.print.length ≤ (printField p).length := by
    rw [printField, List.length_append, List.length_append]
    omega
  rw [print, printFields_eq, List.length_append, List.length_cons]
  omega

/-- A property of values holds of all of them if it passes from the items of a list to the list
and from the values of an object to the object. -/
theorem induct {P : Value → Prop} (null : P null) (boolean : ∀ b, P (boolean b))
    (int : ∀ n, P (int n)) (float : ∀ x, P (float x)) (string : ∀ s, P (string s))
    (enumeral : ∀ s, P (enumeral s))
    (list : ∀ items, (∀ v ∈ items, P v) → P (list items))
    (object : ∀ fields : List (String × Value), (∀ p ∈ fields, P p.2) → P (object fields)) :
    ∀ v, P v
  | .null          => null
  | .boolean b     => boolean b
  | .int n         => int n
  | .float x       => float x
  | .string s      => string s
  | .enumeral s    => enumeral s
  | .list items    => list items fun v _ =>
    induct null boolean int float string enumeral list object v
  | .object fields => object fields fun p h =>
    have : sizeOf p.2 < sizeOf p := by
      rcases p with ⟨k, v⟩
      simp only [Prod.mk.sizeOf_spec]
      omega
    have : sizeOf p < sizeOf fields := List.sizeOf_lt_of_mem h
    induct null boolean int float string enumeral list object p.2

theorem isReadable_of_isPrintable {v : Value} (h : v.isPrintable = true) :
    v.isReadable = true := by
  induction v using induct with
  | null | boolean _ | int _ | enumeral _ => rfl
  | float _ => cases h
  | string _ => exact h
  | list items ih =>
    rw [isPrintable, isPrintableItems_eq, List.all_eq_true] at h
    rw [isReadable, isReadableItems_eq, List.all_eq_true]
    exact fun v hv => ih v hv (h v hv)
  | object fields ih =>
    rw [isPrintable, isPrintableFields_eq, List.all_eq_true] at h
    rw [isReadable, isReadableFields_eq, List.all_eq_true]
    exact fun p hp => ih p hp (h p hp)

end Value

namespace Schema

open ApiCompiler.Parser

/-! ### Values -/

theorem visible_printInt (n : Int) : Visible (printInt n) := by
  cases n with
  | ofNat n => exact (isDigits_toDigits n).visible
  | negSucc n => exact visible_cons (by decide) (by decide) _

/-- The text of a value starts with the value. -/
theorem visible_print {v : Value} (hw : v.isWellFormed = true) : Visible v.print := by
  cases v with
  | null => exact visible_cons (by decide) (by decide) _
  | boolean b => cases b <;> exact visible_cons (by decide) (by decide) _
  | int n => exact visible_printInt n
  | float x => exact visible_toText x
  | string s => exact visible_cons (by decide) (by decide) _
  | enumeral s =>
    exact visible_of_isName (Value.isWellFormed_enumeral_iff.1 hw).1
  | list items => exact visible_cons (by decide) (by decide) _
  | object fields => exact visible_cons (by decide) (by decide) _

theorem many_of_collect {α : Type} {p : Parser α} {s r : List Char} {as : List α}
    (h : collect p s = (as, r)) : many p s = some (as, r) :=
  congrArg some h

/-- The word of an enum value is read as no other value. -/
theorem wordValue_enumeral {n : String} (h : (Value.enumeral n).isWellFormed = true) :
    wordValue n = .enumeral n := by
  obtain ⟨-, htrue, hfalse, hnull⟩ := Value.isWellFormed_enumeral_iff.1 h
  rw [wordValue, if_neg htrue, if_neg hfalse, if_neg hnull]

/-- A word that stands where a value may is read as one. -/
theorem valueWithin_name {n : String} (hn : isName n = true) (depth : Nat) {r : List Char}
    (hr : Breaks r) : valueWithin (depth + 1) (n.toList ++ r) = some (wordValue n, r) := by
  obtain ⟨c, w, hw, hc, -⟩ := isName_toList hn
  have hne : ∀ d, isNameStart d = false → (n.toList ++ r).head? ≠ some d := by
    intro d hd e
    rw [hw] at e
    exact ne_of_isNameStart hc hd (Option.some.inj e)
  have hnumber : number (n.toList ++ r) = none := by
    refine number_of_head? fun d hd => ?_
    rw [hw] at hd
    cases hd
    exact ⟨isDigit_of_isNameStart hc, ne_of_isNameStart hc (by decide)⟩
  rw [valueWithin, orElse_of_none hnumber,
    orElse_of_none (map_of_none (blockString_of_head?_ne (hne _ (by decide))) _),
    orElse_of_none (map_of_none (string_of_head?_ne (hne _ (by decide))) _),
    orElse_of_none (map_of_none (between_of_none (char_of_head?_ne (hne _ (by decide)))) _),
    orElse_of_none (map_of_none (between_of_none (char_of_head?_ne (hne _ (by decide)))) _),
    map_of_some (name_append hn hr)]

/-- A bracket starts neither a number nor a text. -/
theorem valueWithin_bracket {c : Char} (hc : c = '[' ∨ c = '\x7b' ∨ c = ']') (depth : Nat)
    (s : List Char) :
    valueWithin (depth + 1) (c :: s) =
      (Value.list <$> between (char '[') (many (token (valueWithin depth))) (symbol ']')
        <|> Value.object <$>
          between (char '\x7b') (many (argument (valueWithin depth))) (symbol '\x7d')
        <|> wordValue <$> name) (c :: s) := by
  have hn : c.isDigit = false ∧ c ≠ '-' := by rcases hc with rfl | rfl | rfl <;> decide
  have hq : (c :: s).head? ≠ some '"' := by rcases hc with rfl | rfl | rfl <;> exact nofun
  rw [valueWithin, orElse_of_none (number_of_head? (by rintro d ⟨⟩; exact hn)),
    orElse_of_none (map_of_none (blockString_of_head?_ne hq) _),
    orElse_of_none (map_of_none (string_of_head?_ne hq) _)]

/-- Where a list ends, no further item is read. -/
theorem token_valueWithin_close (depth : Nat) (s : List Char) :
    token (valueWithin depth) (']' :: s) = none := by
  rw [(visible_cons (by decide) (by decide) s).token]
  cases depth with
  | zero => rfl
  | succ depth =>
    rw [valueWithin_bracket (.inr (.inr rfl)),
      orElse_of_none (map_of_none (between_of_none (char_of_head?_ne (by simp))) _),
      orElse_of_none (map_of_none (between_of_none (char_of_head?_ne (by simp))) _),
      map_of_none (name_of_head? (by rintro d ⟨⟩; rfl))]

/-- Values are read back up to a closing bracket. -/
theorem many_token_append {depth : Nat} {items : List Value}
    (hv : ∀ v ∈ items, Visible v.print)
    (hp : ∀ v ∈ items, ∀ r, Breaks r → valueWithin depth (v.print ++ r) = some (v, r))
    (r : List Char) :
    many (token (valueWithin depth)) (joined ", ".toList (items.map Value.print) ++ ']' :: r)
      = some (items, ']' :: r) := by
  refine many_of_collect ((collect_joined (g := id) (B := Breaks) (skips_token _)
    (by decide) ?_ ?_ ?_ (breaks_cons (by decide) (by decide) (by decide) _)
    (token_valueWithin_close depth r)).trans (by rw [List.map_id]))
  · exact fun v h => (hv v h).ne_nil
  · intro v h r hr
    rw [((hv v h).append r).token]
    exact hp v h r hr
  · exact fun v _ r => breaks_cons (by decide) (by decide) (by decide) _

theorem skips_argument (p : Parser Value) : Skips isSeparator (argument p) :=
  (skips_token name).bind _

/-- A named value is read back where its value is. -/
theorem argument_append {p : Parser Value} {k : String} {v : Value} (hk : isName k = true)
    (hv : Visible v.print) {r : List Char} (hp : p (v.print ++ r) = some (v, r)) :
    argument p (Value.printField (k, v) ++ r) = some ((k, v), r) := by
  have hs : Value.printField (k, v) ++ r = k.toList ++ ':' :: ' ' :: (v.print ++ r) := by
    rw [Value.printField, List.append_assoc, List.append_assoc]
    rfl
  have hcolon : Breaks (':' :: ' ' :: (v.print ++ r)) :=
    breaks_cons (by decide) (by decide) (by decide) _
  have htoken : token p (' ' :: (v.print ++ r)) = some (v, r) := by
    rw [skips_token p ' ' rfl, (hv.append r).token, hp]
  rw [hs, argument, bind_of_some (token_name_append hk hcolon),
    bind_of_some (symbol_cons (by decide) (by decide) _), bind_of_some htoken, pure_apply]

/-- Named values are read back up to a closing parenthesis or brace. -/
theorem many_argument_append {p : Parser Value} {fields : List (String × Value)} {c : Char}
    (hc : c = ')' ∨ c = '\x7d') (hk : ∀ q ∈ fields, isName q.1 = true)
    (hv : ∀ q ∈ fields, Visible q.2.print)
    (hp : ∀ q ∈ fields, ∀ r, Breaks r → p (q.2.print ++ r) = some (q.2, r)) (r : List Char) :
    many (argument p) (joined ", ".toList (fields.map Value.printField) ++ c :: r)
      = some (fields, c :: r) := by
  have hbreaks : Breaks (c :: r) := by
    rcases hc with rfl | rfl <;> exact breaks_cons (by decide) (by decide) (by decide) _
  have hvisible : Visible (c :: r) := by
    rcases hc with rfl | rfl <;> exact visible_cons (by decide) (by decide) _
  have hend : argument p (c :: r) = none := by
    refine bind_of_none (token_name_of_upcoming ?_) _
    rw [hvisible.upcoming]
    rintro d ⟨⟩
    rcases hc with rfl | rfl <;> rfl
  refine many_of_collect ((collect_joined (g := id) (B := Breaks) (skips_argument p)
    (by decide) ?_ ?_ ?_ hbreaks hend).trans (by rw [List.map_id]))
  · exact fun q hq => ((visible_of_isName (hk q hq)).append _).ne_nil
  · exact fun q hq r hr => argument_append (hk q hq) (hv q hq) (hp q hq r hr)
  · exact fun q hq r => breaks_cons (by decide) (by decide) (by decide) _

/-- No value has an empty text. -/
theorem depth_eq_succ {v : Value} (hw : v.isWellFormed = true) {depth : Nat}
    (hd : v.print.length ≤ depth) : ∃ d, depth = d + 1 := by
  have := List.length_pos_iff.2 (visible_print hw).ne_nil
  exact ⟨depth - 1, by omega⟩

/-- A value is read back to any depth that its text does not exceed. -/
theorem valueWithin_append {v : Value} (hw : v.isWellFormed = true) (hp : v.isReadable = true)
    {depth : Nat} (hd : v.print.length ≤ depth) {r : List Char} (hr : Breaks r) :
    valueWithin depth (v.print ++ r) = some (v, r) := by
  induction v using Value.induct generalizing depth r with
  | null =>
    obtain ⟨depth, rfl⟩ := depth_eq_succ hw hd
    exact valueWithin_name (n := "null") (by decide) depth hr
  | boolean b =>
    obtain ⟨depth, rfl⟩ := depth_eq_succ hw hd
    cases b with
    | false => exact valueWithin_name (n := "false") (by decide) depth hr
    | true => exact valueWithin_name (n := "true") (by decide) depth hr
  | int n =>
    obtain ⟨depth, rfl⟩ := depth_eq_succ hw hd
    exact orElse_of_some (number_append hw hr) _
  | float x =>
    obtain ⟨depth, rfl⟩ := depth_eq_succ hw hd
    exact orElse_of_some (number_toText hp hr) _
  | string s =>
    obtain ⟨depth, rfl⟩ := depth_eq_succ hw hd
    rw [Value.isReadable, List.all_eq_true] at hp
    have hnumber : number (Text.quoteChars s.toList ++ r) = none :=
      number_of_head? (by rintro c ⟨⟩; decide)
    rw [Value.print, valueWithin, orElse_of_none hnumber,
      orElse_of_none (map_of_none (blockString_quoteChars _ hr) _),
      orElse_of_some (map_of_some (string_append hp r) _), String.ofList_toList]
  | enumeral s =>
    obtain ⟨depth, rfl⟩ := depth_eq_succ hw hd
    rw [Value.print, valueWithin_name (Value.isWellFormed_enumeral_iff.1 hw).1 depth hr,
      wordValue_enumeral hw]
  | list items ih =>
    obtain ⟨depth, rfl⟩ := depth_eq_succ hw hd
    have hw := Value.isWellFormed_list_iff.1 hw
    rw [Value.isReadable, Value.isReadableItems_eq, List.all_eq_true] at hp
    have hlength : ∀ v ∈ items, v.print.length ≤ depth := fun v hv =>
      Nat.le_of_lt_succ (Nat.lt_of_lt_of_le (Value.length_print_item hv) hd)
    rw [Value.print, Value.printItems_eq]
    have hitems := many_token_append (fun v hv => visible_print (hw v hv))
      (fun v hv r hr => ih v hv (hw v hv) (hp v hv) (hlength v hv) hr) r
    have hs : '[' :: joined ", ".toList (items.map Value.print) ++ [']'] ++ r
        = '[' :: (joined ", ".toList (items.map Value.print) ++ ']' :: r) := by simp
    rw [hs, valueWithin_bracket (.inl rfl)]
    exact orElse_of_some (map_of_some (between_of_some (char_cons _ _) hitems
      (symbol_cons (by decide) (by decide) r)) _) _
  | object fields ih =>
    obtain ⟨depth, rfl⟩ := depth_eq_succ hw hd
    have hw := Value.isWellFormed_object_iff.1 hw
    rw [Value.isReadable, Value.isReadableFields_eq, List.all_eq_true] at hp
    have hlength : ∀ q ∈ fields, q.2.print.length ≤ depth := fun q hq =>
      Nat.le_of_lt_succ (Nat.lt_of_lt_of_le (Value.length_print_field hq) hd)
    rw [Value.print, Value.printFields_eq]
    have hs : '\x7b' :: joined ", ".toList (fields.map Value.printField) ++ ['\x7d'] ++ r
        = '\x7b' :: (joined ", ".toList (fields.map Value.printField) ++ '\x7d' :: r) := by simp
    have hfields := many_argument_append (p := valueWithin depth) (.inr rfl)
      (fun q hq => (hw q hq).1) (fun q hq => visible_print (hw q hq).2)
      (fun q hq r hr => ih q hq (hw q hq).2 (hp q hq) (hlength q hq) hr) r
    rw [hs, valueWithin_bracket (.inr (.inl rfl)),
      orElse_of_none (map_of_none (between_of_none (char_of_head?_ne (by simp))) _)]
    exact orElse_of_some (map_of_some (between_of_some (char_cons _ _) hfields
      (symbol_cons (by decide) (by decide) r)) _) _

/-- **A value is read back**, where it is well-formed and readable. -/
theorem value_append {v : Value} (hw : v.isWellFormed = true) (hp : v.isReadable = true)
    {r : List Char} (hr : Breaks r) : value (v.print ++ r) = some (v, r) := by
  refine valueWithin_append hw hp ?_ hr
  rw [List.length_append]
  exact Nat.le_add_right _ _

/-! ### Directives -/

/-- The arguments of a directive as they are written. -/
def printArguments (fields : List (String × Value)) : List Char :=
  if fields.isEmpty then []
  else '(' :: joined ", ".toList (Value.printFields fields) ++ [')']

/-- The arguments of a directive are read back, none where no parenthesis opens. -/
theorem arguments_append {fields : List (String × Value)}
    (hw : ∀ q ∈ fields, isName q.1 = true ∧ q.2.isWellFormed = true)
    (hp : Value.isReadableFields fields = true)
    {r : List Char} (hr : upcoming r ≠ some '(') :
    ∃ arguments, opt (between (symbol '(') (many (argument value)) (symbol ')'))
        (printArguments fields ++ r) = some (arguments, r) ∧ arguments.getD [] = fields := by
  rw [Value.isReadableFields_eq, List.all_eq_true] at hp
  cases fields with
  | nil => exact ⟨none, opt_of_none (between_of_none (symbol_of_upcoming_ne hr)), rfl⟩
  | cons q rest =>
    have hs : printArguments (q :: rest) ++ r
        = '(' :: (joined ", ".toList ((q :: rest).map Value.printField) ++ ')' :: r) := by
      simp [printArguments, Value.printFields_eq]
    have hfields := many_argument_append (p := value) (.inl rfl)
      (fun q hq => (hw q hq).1) (fun q hq => visible_print (hw q hq).2)
      (fun q hq r hr => value_append (hw q hq).2 (hp q hq) hr) r
    rw [hs]
    exact ⟨some (q :: rest), opt_of_some (between_of_some (symbol_cons (by decide) (by decide) _)
      hfields (symbol_cons (by decide) (by decide) r)), rfl⟩

theorem directive_print (d : Directive) (r : List Char) :
    d.print ++ r = ' ' :: '@' :: (d.name.toList ++ (printArguments d.arguments ++ r)) := by
  simp [Directive.print, printArguments]

theorem breaks_arguments (fields : List (String × Value)) {r : List Char} (hr : Breaks r) :
    Breaks (printArguments fields ++ r) := by
  unfold printArguments
  split
  · exact hr
  · exact breaks_cons (by decide) (by decide) (by decide) _

theorem breaks_directive (d : Directive) (r : List Char) :
    Breaks (d.print ++ r) ∧ upcoming (d.print ++ r) ≠ some '(' := by
  rw [directive_print, upcoming_separator rfl, (visible_cons (by decide) (by decide) _).upcoming]
  exact ⟨breaks_cons (by decide) (by decide) (by decide) _, by simp⟩

/-- A directive is read back, where no arguments follow that are none of it. -/
theorem directive_append {d : Directive} (hw : d.isWellFormed = true) (hp : d.isReadable = true)
    {r : List Char} (hb : Breaks r) (hr : upcoming r ≠ some '(') :
    token directive (d.print ++ r) = some (d, r) := by
  obtain ⟨hname, hfields⟩ := Directive.isWellFormed_iff.1 hw
  obtain ⟨arguments, ha, hd⟩ := arguments_append hfields hp hr
  rw [directive_print, skips_token directive ' ' rfl,
    (visible_cons (by decide) (by decide) _).token, directive, bind_of_some (char_cons _ _),
    bind_of_some (name_append hname (breaks_arguments _ hb)), bind_of_some ha, pure_apply, hd]

theorem breaks_directives {r : List Char} (hr : Breaks r) (ds : List Directive) :
    Breaks (printDirectives ds ++ r) := by
  cases ds with
  | nil => exact hr
  | cons d ds =>
    rw [printDirectives, List.flatMap_cons, List.append_assoc, directive_print]
    exact breaks_cons (by decide) (by decide) (by decide) _

/-- What comes after directives, or an at sign, comes next where they stand. -/
theorem upcoming_directives (ds : List Directive) (r : List Char) :
    upcoming (printDirectives ds ++ r) = upcoming r
      ∨ upcoming (printDirectives ds ++ r) = some '@' := by
  cases ds with
  | nil => exact .inl rfl
  | cons d ds =>
    refine .inr ?_
    rw [printDirectives, List.flatMap_cons, List.append_assoc, directive_print,
      upcoming_separator rfl]
    exact (visible_cons (by decide) (by decide) _).upcoming

/-- **Directives are read back**, where neither another one nor arguments follow. -/
theorem directives_append (ds : List Directive) (hw : ∀ d ∈ ds, d.isWellFormed = true)
    (hp : ∀ d ∈ ds, d.isReadable = true) {r : List Char} (hb : Breaks r)
    (hr : upcoming r ≠ some '(') (hat : upcoming r ≠ some '@') :
    directives (printDirectives ds ++ r) = some (ds, r) := by
  have hend : token directive r = none := by
    rw [token_apply]
    exact bind_of_none (char_of_head?_ne hat) _
  refine many_of_collect ((collect_flatMap (g := id)
    (B := fun r => Breaks r ∧ upcoming r ≠ some '(') ?_ ?_ ?_ ⟨hb, hr⟩ hend).trans
    (by rw [List.map_id]))
  · intro d _ h
    have := directive_print d []
    rw [h] at this
    cases this
  · exact fun d hd r hr => directive_append (hw d hd) (hp d hd) hr.1 hr.2
  · exact fun d _ r => breaks_directive d r

/-! ### Types -/

/-- Reads a reference to a type up to the mark that excludes null. -/
def nullableWithin (depth : Nat) : Parser TypeRef :=
  TypeRef.named <$> name
  <|> TypeRef.list <$> between (char '[') (token (typeRefWithin depth)) (symbol ']')

theorem typeRefWithin_succ (depth : Nat) :
    typeRefWithin (depth + 1) = (do
      let base ← nullableWithin depth
      let bang ← opt (symbol '!')
      return if bang.isSome then .nonNull base else base) := rfl

theorem visible_typeRef {t : TypeRef} (h : t.isWellFormed = true) : Visible t.print := by
  induction t with
  | named n => exact visible_of_isName h
  | list t ih => exact visible_cons (by decide) (by decide) _
  | nonNull t ih =>
    rw [TypeRef.isWellFormed, Bool.and_eq_true] at h
    exact (ih h.2).append _

theorem typeRef_depth_eq_succ {t : TypeRef} (h : t.isWellFormed = true) {depth : Nat}
    (hd : t.print.length ≤ depth) : ∃ d, depth = d + 1 := by
  have := List.length_pos_iff.2 (visible_typeRef h).ne_nil
  exact ⟨depth - 1, by omega⟩

/-- A reference without a mark is read as far as it would be before one. -/
theorem typeRefWithin_of_nullable {t : TypeRef} (hw : t.isWellFormed = true)
    (h : ∀ depth r, t.print.length ≤ depth + 1 → Breaks r →
      nullableWithin depth (t.print ++ r) = some (t, r))
    {depth : Nat} {r : List Char} (hd : t.print.length ≤ depth) (hb : Breaks r)
    (hr : upcoming r ≠ some '!') : typeRefWithin depth (t.print ++ r) = some (t, r) := by
  obtain ⟨depth, rfl⟩ := typeRef_depth_eq_succ hw hd
  rw [typeRefWithin_succ, bind_of_some (h depth r hd hb),
    bind_of_some (opt_of_none (symbol_of_upcoming_ne hr)), pure_apply]
  rfl

/-- A reference is read back, and one without a mark also before a mark. -/
theorem typeRefWithin_append {t : TypeRef} (hw : t.isWellFormed = true) :
    (t.isNonNull = false → ∀ depth r, t.print.length ≤ depth + 1 → Breaks r →
      nullableWithin depth (t.print ++ r) = some (t, r)) ∧
    (∀ depth r, t.print.length ≤ depth → Breaks r → upcoming r ≠ some '!' →
      typeRefWithin depth (t.print ++ r) = some (t, r)) := by
  induction t with
  | named n =>
    have h : ∀ depth r, (TypeRef.named n).print.length ≤ depth + 1 → Breaks r →
        nullableWithin depth ((TypeRef.named n).print ++ r) = some (.named n, r) := by
      intro depth r _ hb
      exact orElse_of_some (map_of_some (name_append hw hb) _) _
    exact ⟨fun _ => h, fun _ _ => typeRefWithin_of_nullable hw h⟩
  | list t ih =>
    have h : ∀ depth r, t.list.print.length ≤ depth + 1 → Breaks r →
        nullableWithin depth (t.list.print ++ r) = some (t.list, r) := by
      intro depth r hd _
      have hw : t.isWellFormed = true := hw
      have hs : t.list.print ++ r = '[' :: (t.print ++ ']' :: r) := by simp [TypeRef.print]
      have hd : t.print.length ≤ depth := by
        rw [TypeRef.print, List.length_append, List.length_cons] at hd
        omega
      have hinner : token (typeRefWithin depth) (t.print ++ ']' :: r) = some (t, ']' :: r) := by
        rw [((visible_typeRef hw).append _).token]
        refine (ih hw).2 depth _ hd (breaks_cons (by decide) (by decide) (by decide) _) ?_
        rw [(visible_cons (by decide) (by decide) _).upcoming]
        simp
      have hname : name ('[' :: (t.print ++ ']' :: r)) = none :=
        name_of_head? (by rintro c ⟨⟩; rfl)
      rw [hs, nullableWithin, orElse_of_none (map_of_none hname _)]
      exact map_of_some (between_of_some (char_cons _ _) hinner
        (symbol_cons (by decide) (by decide) r)) _
    exact ⟨fun _ => h, fun _ _ => typeRefWithin_of_nullable hw h⟩
  | nonNull t ih =>
    refine ⟨nofun, fun depth r hd hb hr => ?_⟩
    obtain ⟨depth, rfl⟩ := typeRef_depth_eq_succ hw hd
    rw [TypeRef.isWellFormed, Bool.and_eq_true, Bool.not_eq_true'] at hw
    have hs : t.nonNull.print ++ r = t.print ++ '!' :: r := by simp [TypeRef.print]
    have hd : t.print.length ≤ depth + 1 := by
      rw [TypeRef.print, List.length_append] at hd
      omega
    have hinner := (ih hw.2).1 hw.1 depth ('!' :: r) hd
      (breaks_cons (by decide) (by decide) (by decide) _)
    rw [hs, typeRefWithin_succ, bind_of_some hinner,
      bind_of_some (opt_of_some (symbol_cons (by decide) (by decide) r)), pure_apply]
    rfl

/-- **A reference to a type is read back**, where no mark follows that excludes null. -/
theorem typeRef_append {t : TypeRef} (hw : t.isWellFormed = true) {r : List Char}
    (hb : Breaks r) (hr : upcoming r ≠ some '!') : typeRef (t.print ++ r) = some (t, r) := by
  refine (typeRefWithin_append hw).2 _ r ?_ hb hr
  rw [List.length_append]
  exact Nat.le_add_right _ _

end Schema

end ApiCompiler
