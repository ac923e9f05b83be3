import ApiCompiler.Proofs.Schema.Accepted
import ApiCompiler.Proofs.Schema.RoundTrip

/-!
# Schema — only readable documents are read back

The converse of the round trip. Where a value, or what a definition is made of, has been read off
its own text, its text is that of no other one; then no more has been read than its text, and what
stands behind it has been read off its own text too.

* `isReadable_of_value`, `isReadable_of_directives`, `isReadable_of_definitionOf`: one such
  statement for each part of a document.
* `Document.parse_toText_iff`: the documents that are read back from their texts.
-/

namespace ApiCompiler.Schema

open ApiCompiler.Parser

theorem collect_of_many {α : Type} {p : Parser α} {s r : List Char} {as : List α}
    (h : many p s = some (as, r)) : collect p s = (as, r) :=
  Option.some.inj h

/-! ### Values -/

/-- What has been read as a value: a number, a text, a list, an object or a word. -/
theorem cases_of_valueWithin {depth : Nat} {s r : List Char} {v : Value}
    (h : valueWithin (depth + 1) s = some (v, r)) :
    number s = some (v, r)
      ∨ (∃ t, (blockString s = some (t, r) ∨ string s = some (t, r)) ∧ Value.string t = v)
      ∨ (∃ items, between (char '[') (many (token (valueWithin depth))) (symbol ']') s
          = some (items, r) ∧ Value.list items = v)
      ∨ (∃ fields, between (char '\x7b') (many (argument (valueWithin depth))) (symbol '\x7d') s
          = some (fields, r) ∧ Value.object fields = v)
      ∨ ∃ n, name s = some (n, r) ∧ wordValue n = v := by
  rcases or_of_orElse h with h | h
  · exact .inl h
  rcases or_of_orElse h with h | h
  · obtain ⟨t, ht, he⟩ := exists_of_map h
    exact .inr (.inl ⟨t, .inl ht, he⟩)
  rcases or_of_orElse h with h | h
  · obtain ⟨t, ht, he⟩ := exists_of_map h
    exact .inr (.inl ⟨t, .inr ht, he⟩)
  rcases or_of_orElse h with h | h
  · exact .inr (.inr (.inl (exists_of_map h)))
  rcases or_of_orElse h with h | h
  · exact .inr (.inr (.inr (.inl (exists_of_map h))))
  · exact .inr (.inr (.inr (.inr (exists_of_map h))))

theorem isReadable_wordValue (n : String) : (wordValue n).isReadable = true := by
  unfold wordValue
  split
  · rfl
  · split
    · rfl
    · split <;> rfl

/-- A bracket starts no number. -/
theorem number_bracket {c : Char} (hc : c = '[' ∨ c = '\x7b') (s : List Char) :
    number (c :: s) = none := by
  refine number_of_head? ?_
  rintro d ⟨⟩
  rcases hc with rfl | rfl <;> decide

/-- What has been read as a list has its items read behind the bracket. -/
theorem exists_of_valueWithin_list {depth : Nat} {s r : List Char} {items : List Value}
    (h : valueWithin (depth + 1) ('[' :: s) = some (.list items, r)) :
    ∃ u, many (token (valueWithin depth)) s = some (items, u) := by
  rcases cases_of_valueWithin h with h | ⟨_, _, he⟩ | ⟨_, h, he⟩ | ⟨_, _, he⟩ | ⟨n, hn, _⟩
  · rw [number_bracket (.inl rfl)] at h
    cases h
  · cases he
  · cases he
    obtain ⟨_, u, ho, hmany, -⟩ := exists_of_between h
    rw [char_cons] at ho
    cases ho
    exact ⟨u, hmany⟩
  · cases he
  · rw [name_of_head? (by rintro c ⟨⟩; rfl)] at hn
    cases hn

/-- What has been read as an object has its fields read behind the brace. -/
theorem exists_of_valueWithin_object {depth : Nat} {s r : List Char}
    {fields : List (String × Value)}
    (h : valueWithin (depth + 1) ('\x7b' :: s) = some (.object fields, r)) :
    ∃ u, many (argument (valueWithin depth)) s = some (fields, u) := by
  rcases cases_of_valueWithin h with h | ⟨_, _, he⟩ | ⟨_, _, he⟩ | ⟨_, h, he⟩ | ⟨n, hn, _⟩
  · rw [number_bracket (.inr rfl)] at h
    cases h
  · cases he
  · cases he
  · cases he
    obtain ⟨_, u, ho, hmany, -⟩ := exists_of_between h
    rw [char_cons] at ho
    cases ho
    exact ⟨u, hmany⟩
  · rw [name_of_head? (by rintro c ⟨⟩; rfl)] at hn
    cases hn

/-- Values that have been read up to a closing bracket are readable, where each of them is that has
been read off its text. -/
theorem isReadable_of_items {depth : Nat} {items : List Value} {r u : List Char}
    (hw : ∀ v ∈ items, v.isWellFormed = true)
    (hread : ∀ v ∈ items, v.isReadable = true → ∀ r, Breaks r →
      valueWithin depth (v.print ++ r) = some (v, r))
    (hgood : ∀ v ∈ items, ∀ r s, Breaks r → valueWithin depth (v.print ++ r) = some (v, s) →
      v.isReadable = true)
    (h : many (token (valueWithin depth)) (joined ", ".toList (items.map Value.print) ++ ']' :: r)
      = some (items, u)) : ∀ v ∈ items, v.isReadable = true := by
  have htoken : ∀ v ∈ items, ∀ r, token (valueWithin depth) (v.print ++ r)
      = valueWithin depth (v.print ++ r) :=
    fun v hv r => ((visible_print (hw v hv)).append r).token _
  refine forall_of_collect_joined (g := id) (B := Breaks) (skips_token _) (by decide) ?_ ?_ ?_
    (breaks_cons (by decide) (by decide) (by decide) r)
    ((collect_of_many h).trans (by rw [List.map_id]))
  · exact fun v hv hg r hr => (htoken v hv r).trans (hread v hv hg r hr)
  · exact fun v hv r s hr hs => hgood v hv r s hr ((htoken v hv r).symm.trans hs)
  · exact fun v _ r => breaks_cons (by decide) (by decide) (by decide) _

/-- A named value that has been read has its value read off the text of the value. -/
theorem of_argument {p : Parser Value} {k : String} {v : Value} (hk : isName k = true)
    (hv : Visible v.print) {r s : List Char}
    (h : argument p (Value.printField (k, v) ++ r) = some ((k, v), s)) :
    p (v.print ++ r) = some (v, s) := by
  have hs : Value.printField (k, v) ++ r = k.toList ++ ':' :: ' ' :: (v.print ++ r) := by
    rw [Value.printField, List.append_assoc, List.append_assoc]
    rfl
  rw [hs, argument, bind_of_some (token_name_append hk (breaks_cons (by decide) (by decide)
    (by decide) _)), bind_of_some (symbol_cons (by decide) (by decide) _)] at h
  obtain ⟨w, t, hw, h⟩ := exists_of_bind h
  cases h
  rwa [skips_token p ' ' rfl, (hv.append r).token] at hw

/-- Named values that have been read up to a closing parenthesis or brace are readable, where each
of them is that has been read off its text. -/
theorem isReadable_of_arguments {p : Parser Value} {fields : List (String × Value)} {c : Char}
    {r u : List Char} (hc : c = ')' ∨ c = '\x7d')
    (hw : ∀ q ∈ fields, isName q.1 = true ∧ q.2.isWellFormed = true)
    (hread : ∀ q ∈ fields, q.2.isReadable = true → ∀ r, Breaks r →
      p (q.2.print ++ r) = some (q.2, r))
    (hgood : ∀ q ∈ fields, ∀ r s, Breaks r → p (q.2.print ++ r) = some (q.2, s) →
      q.2.isReadable = true)
    (h : many (argument p) (joined ", ".toList (fields.map Value.printField) ++ c :: r)
      = some (fields, u)) : ∀ q ∈ fields, q.2.isReadable = true := by
  have hbreaks : Breaks (c :: r) := by
    rcases hc with rfl | rfl <;> exact breaks_cons (by decide) (by decide) (by decide) _
  have hv : ∀ q ∈ fields, Visible q.2.print := fun q hq => visible_print (hw q hq).2
  refine forall_of_collect_joined (g := id) (B := Breaks) (skips_argument p) (by decide) ?_ ?_ ?_
    hbreaks ((collect_of_many h).trans (by rw [List.map_id]))
  · exact fun q hq hg r hr => argument_append (hw q hq).1 (hv q hq) (hread q hq hg r hr)
  · exact fun q hq r s hr hs => hgood q hq r s hr (of_argument (hw q hq).1 (hv q hq) hs)
  · exact fun q _ r => breaks_cons (by decide) (by decide) (by decide) _

/-- A value that has been read off its text is readable. -/
theorem isReadable_of_valueWithin {v : Value} (hw : v.isWellFormed = true) {depth : Nat}
    (hd : v.print.length ≤ depth) {r s : List Char} (hr : Breaks r)
    (h : valueWithin depth (v.print ++ r) = some (v, s)) : v.isReadable = true := by
  induction v using Value.induct generalizing depth r s with
  | null | boolean _ | int _ | enumeral _ => rfl
  | float x =>
    obtain ⟨depth, rfl⟩ := depth_eq_succ hw hd
    rcases cases_of_valueWithin h with h | ⟨_, _, he⟩ | ⟨_, _, he⟩ | ⟨_, _, he⟩ | ⟨n, _, he⟩
    · exact isReadable_of_number hr h
    · cases he
    · cases he
    · cases he
    · exact he ▸ isReadable_wordValue n
  | string t =>
    obtain ⟨depth, rfl⟩ := depth_eq_succ hw hd
    have hnumber : number (Text.quoteChars t.toList ++ r) = none :=
      number_of_head? (by rintro c ⟨⟩; decide)
    rw [Value.print] at h
    rcases cases_of_valueWithin h with h | ⟨u, hu, he⟩ | ⟨_, _, he⟩ | ⟨_, _, he⟩ | ⟨n, _, he⟩
    · rw [hnumber] at h
      cases h
    · rcases hu with hu | hu
      · rw [blockString_quoteChars _ hr] at hu
        cases hu
      · rw [Value.isReadable, List.all_eq_true]
        exact isWritable_of_string hu
    · cases he
    · cases he
    · exact he ▸ isReadable_wordValue n
  | list items ih =>
    obtain ⟨depth, rfl⟩ := depth_eq_succ hw hd
    have hw := Value.isWellFormed_list_iff.1 hw
    have hlength : ∀ v ∈ items, v.print.length ≤ depth := fun v hv =>
      Nat.le_of_lt_succ (Nat.lt_of_lt_of_le (Value.length_print_item hv) hd)
    have hs : '[' :: joined ", ".toList (items.map Value.print) ++ [']'] ++ r
        = '[' :: (joined ", ".toList (items.map Value.print) ++ ']' :: r) := by simp
    rw [Value.print, Value.printItems_eq, hs] at h
    rw [Value.isReadable, Value.isReadableItems_eq, List.all_eq_true]
    obtain ⟨u, hmany⟩ := exists_of_valueWithin_list h
    exact isReadable_of_items hw
      (fun v hv hg r hr => valueWithin_append (hw v hv) hg (hlength v hv) hr)
      (fun v hv r s hr hs => ih v hv (hw v hv) (hlength v hv) hr hs) hmany
  | object fields ih =>
    obtain ⟨depth, rfl⟩ := depth_eq_succ hw hd
    have hw := Value.isWellFormed_object_iff.1 hw
    have hlength : ∀ q ∈ fields, q.2.print.length ≤ depth := fun q hq =>
      Nat.le_of_lt_succ (Nat.lt_of_lt_of_le (Value.length_print_field hq) hd)
    have hs : '\x7b' :: joined ", ".toList (fields.map Value.printField) ++ ['\x7d'] ++ r
        = '\x7b' :: (joined ", ".toList (fields.map Value.printField) ++ '\x7d' :: r) := by simp
    rw [Value.print, Value.printFields_eq, hs] at h
    rw [Value.isReadable, Value.isReadableFields_eq, List.all_eq_true]
    obtain ⟨u, hmany⟩ := exists_of_valueWithin_object h
    exact isReadable_of_arguments (.inr rfl) hw
      (fun q hq hg r hr => valueWithin_append (hw q hq).2 hg (hlength q hq) hr)
      (fun q hq r s hr hs => ih q hq (hw q hq).2 (hlength q hq) hr hs) hmany

/-- **A value that has been read off its text is readable.** -/
theorem isReadable_of_value {v : Value} (hw : v.isWellFormed = true) {r s : List Char}
    (hr : Breaks r) (h : value (v.print ++ r) = some (v, s)) : v.isReadable = true := by
  refine isReadable_of_valueWithin hw ?_ hr h
  rw [List.length_append]
  exact Nat.le_add_right _ _

/-! ### Directives -/

/-- The arguments of a directive that have been read off their text are readable. -/
theorem isReadableFields_of_opt {fields : List (String × Value)}
    (hw : ∀ q ∈ fields, isName q.1 = true ∧ q.2.isWellFormed = true) {r s : List Char}
    {arguments : Option (List (String × Value))}
    (h : opt (between (symbol '(') (many (argument value)) (symbol ')'))
      (printArguments fields ++ r) = some (arguments, s)) (ha : arguments.getD [] = fields) :
    Value.isReadableFields fields = true := by
  rw [Value.isReadableFields_eq, List.all_eq_true]
  cases arguments with
  | none =>
    cases ha
    exact nofun
  | some arguments =>
    obtain rfl : arguments = fields := ha
    cases arguments with
    | nil => exact nofun
    | cons q rest =>
      have hs : printArguments (q :: rest) ++ r
          = '(' :: (joined ", ".toList ((q :: rest).map Value.printField) ++ ')' :: r) := by
        simp [printArguments, Value.printFields_eq]
      rw [hs] at h
      obtain ⟨t, u, ho, hmany, -⟩ := exists_of_between (of_opt h)
      rw [symbol_cons (by decide) (by decide)] at ho
      cases ho
      exact isReadable_of_arguments (.inl rfl) hw
        (fun p hp hg r hr => value_append (hw p hp).2 hg hr)
        (fun p hp r s hr hs => isReadable_of_value (hw p hp).2 hr hs) hmany

/-- A directive that has been read off its text is readable. -/
theorem isReadable_of_directive {d : Directive} (hw : d.isWellFormed = true) {r s : List Char}
    (hb : Breaks r) (h : token directive (d.print ++ r) = some (d, s)) : d.isReadable = true := by
  obtain ⟨hname, hfields⟩ := Directive.isWellFormed_iff.1 hw
  rw [directive_print, skips_token directive ' ' rfl,
    (visible_cons (by decide) (by decide) _).token, directive, bind_of_some (char_cons _ _),
    bind_of_some (name_append hname (breaks_arguments _ hb))] at h
  obtain ⟨arguments, t, ha, h⟩ := exists_of_bind h
  exact isReadableFields_of_opt hfields ha (congrArg Directive.arguments (eq_of_pure h))

/-- **Directives that have been read off their text are readable.** -/
theorem isReadable_of_directives {ds : List Directive} (hw : ∀ d ∈ ds, d.isWellFormed = true)
    {r s : List Char} (hb : Breaks r) (hr : upcoming r ≠ some '(')
    (h : directives (printDirectives ds ++ r) = some (ds, s)) : ∀ d ∈ ds, d.isReadable = true := by
  refine forall_of_collect_flatMap (g := id) (B := fun r => Breaks r ∧ upcoming r ≠ some '(')
    ?_ ?_ ?_ ⟨hb, hr⟩ ((collect_of_many h).trans (by rw [List.map_id]))
  · exact fun d hd hg r hr => directive_append (hw d hd) hg hr.1 hr.2
  · exact fun d hd r s hr hs => isReadable_of_directive (hw d hd) hr.1 hs
  · exact fun d _ r => breaks_directive d r

/-! ### Arguments and fields -/

/-- A default value that has been read off its text is readable. -/
theorem isReadable_of_default {v : Option Value} (hw : ∀ w ∈ v, w.isWellFormed = true)
    {r s : List Char} (hr : Breaks r)
    (h : opt defaultValue (printDefault v ++ r) = some (v, s)) :
    v.all Value.isReadable = true := by
  cases v with
  | none => rfl
  | some v =>
    have hs : printDefault (some v) ++ r = ' ' :: '=' :: ' ' :: (v.print ++ r) := rfl
    have hdefault := of_opt h
    rw [hs, defaultValue, (skips_symbol '=').bind _ ' ' rfl,
      bind_of_some (symbol_cons (by decide) (by decide) _), skips_token value ' ' rfl,
      ((visible_print (hw v rfl)).append r).token] at hdefault
    exact isReadable_of_value (hw v rfl) hr hdefault

/-- An argument of a field that has been read off its text is readable. -/
theorem isReadable_of_argumentDefinition {a : ArgumentDefinition} (hw : a.isWellFormed = true)
    {r s : List Char} (hr : Ends r) (h : argumentDefinition (a.print ++ r) = some (a, s)) :
    a.isReadable = true := by
  obtain ⟨-, -, hdefault⟩ := ArgumentDefinition.isWellFormed_iff.1 hw
  rw [argumentDefinition_apply hw hr] at h
  obtain ⟨v, t, hv, h⟩ := exists_of_bind h
  obtain ⟨_, u, -, h⟩ := exists_of_bind h
  obtain rfl : v = a.default := congrArg ArgumentDefinition.default (eq_of_pure h)
  exact isReadable_of_default hdefault hr.breaks hv

/-- Arguments of a field that have been read off their text are readable. -/
theorem isReadable_of_argumentDefinitions {as : List ArgumentDefinition}
    (hw : ∀ a ∈ as, a.isWellFormed = true) {r s : List Char}
    {arguments : Option (List ArgumentDefinition)}
    (h : opt argumentDefinitions (printArgumentDefinitions as ++ r) = some (arguments, s))
    (ha : arguments.getD [] = as) : ∀ a ∈ as, a.isReadable = true := by
  cases arguments with
  | none =>
    cases ha
    exact nofun
  | some arguments =>
    obtain rfl : arguments = as := ha
    cases arguments with
    | nil => exact nofun
    | cons a rest =>
      have hs : printArgumentDefinitions (a :: rest) ++ r
          = '(' :: (joined ", ".toList ((a :: rest).map (·.print)) ++ ')' :: r) := by
        simp [printArgumentDefinitions]
      rw [hs] at h
      obtain ⟨t, u, ho, hmany, -⟩ := exists_of_between (of_opt h)
      rw [symbol_cons (by decide) (by decide)] at ho
      cases ho
      refine forall_of_collect_joined (g := id) (B := Ends) (skips_described _) (by decide) ?_ ?_
        ?_ (ends_parenthesis r) ((collect_of_many hmany).trans (by rw [List.map_id]))
      · exact fun b hb hg r hr => argumentDefinition_append (hw b hb) hg hr
      · exact fun b hb r s hr hs => isReadable_of_argumentDefinition (hw b hb) hr hs
      · exact fun b hb r => ends_argumentDefinition (hw b hb) r

/-- **A field that has been read off its text is readable.** -/
theorem isReadable_of_fieldDefinition {f : FieldDefinition} (hw : f.isWellFormed = true)
    {r s : List Char} (hr : Ends r) (h : fieldDefinition (printLine f ++ r) = some (f, s)) :
    f.isReadable = true := by
  obtain ⟨hname, hargs, htype, hds⟩ := FieldDefinition.isWellFormed_iff.1 hw
  rw [fieldDefinition_apply hname] at h
  obtain ⟨arguments, t, ha, h⟩ := exists_of_bind h
  -- what is read behind the arguments does not touch them
  have kept : Yields (fieldRest fun type ds => ⟨f.name, arguments.getD [], type, ds⟩)
      fun g => arguments.getD [] = g.arguments :=
    .after fun _ => .after fun _ => .after fun _ => .after fun _ => .pure rfl
  have hget := kept _ _ _ h
  have readable := isReadable_of_argumentDefinitions hargs ha hget
  obtain ⟨arguments', ha', -⟩ := field_arguments_append hargs readable
    (' ' :: (f.type.print ++ (printDirectives f.directives ++ r)))
  rw [ha'] at ha
  cases ha
  rw [fieldRest_apply _ htype _ hr] at h
  obtain ⟨ds, u, hdirectives, h⟩ := exists_of_bind h
  obtain rfl : ds = f.directives := congrArg FieldDefinition.directives (eq_of_pure h)
  simp only [FieldDefinition.isReadable, Bool.and_eq_true, List.all_eq_true]
  exact ⟨readable, isReadable_of_directives hds hr.breaks
    (hr.upcoming_ne (by decide) (by decide) (by decide)) hdirectives⟩

/-! ### Definitions -/

/-- What stands between braces and has been read off its text is readable, where each line is that
has been read off its own. -/
theorem forall_of_block {α : Type} {f : String → Parser α} {line : α → List Char} {as : List α}
    {Good : α → Prop} (hline : ∀ a ∈ as, ∃ n w, line a = n.toList ++ w ∧ isName n = true)
    (hread : ∀ a ∈ as, Good a → ∀ r, Ends r → described f (line a ++ r) = some (a, r))
    (hgood : ∀ a ∈ as, ∀ r s, Ends r → described f (line a ++ r) = some (a, s) → Good a)
    {r s : List Char} (h : block (described f) (printBlock line as ++ r) = some (as, s)) :
    ∀ a ∈ as, Good a := by
  rw [printBlock_append] at h
  obtain ⟨t, u, ho, hmany, -⟩ := exists_of_between h
  rw [skips_symbol _ ' ' rfl, symbol_cons (by decide) (by decide)] at ho
  cases ho
  refine forall_of_collect_flatMap (g := id) (B := Ends) ?_ ?_ ?_ (ends_brace r)
    ((collect_of_many hmany).trans (by rw [List.map_id]))
  · exact fun a ha hg r hr => (described_line f _ r).trans (hread a ha hg r hr)
  · exact fun a ha r s hr hs => hgood a ha r s hr ((described_line f _ r).symm.trans hs)
  · intro a ha r
    obtain ⟨n, w, hw, hn⟩ := hline a ha
    rw [hw]
    exact ends_line hn w r

/-- A type with fields that has been read off its text is readable. -/
theorem isReadable_of_fieldsDefinition {t : TypeDefinition} (hw : t.isWellFormed = true)
    (hk : t.kind.hasFields = true) {r s : List Char}
    (h : fieldsDefinition t.kind t.extends? (' ' :: (t.name.toList ++ (printImplements t.implements
      ++ (printDirectives t.directives ++ (printBlock printLine t.fields ++ r)))))
      = some (t, s)) : t.isReadable = true := by
  obtain ⟨hname, himplements, hds, hfields, -⟩ := TypeDefinition.isWellFormed_iff.1 hw
  have hblock := breaks_block printLine t.fields r
  have hopen := upcoming_block printLine t.fields r
  rw [fieldsDefinition_apply hname himplements] at h
  obtain ⟨ds, u, hd, h⟩ := exists_of_bind h
  obtain ⟨fields, v, hf, h⟩ := exists_of_bind h
  obtain rfl : ds = t.directives := congrArg TypeDefinition.directives (eq_of_pure h)
  have hget : fields.getD [] = t.fields := congrArg TypeDefinition.fields (eq_of_pure h)
  have directed := isReadable_of_directives hds hblock (by rw [hopen]; decide) hd
  rw [directives_block hds directed] at hd
  cases hd
  have fielded : ∀ f ∈ t.fields, f.isReadable = true := by
    cases fields with
    | none =>
      rw [← hget]
      exact List.forall_mem_nil _
    | some fields =>
      obtain rfl : fields = t.fields := hget
      exact forall_of_block (fun f hf => ⟨f.name, _, rfl, fieldDefinition_name (hfields f hf)⟩)
        (fun f hf hg r hr => fieldDefinition_append (hfields f hf) hg hr)
        (fun f hf r s hr hs => isReadable_of_fieldDefinition (hfields f hf) hr hs) (of_opt hf)
  simp only [TypeDefinition.isReadable, Bool.and_eq_true, Bool.or_eq_true, List.all_eq_true,
    bne_iff_ne]
  refine ⟨⟨directed, fielded⟩, .inl ?_⟩
  rintro he
  rw [he] at hk
  cases hk

/-- An enumeration that has been read off its text has readable directives. -/
theorem isReadable_of_enumDefinition {t : TypeDefinition} (hname : isName t.name = true)
    (hds : ∀ d ∈ t.directives, d.isWellFormed = true) {r s : List Char}
    (h : enumDefinition t.extends? (' ' :: (t.name.toList ++ (printDirectives t.directives
      ++ (printBlock String.toList t.members ++ r)))) = some (t, s)) :
    ∀ d ∈ t.directives, d.isReadable = true := by
  have hblock := breaks_block String.toList t.members r
  rw [enumDefinition, bind_of_some (token_name_blank hname (breaks_directives hblock _))] at h
  obtain ⟨ds, u, hd, h⟩ := exists_of_bind h
  obtain ⟨members, v, -, h⟩ := exists_of_bind h
  obtain rfl : ds = t.directives := congrArg TypeDefinition.directives (eq_of_pure h)
  refine isReadable_of_directives hds hblock ?_ hd
  rw [upcoming_block]
  decide

/-- A scalar that has been read off its text has readable directives. -/
theorem isReadable_of_scalarDefinition {t : TypeDefinition} (hname : isName t.name = true)
    (hds : ∀ d ∈ t.directives, d.isWellFormed = true) {r s : List Char} (hr : Ends r)
    (h : scalarDefinition t.extends? (' ' :: (t.name.toList ++ (printDirectives t.directives ++ r)))
      = some (t, s)) : ∀ d ∈ t.directives, d.isReadable = true := by
  rw [scalarDefinition, bind_of_some (token_name_blank hname (breaks_directives hr.breaks _))] at h
  obtain ⟨ds, u, hd, h⟩ := exists_of_bind h
  obtain rfl : ds = t.directives := congrArg TypeDefinition.directives (eq_of_pure h)
  exact isReadable_of_directives hds hr.breaks
    (hr.upcoming_ne (by decide) (by decide) (by decide)) hd

/-- Members that are read are never none. -/
theorem yields_unionMembers_ne_nil : Yields unionMembers (· ≠ []) :=
  .after fun _ => .after fun _ => .after fun _ => .after fun _ => .pure (List.cons_ne_nil _ _)

/-- A union that has been read off its text has readable directives and a member, unless its text
has been left at the equals sign. -/
theorem isReadable_of_unionDefinition {t : TypeDefinition} (hname : isName t.name = true)
    (hds : ∀ d ∈ t.directives, d.isWellFormed = true) {r s : List Char}
    (h : unionDefinition t.extends? (' ' :: (t.name.toList ++ (printDirectives t.directives
      ++ (printMembers t.members ++ r)))) = some (t, s)) :
    (∀ d ∈ t.directives, d.isReadable = true) ∧ (t.members ≠ [] ∨ upcoming s = some '=') := by
  have hbreaks : Breaks (printMembers t.members ++ r) := breaks_separator rfl _
  have hequals : upcoming (printMembers t.members ++ r) = some '=' :=
    (upcoming_separator rfl _).trans (visible_cons (by decide) (by decide) _).upcoming
  rw [unionDefinition, bind_of_some (token_name_blank hname (breaks_directives hbreaks _))] at h
  obtain ⟨ds, u, hd, h⟩ := exists_of_bind h
  obtain ⟨members, v, hm, h⟩ := exists_of_bind h
  obtain rfl : ds = t.directives := congrArg TypeDefinition.directives (eq_of_pure h)
  have hget : members.getD [] = t.members := congrArg TypeDefinition.members (eq_of_pure h)
  have directed := isReadable_of_directives hds hbreaks (by rw [hequals]; decide) hd
  rw [directives_append _ hds directed hbreaks (by rw [hequals]; decide) (by rw [hequals]; decide)]
    at hd
  cases hd
  refine ⟨directed, ?_⟩
  cases members with
  | none =>
    have hs : s = v := (Prod.mk.inj (Option.some.inj h)).2.symm
    rw [hs, eq_of_opt_none hm]
    exact .inr hequals
  | some members =>
    obtain rfl : members = t.members := hget
    exact .inl (yields_unionMembers_ne_nil _ _ _ (of_opt hm))

/-- What has been read as a definition behind its keyword is readable, unless it has been left at an
equals sign. -/
theorem isReadable_of_definitionOf {t : TypeDefinition} (hw : t.isWellFormed = true)
    {r s : List Char} (hr : Ends r)
    (h : definitionOf t.kind.keyword t.extends? (printAfterKeyword t ++ r) = some (some t, s)) :
    t.isReadable = true ∨ upcoming s = some '=' := by
  obtain ⟨hname, -, hds, -, -, hfits⟩ := TypeDefinition.isWellFormed_iff.1 hw
  obtain ⟨hfields, -⟩ := TypeDefinition.fitsKind_iff.1 hfits
  have hs : printAfterKeyword t ++ r = ' ' :: (t.name.toList ++ (printImplements t.implements
      ++ (printDirectives t.directives ++ (t.printBody ++ r)))) := by
    simp only [printAfterKeyword, List.append_assoc, List.cons_append]
  -- a type without fields is readable where its directives are and it has a member if it is a union
  have flat (hk : t.kind.hasFields = false) (hd : ∀ d ∈ t.directives, d.isReadable = true)
      (hm : t.kind ≠ .union ∨ t.members ≠ []) : t.isReadable = true := by
    simp only [TypeDefinition.isReadable, Bool.and_eq_true, Bool.or_eq_true, List.all_eq_true,
      bne_iff_ne, Bool.not_eq_true', List.isEmpty_eq_false_iff, (hfields hk).1]
    exact ⟨⟨hd, List.forall_mem_nil _⟩, hm⟩
  rw [hs, printBody_eq] at h
  cases hk : t.kind with
  | object | input | interface =>
    refine .inl (isReadable_of_fieldsDefinition hw (hk ▸ rfl) (r := r) (s := s) ?_)
    rw [hk] at h ⊢
    obtain ⟨u, hu, he⟩ := exists_of_map h
    exact Option.some.inj he ▸ hu
  | enumeration =>
    have hnone := hfields (hk ▸ rfl)
    rw [hk, hnone.2] at h
    obtain ⟨u, hu, he⟩ := exists_of_map h
    cases he
    exact .inl
      (flat (hk ▸ rfl) (isReadable_of_enumDefinition hname hds hu) (.inl (by rw [hk]; decide)))
  | union =>
    have hnone := hfields (hk ▸ rfl)
    rw [hk, hnone.2] at h
    obtain ⟨u, hu, he⟩ := exists_of_map h
    cases he
    obtain ⟨hd, hm⟩ := isReadable_of_unionDefinition hname hds hu
    exact hm.imp_left fun hm => flat (hk ▸ rfl) hd (.inr hm)
  | scalar =>
    have hnone := hfields (hk ▸ rfl)
    rw [hk, hnone.2] at h
    obtain ⟨u, hu, he⟩ := exists_of_map h
    cases he
    exact .inl (flat (hk ▸ rfl) (isReadable_of_scalarDefinition hname hds hr hu)
      (.inl (by rw [hk]; decide)))

/-- Behind the keyword of a type, something is declared. -/
theorem yields_definitionOf_keyword (k : TypeKind) (extends? : Bool) :
    Yields (definitionOf k.keyword extends?) (·.isSome = true) := by
  cases k <;> exact (Yields.any _).map fun _ _ => rfl

/-! ### Documents -/

/-- Where definitions have been read up to the end of a text, the first of them is readable, and
the others have been read off the text behind it. -/
theorem exists_of_collect_definition {t : TypeDefinition} (hw : t.isWellFormed = true)
    {between r u : List Char} (hbetween : between.all isSeparator = true) (hr : Ends r)
    {os : List (Option TypeDefinition)} {ts : List TypeDefinition}
    (h : collect definition (between ++ (t.print ++ r)) = (os, u)) (hos : os.filterMap id = t :: ts)
    (hu : skipIgnored u = []) :
    t.isReadable = true ∧ ∃ os', collect definition r = (os', u) ∧ os'.filterMap id = ts := by
  cases os with
  | nil => cases hos
  | cons o os =>
    obtain ⟨s, ho, hrest⟩ := exists_of_collect_eq_cons h
    have hskip : definition (between ++ (t.print ++ r)) = definition (t.print ++ r) :=
      (skips_described _).append (List.all_eq_true.1 hbetween) _
    rw [hskip] at ho
    have hread := (definition_apply t r).symm.trans ho
    obtain ⟨t', rfl⟩ := Option.isSome_iff_exists.1 (yields_definitionOf_keyword _ _ _ _ _ hread)
    obtain ⟨rfl, hts⟩ := List.cons.inj hos
    rcases isReadable_of_definitionOf hw hr hread with readable | hequals
    · rw [definition_append hw readable hr] at ho
      cases ho
      exact ⟨readable, os, hrest, hts⟩
    · -- nothing is read from an equals sign on
      have hstop : definition s = none := described_of_upcoming _ fun c hc => by
        rw [hequals] at hc
        cases hc
        decide
      rw [collect_of_none hstop] at hrest
      obtain rfl : s = u := congrArg Prod.snd hrest
      rw [upcoming, hu] at hequals
      cases hequals

/-- Definitions that have been read up to the end of a text are readable. -/
theorem isReadable_of_collect {ts : List TypeDefinition} (hw : ∀ t ∈ ts, t.isWellFormed = true)
    {os : List (Option TypeDefinition)} {u : List Char}
    (h : collect definition (ts.flatMap (fun t => "\n\n".toList ++ t.print) ++ ['\n']) = (os, u))
    (hos : os.filterMap id = ts) (hu : skipIgnored u = []) : ∀ t ∈ ts, t.isReadable = true := by
  induction ts generalizing os with
  | nil => exact nofun
  | cons t ts ih =>
    rw [List.flatMap_cons, List.append_assoc, List.append_assoc] at h
    obtain ⟨readable, os', h, hos⟩ := exists_of_collect_definition (hw t List.mem_cons_self)
      (by decide) (ends_definitions ts) h hos hu
    exact List.forall_mem_cons.2
      ⟨readable, ih (fun t' ht => hw t' (List.mem_cons_of_mem t ht)) h hos⟩

/-- A document whose text has been read to its end, and as the document, is readable. -/
theorem isReadable_of_print {ts : List TypeDefinition} (hw : ∀ t ∈ ts, t.isWellFormed = true)
    (hos : (collect definition (Document.print ⟨ts⟩)).1.filterMap id = ts)
    (hu : skipIgnored (collect definition (Document.print ⟨ts⟩)).2 = []) :
    ∀ t ∈ ts, t.isReadable = true := by
  cases ts with
  | nil => exact nofun
  | cons t ts =>
    have hs : Document.print ⟨t :: ts⟩
        = t.print ++ (ts.flatMap (fun t => "\n\n".toList ++ t.print) ++ ['\n']) := by
      rw [Document.print, List.map_cons, joined, List.flatMap_map, List.append_assoc]
    obtain ⟨readable, os, h, hrest⟩ := exists_of_collect_definition (hw t List.mem_cons_self)
      (show ([] : List Char).all isSeparator = true from rfl) (ends_definitions ts)
      (congrArg (collect definition) hs).symm hos hu
    exact List.forall_mem_cons.2 ⟨readable, isReadable_of_collect
      (fun t' ht => hw t' (List.mem_cons_of_mem t ht)) h hrest hu⟩

end ApiCompiler.Schema

namespace ApiCompiler.Document

/-- **The documents that are read back from their texts** are those that are well-formed and
readable. -/
theorem parse_toText_iff {d : Document} :
    Document.parse d.toText = .ok d ↔ d.isWellFormed = true ∧ d.isReadable = true := by
  refine ⟨fun h => ?_, fun h => parse_of_isReadable h.1 h.2⟩
  have hw := isWellFormed_of_parse h
  refine ⟨hw, ?_⟩
  rw [isWellFormed_iff_forall] at hw
  rw [isReadable, List.all_eq_true]
  rw [parse, toText, String.toList_ofList] at h
  split at h
  · next he =>
    cases h
    obtain ⟨hos, hu⟩ := Prod.mk.inj he
    exact Schema.isReadable_of_print hw hos hu
  · cases h

end ApiCompiler.Document
