import ApiCompiler.Proofs.Schema.Values

/-!
# Schema — the round trip of documents

* `fieldDefinition_append`, `block_append`, `definition_append`: what a definition is made of, and
  the definition itself, is read off its own text.
* `Document.parse_of_isReadable`: the text of a readable document is read back as the document.
* `Document.parse_toText`: so is that of a printable one.
-/

namespace ApiCompiler.Schema

open ApiCompiler.Parser

/-! ### Where a part of a definition ends -/

/-- A text that may stand behind a whole part of a definition: it goes on with a name, with a
closing parenthesis or brace, or not at all. -/
structure Ends (r : List Char) : Prop where
  breaks   : Breaks r
  upcoming : ∀ c ∈ upcoming r, isNameStart c = true ∨ c = ')' ∨ c = '\x7d'

theorem Ends.upcoming_ne {r : List Char} (h : Ends r) {c : Char} (hn : isNameStart c = false)
    (hp : c ≠ ')') (hb : c ≠ '\x7d') : Schema.upcoming r ≠ some c := by
  intro e
  rcases h.upcoming c e with hc | hc | hc
  · exact absurd hc (by rw [hn]; decide)
  · exact hp hc
  · exact hb hc

theorem breaks_separator {c : Char} (h : isSeparator c = true) (r : List Char) :
    Breaks (c :: r) := by
  simp only [isSeparator, Bool.or_eq_true, decide_eq_true_eq] at h
  rcases h with (((rfl | rfl) | rfl) | rfl) | rfl <;>
    exact breaks_cons (by decide) (by decide) (by decide) _

theorem upcoming_separators {w : List Char} (h : ∀ c ∈ w, isSeparator c = true)
    (r : List Char) : upcoming (w ++ r) = upcoming r := by
  induction w with
  | nil => rfl
  | cons c w ih =>
    rw [List.cons_append, upcoming_separator (h c List.mem_cons_self)]
    exact ih fun d hd => h d (List.mem_cons_of_mem c hd)

theorem ends_name {n : String} (hn : isName n = true) {c : Char} {w : List Char}
    (hw : (c :: w).all isSeparator = true) (r : List Char) :
    Ends (c :: w ++ (n.toList ++ r)) where
  breaks := breaks_separator (List.all_eq_true.1 hw c List.mem_cons_self) _
  upcoming d hd := by
    obtain ⟨e, he, hs⟩ := upcoming_name hn r
    rw [upcoming_separators (List.all_eq_true.1 hw), he] at hd
    cases hd
    exact .inl hs

theorem ends_parenthesis (r : List Char) : Ends (')' :: r) where
  breaks := breaks_cons (by decide) (by decide) (by decide) r
  upcoming d hd := by
    rw [(visible_cons (by decide) (by decide) r).upcoming] at hd
    cases hd
    exact .inr (.inl rfl)

theorem ends_brace (r : List Char) : Ends ('\n' :: '\x7d' :: r) where
  breaks := breaks_separator rfl _
  upcoming d hd := by
    rw [upcoming_separator rfl, (visible_cons (by decide) (by decide) r).upcoming] at hd
    cases hd
    exact .inr (.inr rfl)

/-- No directives are read where a part of a definition ends. -/
theorem directives_of_ends {r : List Char} (h : Ends r) : directives r = some ([], r) :=
  directives_append [] nofun nofun h.breaks
    (h.upcoming_ne (by decide) (by decide) (by decide))
    (h.upcoming_ne (by decide) (by decide) (by decide))

/-! ### Named parts -/

/-- Reads a name, before which a description may stand, and goes on with `f`. -/
def described {α : Type} (f : String → Parser α) : Parser α := do
  let _ ← opt (token description)
  let n ← token name
  f n

theorem skips_described {α : Type} (f : String → Parser α) : Skips isSeparator (described f) :=
  (skips_token description).opt_bind ((skips_token name).bind f)

theorem described_append {α : Type} (f : String → Parser α) {n : String} (hn : isName n = true)
    {r : List Char} (hr : Breaks r) : described f (n.toList ++ r) = f n r := by
  obtain ⟨c, hc, hs⟩ := upcoming_name hn r
  have hq : upcoming (n.toList ++ r) ≠ some '"' := by
    rw [hc]
    exact fun e => ne_of_isNameStart hs (by decide) (Option.some.inj e)
  rw [described, bind_of_some (opt_description hq), bind_of_some (token_name_append hn hr)]

/-- Where neither a name nor a quote comes next, no named part is read. -/
theorem described_of_upcoming {α : Type} (f : String → Parser α) {s : List Char}
    (h : ∀ c ∈ upcoming s, isNameStart c = false ∧ c ≠ '"') : described f s = none := by
  rw [described, bind_of_some (opt_description fun e => (h '"' e).2 rfl),
    bind_of_none (token_name_of_upcoming fun c hc => (h c hc).1)]

/-! ### Arguments and fields -/

/-- A default value as it is written. -/
def printDefault : Option Value → List Char
  | none   => []
  | some v => " = ".toList ++ v.print

theorem breaks_default (v : Option Value) {r : List Char} (hr : Breaks r) :
    Breaks (printDefault v ++ r) := by
  cases v with
  | none => exact hr
  | some v => exact breaks_separator rfl _

theorem upcoming_default (v : Option Value) (r : List Char) :
    upcoming (printDefault v ++ r) = upcoming r
      ∨ upcoming (printDefault v ++ r) = some '=' := by
  cases v with
  | none => exact .inl rfl
  | some v =>
    refine .inr ((upcoming_separator rfl _).trans ?_)
    exact (visible_cons (by decide) (by decide) _).upcoming

/-- A default value is read back, none where no equals sign stands. -/
theorem default_append {v : Option Value} (hw : ∀ w ∈ v, w.isWellFormed = true)
    (hp : v.all Value.isReadable = true) {r : List Char} (hr : Breaks r)
    (he : upcoming r ≠ some '=') : opt defaultValue (printDefault v ++ r) = some (v, r) := by
  cases v with
  | none => exact opt_of_none (bind_of_none (symbol_of_upcoming_ne he) _)
  | some v =>
    have hvalue : token value (' ' :: (v.print ++ r)) = some (v, r) := by
      rw [skips_token value ' ' rfl, ((visible_print (hw v rfl)).append r).token]
      exact value_append (hw v rfl) hp hr
    refine opt_of_some ?_
    show defaultValue (' ' :: '=' :: ' ' :: (v.print ++ r)) = _
    rw [defaultValue, (skips_symbol '=').bind _ ' ' rfl,
      bind_of_some (symbol_cons (by decide) (by decide) _), hvalue]

theorem token_typeRef_append {t : TypeRef} (hw : t.isWellFormed = true) {r : List Char}
    (hb : Breaks r) (hr : upcoming r ≠ some '!') :
    token typeRef (' ' :: (t.print ++ r)) = some (t, r) := by
  rw [skips_token typeRef ' ' rfl, ((visible_typeRef hw).append r).token]
  exact typeRef_append hw hb hr

theorem argumentDefinition_print (a : ArgumentDefinition) (r : List Char) :
    a.print ++ r = a.name.toList
      ++ (':' :: ' ' :: (a.type.print ++ (printDefault a.default ++ r))) := by
  rcases a with ⟨_, _, _ | v⟩ <;>
    simp only [ArgumentDefinition.print, printDefault, List.append_assoc] <;> rfl

theorem argumentDefinition_name {a : ArgumentDefinition} (hw : a.isWellFormed = true) :
    isName a.name = true :=
  (ArgumentDefinition.isWellFormed_iff.1 hw).1

/-- An argument of a field is read back up to its default value. -/
theorem argumentDefinition_apply {a : ArgumentDefinition} (hw : a.isWellFormed = true)
    {r : List Char} (hr : Ends r) :
    argumentDefinition (a.print ++ r) = (do
      let default ← opt defaultValue
      let _       ← directives
      return ArgumentDefinition.mk a.name a.type default) (printDefault a.default ++ r) := by
  obtain ⟨hname, htype, -⟩ := ArgumentDefinition.isWellFormed_iff.1 hw
  have hbang : upcoming (printDefault a.default ++ r) ≠ some '!' := by
    rcases upcoming_default a.default r with h | h <;> rw [h]
    · exact hr.upcoming_ne (by decide) (by decide) (by decide)
    · decide
  show described (fun argumentName => do
    symbol ':'
    let type    ← token typeRef
    let default ← opt defaultValue
    let _       ← directives
    return ArgumentDefinition.mk argumentName type default) (a.print ++ r) = _
  rw [argumentDefinition_print,
    described_append _ hname (breaks_cons (by decide) (by decide) (by decide) _),
    bind_of_some (symbol_cons (by decide) (by decide) _),
    bind_of_some (token_typeRef_append htype (breaks_default _ hr.breaks) hbang)]

/-- An argument of a field is read back. -/
theorem argumentDefinition_append {a : ArgumentDefinition} (hw : a.isWellFormed = true)
    (hp : a.isReadable = true) {r : List Char} (hr : Ends r) :
    argumentDefinition (a.print ++ r) = some (a, r) := by
  obtain ⟨-, -, hdefault⟩ := ArgumentDefinition.isWellFormed_iff.1 hw
  rw [argumentDefinition_apply hw hr, bind_of_some (default_append hdefault hp hr.breaks
      (hr.upcoming_ne (by decide) (by decide) (by decide))),
    bind_of_some (directives_of_ends hr), pure_apply]

theorem ends_argumentDefinition {a : ArgumentDefinition} (hw : a.isWellFormed = true)
    (r : List Char) : Ends (", ".toList ++ (a.print ++ r)) := by
  rw [argumentDefinition_print]
  exact ends_name (argumentDefinition_name hw) (c := ',') (w := [' ']) (by decide) _

/-- The arguments of a field as they are written. -/
def printArgumentDefinitions (as : List ArgumentDefinition) : List Char :=
  if as.isEmpty then [] else '(' :: joined ", ".toList (as.map (·.print)) ++ [')']

/-- Arguments of a field are read back up to a closing parenthesis. -/
theorem many_argumentDefinition_append {as : List ArgumentDefinition}
    (hw : ∀ a ∈ as, a.isWellFormed = true) (hp : ∀ a ∈ as, a.isReadable = true)
    (r : List Char) :
    many argumentDefinition (joined ", ".toList (as.map (·.print)) ++ ')' :: r)
      = some (as, ')' :: r) := by
  have hend : argumentDefinition (')' :: r) = none := by
    refine described_of_upcoming _ fun c hc => ?_
    rw [(visible_cons (by decide) (by decide) r).upcoming] at hc
    cases hc
    decide
  refine many_of_collect ((collect_joined (g := id) (B := Ends) (skips_described _)
    (by decide) ?_ ?_ ?_ (ends_parenthesis r) hend).trans (by rw [List.map_id]))
  · intro a ha h
    have := argumentDefinition_print a []
    rw [h] at this
    exact absurd this.symm (by simp)
  · exact fun a ha r hr => argumentDefinition_append (hw a ha) (hp a ha) hr
  · exact fun a ha r => ends_argumentDefinition (hw a ha) r

/-- The arguments of a field are read back, none where no parenthesis opens. -/
theorem argumentDefinitions_append {as : List ArgumentDefinition}
    (hw : ∀ a ∈ as, a.isWellFormed = true) (hp : ∀ a ∈ as, a.isReadable = true)
    {r : List Char} (hr : upcoming r ≠ some '(') :
    ∃ arguments, opt argumentDefinitions (printArgumentDefinitions as ++ r)
        = some (arguments, r) ∧ arguments.getD [] = as := by
  cases as with
  | nil => exact ⟨none, opt_of_none (between_of_none (symbol_of_upcoming_ne hr)), rfl⟩
  | cons a rest =>
    have hs : printArgumentDefinitions (a :: rest) ++ r
        = '(' :: (joined ", ".toList ((a :: rest).map (·.print)) ++ ')' :: r) := by
      simp [printArgumentDefinitions]
    rw [hs]
    exact ⟨some (a :: rest), opt_of_some (between_of_some (symbol_cons (by decide) (by decide) _)
      (many_argumentDefinition_append hw hp r) (symbol_cons (by decide) (by decide) r)), rfl⟩

/-- A field as it is written, without the blanks around it. -/
def printLine (f : FieldDefinition) : List Char :=
  f.name.toList ++ (printArgumentDefinitions f.arguments
    ++ (':' :: ' ' :: (f.type.print ++ printDirectives f.directives)))

theorem fieldDefinition_print (f : FieldDefinition) :
    f.print = "  ".toList ++ printLine f ++ ['\n'] := by
  show "  ".toList ++ f.name.toList ++ printArgumentDefinitions f.arguments ++ ": ".toList
    ++ f.type.print ++ printDirectives f.directives ++ ['\n'] = _
  have hcolon : ": ".toList = [':', ' '] := by decide
  rw [printLine, hcolon]
  simp only [List.append_assoc, List.cons_append, List.nil_append]

theorem breaks_argumentDefinitions (as : List ArgumentDefinition) {r : List Char}
    (hr : Breaks r) : Breaks (printArgumentDefinitions as ++ r) := by
  unfold printArgumentDefinitions
  split
  · exact hr
  · exact breaks_cons (by decide) (by decide) (by decide) _

theorem upcoming_directives_ne (ds : List Directive) {r : List Char} {c : Char} (hc : c ≠ '@')
    (hr : upcoming r ≠ some c) : upcoming (printDirectives ds ++ r) ≠ some c := by
  rcases upcoming_directives ds r with h | h <;> rw [h]
  · exact hr
  · exact fun e => hc (Option.some.inj e).symm

/-- Reads what follows the arguments of a field, which is made by `make`. -/
def fieldRest (make : TypeRef → List Directive → FieldDefinition) : Parser FieldDefinition := do
  symbol ':'
  let type ← token typeRef
  let _    ← opt defaultValue
  let ds   ← directives
  return make type ds

/-- A field is read back up to its arguments. -/
theorem fieldDefinition_apply {f : FieldDefinition} (hname : isName f.name = true)
    (r : List Char) :
    fieldDefinition (printLine f ++ r) = (do
      let arguments ← opt argumentDefinitions
      fieldRest fun type ds => ⟨f.name, arguments.getD [], type, ds⟩)
      (printArgumentDefinitions f.arguments
        ++ (':' :: ' ' :: (f.type.print ++ (printDirectives f.directives ++ r)))) := by
  have hs : printLine f ++ r = f.name.toList ++ (printArgumentDefinitions f.arguments
      ++ (':' :: ' ' :: (f.type.print ++ (printDirectives f.directives ++ r)))) := by
    simp [printLine]
  have hbreaks := breaks_argumentDefinitions f.arguments
    (breaks_cons (c := ':') (by decide) (by decide) (by decide)
      (' ' :: (f.type.print ++ (printDirectives f.directives ++ r))))
  rw [hs]
  exact described_append (fun fieldName => do
    let arguments ← opt argumentDefinitions
    fieldRest fun type ds => ⟨fieldName, arguments.getD [], type, ds⟩) hname hbreaks

/-- What follows the arguments of a field is read back up to the directives. -/
theorem fieldRest_apply (make : TypeRef → List Directive → FieldDefinition) {t : TypeRef}
    (ht : t.isWellFormed = true) (ds : List Directive) {r : List Char} (hr : Ends r) :
    fieldRest make (':' :: ' ' :: (t.print ++ (printDirectives ds ++ r)))
      = (do
        let ds ← directives
        return make t ds) (printDirectives ds ++ r) := by
  have ends : ∀ c, c ≠ '@' → isNameStart c = false → c ≠ ')' → c ≠ '\x7d' →
      upcoming (printDirectives ds ++ r) ≠ some c := fun c hc hn hp hb =>
    upcoming_directives_ne _ hc (hr.upcoming_ne hn hp hb)
  have hdefault : opt defaultValue (printDirectives ds ++ r)
      = some (none, printDirectives ds ++ r) :=
    default_append (v := none) nofun rfl (breaks_directives hr.breaks _)
      (ends '=' (by decide) (by decide) (by decide) (by decide))
  rw [fieldRest, bind_of_some (symbol_cons (by decide) (by decide) _),
    bind_of_some (token_typeRef_append ht (breaks_directives hr.breaks _)
      (ends '!' (by decide) (by decide) (by decide) (by decide))),
    bind_of_some hdefault]

/-- The arguments of a field are read back up to the colon behind them. -/
theorem field_arguments_append {as : List ArgumentDefinition}
    (hw : ∀ a ∈ as, a.isWellFormed = true) (hp : ∀ a ∈ as, a.isReadable = true) (s : List Char) :
    ∃ arguments, opt argumentDefinitions (printArgumentDefinitions as ++ ':' :: s)
        = some (arguments, ':' :: s) ∧ arguments.getD [] = as := by
  refine argumentDefinitions_append hw hp ?_
  rw [(visible_cons (by decide) (by decide) _).upcoming]
  simp

/-- **A field is read back**, where a part of a definition may end. -/
theorem fieldDefinition_append {f : FieldDefinition} (hw : f.isWellFormed = true)
    (hp : f.isReadable = true) {r : List Char} (hr : Ends r) :
    fieldDefinition (printLine f ++ r) = some (f, r) := by
  obtain ⟨hname, hargs, htype, hds⟩ := FieldDefinition.isWellFormed_iff.1 hw
  simp only [FieldDefinition.isReadable, Bool.and_eq_true, List.all_eq_true] at hp
  obtain ⟨arguments, ha, hget⟩ := field_arguments_append hargs hp.1
    (' ' :: (f.type.print ++ (printDirectives f.directives ++ r)))
  rw [fieldDefinition_apply hname, bind_of_some ha, fieldRest_apply _ htype _ hr,
    bind_of_some (directives_append _ hds hp.2 hr.breaks
      (hr.upcoming_ne (by decide) (by decide) (by decide))
      (hr.upcoming_ne (by decide) (by decide) (by decide))), pure_apply, hget]

/-! ### Blocks and lists of names -/

/-- Lines that end with a line feed, in another order of the same characters. -/
theorem flatMap_line {α : Type} (line : α → List Char) (as : List α) :
    '\n' :: as.flatMap (fun a => line a ++ ['\n'])
      = as.flatMap (fun a => '\n' :: line a) ++ ['\n'] := by
  induction as with
  | nil => rfl
  | cons a as ih => simp [List.flatMap_cons, ← ih]

/-- Lines between braces as they are written. -/
def printBlock {α : Type} (line : α → List Char) (as : List α) : List Char :=
  " \x7b\n".toList ++ as.flatMap (fun a => "  ".toList ++ line a ++ ['\n']) ++ ['\x7d']

theorem breaks_block {α : Type} (line : α → List Char) (as : List α) (r : List Char) :
    Breaks (printBlock line as ++ r) :=
  breaks_separator rfl _

theorem upcoming_block {α : Type} (line : α → List Char) (as : List α) (r : List Char) :
    upcoming (printBlock line as ++ r) = some '\x7b' :=
  (upcoming_separator rfl _).trans (visible_cons (by decide) (by decide) _).upcoming

theorem printBlock_append {α : Type} (line : α → List Char) (as : List α) (r : List Char) :
    printBlock line as ++ r = ' ' :: '\x7b' ::
      (as.flatMap (fun a => '\n' :: ("  ".toList ++ line a)) ++ '\n' :: '\x7d' :: r) := by
  have := flatMap_line (fun a => "  ".toList ++ line a) as
  show ' ' :: '\x7b' :: ('\n' :: as.flatMap (fun a => "  ".toList ++ line a ++ ['\n'])
    ++ ['\x7d'] ++ r) = _
  rw [this, List.append_assoc, List.append_assoc]
  rfl

/-- The blanks before a line make no difference. -/
theorem described_line {α : Type} (f : String → Parser α) (w r : List Char) :
    described f ('\n' :: ("  ".toList ++ w) ++ r) = described f (w ++ r) := by
  show described f ('\n' :: ' ' :: ' ' :: (w ++ r)) = _
  rw [skips_described f _ rfl, skips_described f _ rfl, skips_described f _ rfl]

theorem ends_line {n : String} (hn : isName n = true) (w r : List Char) :
    Ends ('\n' :: ("  ".toList ++ (n.toList ++ w)) ++ r) := by
  show Ends ('\n' :: ' ' :: ' ' :: (n.toList ++ w ++ r))
  rw [List.append_assoc]
  exact ends_name hn (c := '\n') (w := [' ', ' ']) (by decide) (w ++ r)

/-- What stands between braces is read back line by line, where each line is, and starts with a
name. -/
theorem block_append {α : Type} {f : String → Parser α} {line : α → List Char} {as : List α}
    (hline : ∀ a ∈ as, ∃ n w, line a = n.toList ++ w ∧ isName n = true)
    (hread : ∀ a ∈ as, ∀ r, Ends r → described f (line a ++ r) = some (a, r)) (r : List Char) :
    opt (block (described f)) (printBlock line as ++ r) = some (some as, r) := by
  have hend : described f ('\n' :: '\x7d' :: r) = none := by
    refine described_of_upcoming _ fun c hc => ?_
    rw [upcoming_separator rfl, (visible_cons (by decide) (by decide) r).upcoming] at hc
    cases hc
    decide
  have hmany : many (described f) (as.flatMap (fun a => '\n' :: ("  ".toList ++ line a))
      ++ '\n' :: '\x7d' :: r) = some (as, '\n' :: '\x7d' :: r) := by
    refine many_of_collect ((collect_flatMap (g := id) (B := Ends) nofun ?_ ?_
      (ends_brace r) hend).trans (by rw [List.map_id]))
    · exact fun a ha r hr => (described_line f _ r).trans (hread a ha r hr)
    · intro a ha r
      obtain ⟨n, w, hw, hn⟩ := hline a ha
      rw [hw]
      exact ends_line hn w r
  rw [printBlock_append]
  refine opt_of_some (between_of_some ?_ hmany ?_)
  · rw [skips_symbol _ ' ' rfl, symbol_cons (by decide) (by decide)]
  · rw [skips_symbol _ '\n' rfl, symbol_cons (by decide) (by decide)]

theorem joined_names (between : List Char) (n : String) (names : List String) :
    joined between ((n :: names).map (·.toList))
      = n.toList ++ names.flatMap fun m => between ++ m.toList := by
  rw [List.map_cons, joined, List.flatMap_map]

/-- Names are read back with the symbol between them that `q` reads. -/
theorem many_name_append {q : Parser String} {between : List Char} (hne : between ≠ [])
    (hb : ∀ r, Breaks (between ++ r))
    (hq : ∀ n, isName n = true → ∀ r, Breaks r → q (between ++ (n.toList ++ r)) = some (n, r))
    {names : List String} (hnames : ∀ n ∈ names, isName n = true) {r : List Char} (hr : Breaks r)
    (hend : q r = none) :
    many q (names.flatMap (fun n => between ++ n.toList) ++ r) = some (names, r) := by
  refine many_of_collect ((collect_flatMap (g := id) (B := Breaks)
    (fun n _ h => hne (List.append_eq_nil_iff.1 h).1) ?_ ?_ hr hend).trans (by rw [List.map_id]))
  · intro n hn r hr
    rw [List.append_assoc]
    exact hq n (hnames n hn) r hr
  · intro n _ r
    rw [List.append_assoc]
    exact hb _

theorem breaks_names {between : List Char} (hb : ∀ r, Breaks (between ++ r))
    (names : List String) {r : List Char} (hr : Breaks r) :
    Breaks (names.flatMap (fun n => between ++ n.toList) ++ r) := by
  cases names with
  | nil => exact hr
  | cons n names =>
    rw [List.flatMap_cons, List.append_assoc, List.append_assoc]
    exact hb _

/-- The interfaces of a type as they are written. -/
def printImplements (names : List String) : List Char :=
  if names.isEmpty then []
  else " implements ".toList ++ joined " & ".toList (names.map (·.toList))

theorem token_name_blank {n : String} (hn : isName n = true) {r : List Char} (hr : Breaks r) :
    token name (' ' :: (n.toList ++ r)) = some (n, r) := by
  rw [skips_token name ' ' rfl, token_name_append hn hr]

theorem token_tag_append {w : List Char} (hw : Visible w) (r : List Char) :
    token (tag w) (' ' :: (w ++ r)) = some ((), r) := by
  rw [skips_token (tag w) ' ' rfl, (hw.append r).token, tag_append]

theorem implements_toList :
    "implements".toList = ['i', 'm', 'p', 'l', 'e', 'm', 'e', 'n', 't', 's'] := by decide

theorem token_implements {r : List Char} (h : upcoming r ≠ some 'i') :
    token (tag "implements".toList) r = none := by
  rw [token_apply, implements_toList, tag_of_head?_ne h]

theorem visible_implements : Visible "implements".toList := by
  rw [implements_toList]
  exact visible_cons (by decide) (by decide) _

/-- The interfaces of a type are read back, none where neither a name nor an ampersand follows. -/
theorem implements_append {names : List String} (hnames : ∀ n ∈ names, isName n = true)
    {r : List Char} (hb : Breaks r) (hr : ∀ c ∈ upcoming r, isNameStart c = false ∧ c ≠ '&') :
    ∃ implements, opt implementsClause (printImplements names ++ r) = some (implements, r)
      ∧ implements.getD [] = names := by
  cases names with
  | nil =>
    exact ⟨none, opt_of_none (bind_of_none (token_implements fun e => by
      exact absurd (hr 'i' e).1 (by decide)) _), rfl⟩
  | cons n names =>
    have hbetween : ∀ r, Breaks (" & ".toList ++ r) := fun r => breaks_separator rfl _
    have hs : printImplements (n :: names) ++ r = ' ' :: ("implements".toList
        ++ (' ' :: (n.toList ++ (names.flatMap (fun m => " & ".toList ++ m.toList) ++ r)))) := by
      have hblanks : " implements ".toList = ' ' :: ("implements".toList ++ [' ']) := by decide
      rw [printImplements, if_neg (by simp), joined_names, hblanks]
      simp only [List.append_assoc, List.cons_append, List.nil_append]
    have hfirst : (opt (symbol '&') >>= fun _ => token name) (' ' :: (n.toList
        ++ (names.flatMap (fun m => " & ".toList ++ m.toList) ++ r)))
        = some (n, names.flatMap (fun m => " & ".toList ++ m.toList) ++ r) := by
      have hn := hnames n List.mem_cons_self
      obtain ⟨c, hc, hstart⟩ := upcoming_name hn
        (names.flatMap (fun m => " & ".toList ++ m.toList) ++ r)
      have hamp : symbol '&' (' ' :: (n.toList
          ++ (names.flatMap (fun m => " & ".toList ++ m.toList) ++ r))) = none := by
        refine symbol_of_upcoming_ne ?_
        rw [upcoming_separator rfl, hc]
        exact fun e => ne_of_isNameStart hstart (by decide) (Option.some.inj e)
      rw [bind_of_some (opt_of_none hamp), token_name_blank hn (breaks_names hbetween _ hb)]
    have hrest : many (opt (symbol '&') >>= fun _ => token name)
        (names.flatMap (fun m => " & ".toList ++ m.toList) ++ r) = some (names, r) := by
      refine many_name_append (by decide) hbetween ?_
        (fun m hm => hnames m (List.mem_cons_of_mem n hm)) hb ?_
      · intro m hm r hr
        have hamp : symbol '&' (" & ".toList ++ (m.toList ++ r))
            = some ((), ' ' :: (m.toList ++ r)) :=
          (skips_symbol '&' ' ' rfl _).trans (symbol_cons (by decide) (by decide) _)
        rw [bind_of_some (opt_of_some hamp), token_name_blank hm hr]
      · rw [bind_of_some (opt_of_none (symbol_of_upcoming_ne fun e => (hr '&' e).2 rfl))]
        exact token_name_of_upcoming fun c hc => (hr c hc).1
    have hword : token (tag "implements".toList) (' ' :: ("implements".toList
        ++ (' ' :: (n.toList ++ (names.flatMap (fun m => " & ".toList ++ m.toList) ++ r)))))
        = some ((), ' ' :: (n.toList
          ++ (names.flatMap (fun m => " & ".toList ++ m.toList) ++ r))) :=
      token_tag_append visible_implements _
    refine ⟨some (n :: names), opt_of_some ?_, rfl⟩
    rw [hs, implementsClause, bind_of_some hword, many1, bind_of_some hfirst,
      bind_of_some hrest, pure_apply]

/-- The members of a union as they are written. -/
def printMembers (names : List String) : List Char :=
  " = ".toList ++ joined " | ".toList (names.map (·.toList))

/-- The members of a union are read back, where it has one. -/
theorem unionMembers_append {names : List String} (hne : names ≠ [])
    (hnames : ∀ n ∈ names, isName n = true) {r : List Char} (hr : Ends r) :
    unionMembers (printMembers names ++ r) = some (names, r) := by
  cases names with
  | nil => exact absurd rfl hne
  | cons n names =>
    have hbetween : ∀ r, Breaks (" | ".toList ++ r) := fun r => breaks_separator rfl _
    have hs : printMembers (n :: names) ++ r = ' ' :: '=' :: ' ' :: (n.toList
        ++ (names.flatMap (fun m => " | ".toList ++ m.toList) ++ r)) := by
      rw [printMembers, joined_names]
      simp
    have hn := hnames n List.mem_cons_self
    obtain ⟨c, hc, hstart⟩ := upcoming_name hn
      (names.flatMap (fun m => " | ".toList ++ m.toList) ++ r)
    have hbar : symbol '|' (' ' :: (n.toList
        ++ (names.flatMap (fun m => " | ".toList ++ m.toList) ++ r))) = none := by
      refine symbol_of_upcoming_ne ?_
      rw [upcoming_separator rfl, hc]
      exact fun e => ne_of_isNameStart hstart (by decide) (Option.some.inj e)
    have hrest : many (symbol '|' >>= fun _ => token name)
        (names.flatMap (fun m => " | ".toList ++ m.toList) ++ r) = some (names, r) := by
      refine many_name_append (by decide) hbetween ?_
        (fun m hm => hnames m (List.mem_cons_of_mem n hm)) hr.breaks ?_
      · intro m hm r hr
        have hbar : symbol '|' (" | ".toList ++ (m.toList ++ r))
            = some ((), ' ' :: (m.toList ++ r)) :=
          (skips_symbol '|' ' ' rfl _).trans (symbol_cons (by decide) (by decide) _)
        rw [bind_of_some hbar, token_name_blank hm hr]
      · exact bind_of_none (symbol_of_upcoming_ne
          (hr.upcoming_ne (by decide) (by decide) (by decide))) _
    rw [hs, unionMembers, (skips_symbol '=').bind _ ' ' rfl,
      bind_of_some (symbol_cons (by decide) (by decide) _), bind_of_some (opt_of_none hbar),
      sepBy1, bind_of_some (token_name_blank hn (breaks_names hbetween _ hr.breaks)),
      bind_of_some hrest, pure_apply]

/-! ### Definitions -/

theorem fieldDefinition_name {f : FieldDefinition} (hw : f.isWellFormed = true) :
    isName f.name = true :=
  (FieldDefinition.isWellFormed_iff.1 hw).1

/-- The directives of a definition are read back before a block. -/
theorem directives_block {α : Type} {ds : List Directive} (hw : ∀ d ∈ ds, d.isWellFormed = true)
    (hp : ∀ d ∈ ds, d.isReadable = true) (line : α → List Char) (as : List α) (r : List Char) :
    directives (printDirectives ds ++ (printBlock line as ++ r))
      = some (ds, printBlock line as ++ r) := by
  refine directives_append _ hw hp (breaks_block line as r) ?_ ?_ <;>
    rw [upcoming_block] <;> decide

/-- A type with fields is read back up to its directives. -/
theorem fieldsDefinition_apply {t : TypeDefinition} (hname : isName t.name = true)
    (himplements : ∀ n ∈ t.implements, isName n = true) (r : List Char) :
    fieldsDefinition t.kind t.extends? (' ' :: (t.name.toList ++ (printImplements t.implements
      ++ (printDirectives t.directives ++ (printBlock printLine t.fields ++ r)))))
      = (do
        let ds     ← directives
        let fields ← opt (block fieldDefinition)
        return TypeDefinition.mk t.kind t.name t.extends? t.implements ds (fields.getD []) [])
        (printDirectives t.directives ++ (printBlock printLine t.fields ++ r)) := by
  have hblock := breaks_block printLine t.fields r
  have hopen : ∀ c ∈
      upcoming (printDirectives t.directives ++ (printBlock printLine t.fields ++ r)),
      isNameStart c = false ∧ c ≠ '&' := by
    intro c hc
    rcases upcoming_directives t.directives (printBlock printLine t.fields ++ r) with h | h
    · rw [h, upcoming_block] at hc
      cases hc
      decide
    · rw [h] at hc
      cases hc
      decide
  have hbreaks : Breaks (printImplements t.implements ++ (printDirectives t.directives
      ++ (printBlock printLine t.fields ++ r))) := by
    unfold printImplements
    split
    · exact breaks_directives hblock _
    · exact breaks_separator rfl _
  obtain ⟨implements, hi, hget⟩ := implements_append himplements (breaks_directives hblock _) hopen
  rw [fieldsDefinition, bind_of_some (token_name_blank hname hbreaks), bind_of_some hi, hget]

/-- A type with fields is read back. -/
theorem fieldsDefinition_append {t : TypeDefinition} (hw : t.isWellFormed = true)
    (hp : t.isReadable = true) (hm : t.members = []) (r : List Char) :
    fieldsDefinition t.kind t.extends? (' ' :: (t.name.toList ++ (printImplements t.implements
      ++ (printDirectives t.directives ++ (printBlock printLine t.fields ++ r)))))
      = some (t, r) := by
  obtain ⟨hname, himplements, hds, hfields, -⟩ := TypeDefinition.isWellFormed_iff.1 hw
  simp only [TypeDefinition.isReadable, Bool.and_eq_true, List.all_eq_true] at hp
  have hbody : opt (block fieldDefinition) (printBlock printLine t.fields ++ r)
      = some (some t.fields, r) :=
    block_append (fun f hf => ⟨f.name, _, rfl, fieldDefinition_name (hfields f hf)⟩)
      (fun f hf r hr => fieldDefinition_append (hfields f hf) (hp.1.2 f hf) hr) r
  rw [fieldsDefinition_apply hname himplements, bind_of_some (directives_block hds hp.1.1 _ _ r),
    bind_of_some hbody, pure_apply]
  rcases t with ⟨_, _, _, _, _, _, members⟩
  cases hm
  rfl

/-- An enumeration is read back. -/
theorem enumDefinition_append {t : TypeDefinition} (hname : isName t.name = true)
    (hds : ∀ d ∈ t.directives, d.isWellFormed = true)
    (hps : ∀ d ∈ t.directives, d.isReadable = true) (hms : ∀ m ∈ t.members, isName m = true)
    (hk : t.kind = .enumeration) (hi : t.implements = []) (hf : t.fields = []) (r : List Char) :
    enumDefinition t.extends? (' ' :: (t.name.toList ++ (printDirectives t.directives
      ++ (printBlock String.toList t.members ++ r)))) = some (t, r) := by
  have hbody : opt (block enumMember) (printBlock String.toList t.members ++ r)
      = some (some t.members, r) := by
    refine block_append (fun m hm => ⟨m, [], (List.append_nil _).symm, hms m hm⟩) ?_ r
    intro m hm r hr
    rw [described_append _ (hms m hm) hr.breaks, bind_of_some (directives_of_ends hr), pure_apply]
  rw [enumDefinition,
    bind_of_some (token_name_blank hname (breaks_directives (breaks_block _ _ r) _)),
    bind_of_some (directives_block hds hps _ _ r), bind_of_some hbody, pure_apply]
  rcases t with ⟨kind, _, _, implements, _, fields, _⟩
  cases hk
  cases hi
  cases hf
  rfl

/-- A union is read back. -/
theorem unionDefinition_append {t : TypeDefinition} (hname : isName t.name = true)
    (hds : ∀ d ∈ t.directives, d.isWellFormed = true)
    (hps : ∀ d ∈ t.directives, d.isReadable = true) (hms : ∀ m ∈ t.members, isName m = true)
    (hk : t.kind = .union) (hi : t.implements = []) (hf : t.fields = []) (hne : t.members ≠ [])
    {r : List Char} (hr : Ends r) :
    unionDefinition t.extends? (' ' :: (t.name.toList ++ (printDirectives t.directives
      ++ (printMembers t.members ++ r)))) = some (t, r) := by
  have hbreaks : Breaks (printMembers t.members ++ r) := breaks_separator rfl _
  have hequals : upcoming (printMembers t.members ++ r) = some '=' :=
    (upcoming_separator rfl _).trans (visible_cons (by decide) (by decide) _).upcoming
  have hdirectives := directives_append _ hds hps hbreaks (by rw [hequals]; decide)
    (by rw [hequals]; decide)
  rw [unionDefinition, bind_of_some (token_name_blank hname (breaks_directives hbreaks _)),
    bind_of_some hdirectives, bind_of_some (opt_of_some (unionMembers_append hne hms hr)),
    pure_apply]
  rcases t with ⟨kind, _, _, implements, _, fields, _⟩
  cases hk
  cases hi
  cases hf
  rfl

/-- A scalar is read back. -/
theorem scalarDefinition_append {t : TypeDefinition} (hname : isName t.name = true)
    (hds : ∀ d ∈ t.directives, d.isWellFormed = true)
    (hps : ∀ d ∈ t.directives, d.isReadable = true) (hk : t.kind = .scalar)
    (hi : t.implements = []) (hf : t.fields = []) (hm : t.members = [])
    {r : List Char} (hr : Ends r) :
    scalarDefinition t.extends? (' ' :: (t.name.toList ++ (printDirectives t.directives ++ r)))
      = some (t, r) := by
  have hdirectives := directives_append _ hds hps hr.breaks
    (hr.upcoming_ne (by decide) (by decide) (by decide))
    (hr.upcoming_ne (by decide) (by decide) (by decide))
  rw [scalarDefinition, bind_of_some (token_name_blank hname (breaks_directives hr.breaks _)),
    bind_of_some hdirectives, pure_apply]
  rcases t with ⟨kind, _, _, implements, _, fields, members⟩
  cases hk
  cases hi
  cases hf
  cases hm
  rfl

/-- What follows the keyword of a definition, as it is written. -/
def printAfterKeyword (t : TypeDefinition) : List Char :=
  ' ' :: (t.name.toList ++ (printImplements t.implements
    ++ (printDirectives t.directives ++ t.printBody)))

theorem typeDefinition_print (t : TypeDefinition) :
    t.print = (if t.extends? then "extend ".toList else [])
      ++ (t.kind.keyword.toList ++ printAfterKeyword t) := by
  simp only [TypeDefinition.print, printAfterKeyword, printImplements, List.append_assoc,
    List.cons_append, List.nil_append]

theorem printBody_eq (t : TypeDefinition) :
    t.printBody = match t.kind with
      | .scalar      => []
      | .union       => printMembers t.members
      | .enumeration => printBlock String.toList t.members
      | .object | .input | .interface => printBlock printLine t.fields := by
  have hfields : t.fields.flatMap (·.print)
      = t.fields.flatMap fun f => "  ".toList ++ printLine f ++ ['\n'] := by
    simp only [fieldDefinition_print]
  unfold TypeDefinition.printBody
  cases t.kind <;> simp only [printMembers, printBlock, hfields]

/-- What follows its keyword says what a definition is. -/
theorem definitionOf_append {t : TypeDefinition} (hw : t.isWellFormed = true)
    (hp : t.isReadable = true) {r : List Char} (hr : Ends r) :
    definitionOf t.kind.keyword t.extends? (printAfterKeyword t ++ r) = some (some t, r) := by
  obtain ⟨hname, -, hds, -, hms, hfits⟩ := TypeDefinition.isWellFormed_iff.1 hw
  obtain ⟨hfields, hmembers⟩ := TypeDefinition.fitsKind_iff.1 hfits
  have hprint := hp
  simp only [TypeDefinition.isReadable, Bool.and_eq_true, Bool.or_eq_true, List.all_eq_true,
    bne_iff_ne, Bool.not_eq_true', List.isEmpty_eq_false_iff] at hprint
  obtain ⟨⟨hps, -⟩, hunion⟩ := hprint
  have hs : printAfterKeyword t ++ r = ' ' :: (t.name.toList ++ (printImplements t.implements
      ++ (printDirectives t.directives ++ (t.printBody ++ r)))) := by
    simp only [printAfterKeyword, List.append_assoc, List.cons_append]
  rw [hs, printBody_eq]
  cases hk : t.kind with
  | object | input | interface =>
    have hread := fieldsDefinition_append hw hp (hmembers (hk ▸ rfl)) r
    rw [hk] at hread
    exact map_of_some hread some
  | enumeration =>
    have hnone := hfields (hk ▸ rfl)
    rw [hnone.2]
    exact map_of_some (enumDefinition_append hname hds hps hms hk hnone.2 hnone.1 r) some
  | union =>
    have hnone := hfields (hk ▸ rfl)
    rw [hnone.2]
    exact map_of_some (unionDefinition_append hname hds hps hms hk hnone.2 hnone.1
      (hunion.resolve_left fun h => h hk) hr) some
  | scalar =>
    have hnone := hfields (hk ▸ rfl)
    rw [hnone.2]
    exact map_of_some (scalarDefinition_append hname hds hps hk hnone.2 hnone.1
      (hmembers (hk ▸ rfl)) hr) some

/-- A definition is read back up to its keyword, an extension as one. -/
theorem definition_apply (t : TypeDefinition) (r : List Char) : definition (t.print ++ r)
    = definitionOf t.kind.keyword t.extends? (printAfterKeyword t ++ r) := by
  have hbreaks : Breaks (printAfterKeyword t ++ r) := breaks_separator rfl _
  show described (fun keyword =>
    if keyword = "extend" then do
      let extended ← token name
      definitionOf extended true
    else definitionOf keyword false) (t.print ++ r) = _
  rw [typeDefinition_print, List.append_assoc, List.append_assoc]
  cases t.extends? with
  | true =>
    have hblank : "extend ".toList = "extend".toList ++ [' '] := by decide
    have hname : token name (' ' :: (t.kind.keyword.toList ++ (printAfterKeyword t ++ r)))
        = some (t.kind.keyword, printAfterKeyword t ++ r) :=
      token_name_blank (isName_keyword _) hbreaks
    rw [if_pos rfl, hblank, List.append_assoc, List.singleton_append,
      described_append _ (by decide) (breaks_separator rfl _), if_pos rfl, bind_of_some hname]
  | false =>
    have hne : t.kind.keyword ≠ "extend" := by cases t.kind <;> decide
    rw [if_neg (by decide), List.nil_append, described_append _ (isName_keyword _) hbreaks,
      if_neg hne]

/-- **A definition is read back**, an extension as one. -/
theorem definition_append {t : TypeDefinition} (hw : t.isWellFormed = true)
    (hp : t.isReadable = true) {r : List Char} (hr : Ends r) :
    definition (t.print ++ r) = some (some t, r) :=
  (definition_apply t r).trans (definitionOf_append hw hp hr)

theorem print_ne_nil (t : TypeDefinition) : t.print ≠ [] := by
  rw [typeDefinition_print]
  intro h
  exact List.cons_ne_nil _ _ (List.append_eq_nil_iff.1 (List.append_eq_nil_iff.1 h).2).2

theorem ends_definition (t : TypeDefinition) (r : List Char) :
    Ends ('\n' :: '\n' :: (t.print ++ r)) := by
  rw [typeDefinition_print, List.append_assoc, List.append_assoc]
  split
  · exact ends_name (n := "extend") (by decide) (c := '\n') (w := ['\n']) (by decide) _
  · exact ends_name (isName_keyword _) (c := '\n') (w := ['\n']) (by decide) _

/-- Behind a definition it ends, whatever definitions follow. -/
theorem ends_definitions (ts : List TypeDefinition) :
    Ends (ts.flatMap (fun t => "\n\n".toList ++ t.print) ++ ['\n']) :=
  flatMap_append_of (fun t _ r => by
    rw [List.append_assoc]
    exact ends_definition t r) ⟨breaks_separator rfl _, nofun⟩

/-- All definitions of a document are read back, and the text is read to its end. -/
theorem document_print {d : Document} (hw : d.isWellFormed = true) (hp : d.isReadable = true) :
    document d.print = (d.definitions, []) := by
  have hw := Document.isWellFormed_iff_forall.1 hw
  rw [Document.isReadable, List.all_eq_true] at hp
  have hend : definition ['\n'] = none := described_of_upcoming _ nofun
  have hlast : Ends ['\n'] := ends_definitions []
  have hall : collect definition (joined "\n\n".toList (d.definitions.map (·.print)) ++ ['\n'])
      = (d.definitions.map some, ['\n']) := by
    refine collect_joined (B := Ends) (skips_described _) (by decide) ?_ ?_ ?_ hlast hend
    · exact fun t _ => print_ne_nil t
    · exact fun t ht r hr => definition_append (hw t ht) (hp t ht) hr
    · exact fun t _ r => ends_definition t r
  rw [Document.print, document, hall]
  show ((d.definitions.map some).filterMap id, skipIgnored ['\n']) = _
  rw [List.filterMap_map, skipIgnored_ignored rfl, skipIgnored_nil]
  exact congrArg (·, []) List.filterMap_some

end ApiCompiler.Schema

namespace ApiCompiler

/-- **The text of a document is read back as the document**, where it is well-formed and
readable. -/
theorem Document.parse_of_isReadable {d : Document} (hw : d.isWellFormed = true)
    (hp : d.isReadable = true) : Document.parse d.toText = .ok d := by
  rw [Document.parse, Document.toText, String.toList_ofList, Schema.document_print hw hp]

theorem Directive.isReadable_of_isPrintable {d : Directive} (h : d.isPrintable = true) :
    d.isReadable = true := by
  rw [isPrintable, Value.isPrintableFields_eq, List.all_eq_true] at h
  rw [isReadable, Value.isReadableFields_eq, List.all_eq_true]
  exact fun p hp => Value.isReadable_of_isPrintable (h p hp)

theorem FieldDefinition.isReadable_of_isPrintable {f : FieldDefinition}
    (h : f.isPrintable = true) : f.isReadable = true := by
  simp only [isPrintable, isReadable, Bool.and_eq_true, List.all_eq_true] at h ⊢
  refine ⟨fun a ha => ?_, fun d hd => Directive.isReadable_of_isPrintable (h.2 d hd)⟩
  have ha := h.1 a ha
  rw [ArgumentDefinition.isPrintable] at ha
  rw [ArgumentDefinition.isReadable]
  cases he : a.default with
  | none => rfl
  | some v => exact Value.isReadable_of_isPrintable (by rwa [he] at ha)

/-- What is printable is readable. -/
theorem Document.isReadable_of_isPrintable {d : Document} (h : d.isPrintable = true) :
    d.isReadable = true := by
  simp only [isPrintable, isReadable, TypeDefinition.isPrintable, TypeDefinition.isReadable,
    Bool.and_eq_true, List.all_eq_true] at h ⊢
  intro t ht
  obtain ⟨⟨hds, hfs⟩, hunion⟩ := h t ht
  exact ⟨⟨fun i hi => Directive.isReadable_of_isPrintable (hds i hi),
    fun f hf => FieldDefinition.isReadable_of_isPrintable (hfs f hf)⟩, hunion⟩

/-- **The text of a document is read back as the document**, where it is well-formed and says all
there is to it. -/
theorem Document.parse_toText {d : Document} (hw : d.isWellFormed = true)
    (hp : d.isPrintable = true) : Document.parse d.toText = .ok d :=
  parse_of_isReadable hw (isReadable_of_isPrintable hp)

/-- A document with an extension, nested values, a default value and a text with escapes. -/
def Document.sample : Document where
  definitions := [
    { kind := .object, name := "Post", implements := ["Node", "Entry"],
      directives := [⟨"auth", [("rules", .list [.object [("allow", .enumeral "owner")], .null])]⟩],
      fields := [
        { name := "title", type := .required "String",
          directives := [⟨"default", [("value", .string "a \"b\"\n")]⟩, ⟨"index", []⟩] },
        { name := "tags", type := .nonNull (.list (.required "Tag")),
          arguments := [⟨"first", .named "Int", some (.int (-10))⟩,
            ⟨"after", .named "ID", none⟩] }] },
    { kind := .enumeration, name := "State", extends? := true, members := ["OPEN", "SHUT"] },
    { kind := .union, name := "Either", members := ["Post", "Tag"] },
    { kind := .scalar, name := "Tag" }]

/-- The text of a document with every kind of part is read back. -/
theorem Document.parse_toText_sample :
    Document.sample.isWellFormed = true ∧ Document.sample.isPrintable = true
      ∧ Document.parse Document.sample.toText = .ok Document.sample :=
  ⟨by decide, by decide, Document.parse_toText (by decide) (by decide)⟩

end ApiCompiler
