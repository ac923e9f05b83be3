import ApiCompiler.Proofs.Schema.Accepted
import ApiCompiler.Proofs.Schema.Fragments

/-!
# Schema — the documents that are read

A text is only ever read as a structured document, in which each float is the one nearest to some
decimal. Each such document is read off some text. The text has each token, and each type, on a line
of its own: what is read on a line is the same whatever lines follow, unless a rule goes on by the
token that the next line starts with.

* `HasText`: what a rule reads off some such text, with a lemma for each combinator.
* `hasText_value`, `hasText_fieldDefinition`, `hasText_definition`: the rules.
* `Document.exists_text_iff`: the documents that are read.
-/

namespace ApiCompiler

/-- The number nearest to decimal digits times a power of ten. -/
def Binary64.IsDecimal (x : Binary64) : Prop :=
  ∃ negative digits exponent, x = ofDecimal negative digits exponent

/-- Each float in a value is the number nearest to some decimal. -/
def Value.HasDecimals (v : Value) : Prop := ∀ x, (float x).Within v → x.IsDecimal

namespace Schema

open ApiCompiler.Parser

/-- A text that stands alone. -/
theorem Behind.alone : Behind [] [] := .nil []

open Behind (alone valueKinds directivesShape typeRefShape entryShape)

variable {α β : Type}

/-! ### Floats -/

theorem hasDecimals_of_numberValue? {negative : Bool} {whole : List Char}
    {fraction : Option (List Char)} {exponent : Option (Bool × List Char)} {v : Value}
    (h : numberValue? negative whole fraction exponent = some v) : v.HasDecimals := by
  unfold numberValue? at h
  split at h
  · obtain ⟨-, he⟩ := Option.ite_none_right_eq_some.1 h
    cases he
    exact nofun
  · cases h
    rintro x ⟨⟩
    exact ⟨_, _, _, rfl⟩

theorem hasDecimals_wordValue (n : String) : (wordValue n).HasDecimals := by
  unfold wordValue
  split
  · exact nofun
  · split
    · exact nofun
    · split <;> exact nofun

/-- The floats that are read are nearest to decimals. -/
theorem yields_hasDecimals : Yields value Value.HasDecimals := by
  intro s
  refine yields_valueWithin ?_ (fun _ => nofun) (fun n _ => hasDecimals_wordValue n) ?_ ?_
    s.length s
  · refine .after fun _ => .after fun _ => .after fun _ => .after fun _ s v r h => ?_
    obtain ⟨w, hw, he⟩ := Option.map_eq_some_iff.1 h
    cases he
    exact hasDecimals_of_numberValue? hw
  · rintro items hitems x ⟨⟩
    exact hitems _ ‹_› x ‹_›
  · rintro fields hfields x ⟨⟩
    exact (hfields _ ‹_›).2 x ‹_›

/-! ### Texts with each token on a line -/

/-- In front of a new line, `p` reads all of `s`, as `a`, where it does not go on by what comes
next. -/
structure Denotes (σ : Shape) (p : Parser α) (a : α) (s : List Char) : Prop where
  line : OnNewLine s
  starts {w : List Char} (hw : OnNewLine w) (hr : ahead w ∉ σ.more) :
    ahead (s ++ w) ∈ σ.first ∨ (σ.empty = true ∧ s = [])
  reads {w : List Char} (hw : OnNewLine w) (hr : ahead w ∉ σ.more) : p (s ++ w) = some (a, w)

/-- Some text with each token on a line is read as `a`. Nothing is said of shapes that are not
sound. -/
def HasText (σ : Shape) (p : Parser α) (a : α) : Prop := σ.sound → ∃ s, Denotes σ p a s

theorem OnNewLine.append {s t : List Char} (hs : OnNewLine s) (ht : OnNewLine t) :
    OnNewLine (s ++ t) := by
  cases s with
  | nil => exact ht
  | cons c s => exact hs

theorem OnNewLine.breaks {w : List Char} (hw : OnNewLine w) : Breaks w := by
  intro c hc
  rw [hw c hc]
  decide

namespace HasText

variable {σ τ : Shape} {p : Parser α} {a : α}

theorem mono (h : HasText σ p a) (hle : σ.Le τ) : HasText τ p a := fun _ => by
  obtain ⟨s, hs⟩ := h hle.1
  have more {w : List Char} (hr : ahead w ∉ τ.more) : ahead w ∉ σ.more :=
    fun hmem => hr (hle.2.2.2 _ hmem)
  exact ⟨s, hs.line,
    fun hw hr => (hs.starts hw (more hr)).imp (hle.2.1 _) (And.imp_left hle.2.2.1),
    fun hw hr => hs.reads hw (more hr)⟩

theorem pure (a : α) : HasText .nothing (Pure.pure a : Parser α) a := fun _ =>
  ⟨[], onNewLine_nil, fun _ _ => .inr ⟨rfl, rfl⟩, fun _ _ => rfl⟩

theorem map (h : HasText σ p a) (f : α → β) : HasText σ (f <$> p) (f a) := fun hs => by
  obtain ⟨s, hs⟩ := h hs
  exact ⟨s, hs.line, hs.starts, fun hw hr => map_of_some (hs.reads hw hr) f⟩

/-- **One text behind another**: the first does not go on by the token that the second starts
with. -/
theorem bind {q : α → Parser β} {b : β} (hp : HasText σ p a) (hq : HasText τ (q a) b) :
    HasText (σ.andThen τ) (p >>= q) b := by
  intro hsound
  obtain ⟨hσ, hτ, hmeets⟩ := of_decide_eq_true hsound
  obtain ⟨s, hs⟩ := hp hσ
  obtain ⟨t, ht⟩ := hq hτ
  -- what stands behind the first text
  have behind {w : List Char} (hw : OnNewLine w) (hr : ahead w ∉ (σ.andThen τ).more) :
      ahead w ∉ τ.more ∧ ahead (t ++ w) ∉ σ.more := by
    have hr' : ahead w ∉ τ.more := fun hmem => hr (List.mem_append_left _ hmem)
    refine ⟨hr', fun hmem => ?_⟩
    rcases ht.starts hw hr' with hfirst | ⟨hempty, rfl⟩
    · exact hmeets _ hmem hfirst
    · refine hr (List.mem_append_right _ ?_)
      rwa [if_pos hempty]
  refine ⟨s ++ t, hs.line.append ht.line, fun {w} hw hr => ?_, fun {w} hw hr => ?_⟩
  · obtain ⟨hr, hmore⟩ := behind hw hr
    rw [List.append_assoc]
    rcases hs.starts (ht.line.append hw) hmore with hfirst | ⟨hempty, rfl⟩
    · exact .inl (List.mem_append_left _ hfirst)
    · refine (ht.starts hw hr).imp (fun hfirst => List.mem_append_right _ ?_) fun h => ?_
      · rwa [if_pos hempty]
      · exact ⟨Bool.and_eq_true_iff.2 ⟨hempty, h.1⟩, h.2⟩
  · obtain ⟨hr, hmore⟩ := behind hw hr
    rw [List.append_assoc, bind_of_some (hs.reads (ht.line.append hw) hmore), ht.reads hw hr]

theorem between {ρ : Shape} {opening closing : Parser Unit} (ho : HasText ρ opening ())
    (hp : HasText σ p a) (hc : HasText τ closing ()) :
    HasText (ρ.between σ τ) (between opening p closing) a :=
  ho.bind (hp.bind (hc.bind (.pure a)))

/-- What is not left out. -/
theorem opt_some (h : HasText σ p a) : HasText σ (opt p) (some a) := fun hs => by
  obtain ⟨s, hs⟩ := h hs
  exact ⟨s, hs.line, hs.starts, fun hw hr => opt_of_some (hs.reads hw hr)⟩

theorem opt {o : Option α} (hopens : Opens σ.first false p) (h : ∀ a ∈ o, HasText σ p a) :
    HasText σ.optional (opt p) o := by
  intro hsound
  have more {w : List Char} (hr : ahead w ∉ σ.optional.more) :
      ahead w ∉ σ.first ∧ ahead w ∉ σ.more := not_or.1 (mt List.mem_append.2 hr)
  cases o with
  | none =>
    exact ⟨[], onNewLine_nil, fun _ _ => .inr ⟨rfl, rfl⟩,
      fun _ hr => opt_of_none (hopens.eq_none (more hr).1)⟩
  | some a =>
    obtain ⟨s, hs⟩ := h a rfl (of_decide_eq_true hsound).1
    exact ⟨s, hs.line, fun hw hr => (hs.starts hw (more hr).2).imp_right fun h => ⟨rfl, h.2⟩,
      fun hw hr => opt_of_some (hs.reads hw (more hr).2)⟩

theorem many {as : List α} (hopens : Opens σ.first false p) (h : ∀ a ∈ as, HasText σ p a) :
    HasText σ.repeated (many p) as := by
  intro hsound
  obtain ⟨hσ, hne, hmeets⟩ := of_decide_eq_true hsound
  have more {w : List Char} (hr : ahead w ∉ σ.repeated.more) :
      ahead w ∉ σ.first ∧ ahead w ∉ σ.more := not_or.1 (mt List.mem_append.2 hr)
  induction as with
  | nil =>
    exact ⟨[], onNewLine_nil, fun _ _ => .inr ⟨rfl, rfl⟩,
      fun _ hr => many_nil (hopens.eq_none (more hr).1)⟩
  | cons a as ih =>
    obtain ⟨s, hs⟩ := h a List.mem_cons_self hσ
    obtain ⟨t, ht⟩ := ih fun b hb => h b (List.mem_cons_of_mem a hb)
    -- no item goes on by what the next one starts with
    have behind {w : List Char} (hw : OnNewLine w) (hr : ahead w ∉ σ.repeated.more) :
        ahead (t ++ w) ∉ σ.more := fun hmem => by
      rcases ht.starts hw hr with hfirst | ⟨-, rfl⟩
      · exact hmeets _ hmem hfirst
      · exact (more hr).2 hmem
    refine ⟨s ++ t, hs.line.append ht.line, fun {w} hw hr => ?_, fun {w} hw hr => ?_⟩
    · rw [List.append_assoc]
      refine (hs.starts (ht.line.append hw) (behind hw hr)).imp_right fun h => ?_
      rw [hne] at h
      cases h.1
    · have hread := hs.reads (ht.line.append hw) (behind hw hr)
      rw [List.append_assoc, many_cons hread (hopens.cut hread).2.length_lt, ht.reads hw hr,
        Option.map_some]

theorem orElse_left (h : HasText σ p a) (q : Parser α) : HasText σ (p <|> q) a := fun hs => by
  obtain ⟨s, hs⟩ := h hs
  exact ⟨s, hs.line, hs.starts, fun hw hr => orElse_of_some (hs.reads hw hr) q⟩

/-- Of two rules, the second is read where its text does not start as the first does. -/
theorem orElse_right {first next : List Ahead} {q : Parser α} (h : HasText { first } q a)
    (hp : Opens next false p) (hdiffer : ∀ k ∈ first, k ∉ next) :
    HasText { first } (p <|> q) a := fun _ => by
  obtain ⟨s, hs⟩ := h rfl
  refine ⟨s, hs.line, hs.starts, fun hw hr => ?_⟩
  rcases hs.starts hw hr with hfirst | ⟨hempty, -⟩
  · rw [orElse_of_none (hp.eq_none (hdiffer _ hfirst)), hs.reads hw hr]
  · cases hempty

/-- A token has a line of its own. -/
theorem token_of_starts {first more : List Ahead} {u : List Char} (hu : Visible u)
    (hstarts : ∀ {w}, OnNewLine w → ahead w ∉ more → ahead (u ++ w) ∈ first)
    (hread : ∀ {w}, OnNewLine w → ahead w ∉ more → p (u ++ w) = some (a, w)) :
    HasText { first, more } (token p) a := by
  refine fun _ => ⟨'\n' :: u, onNewLine_cons u, fun {w} hw hr => .inl ?_, fun {w} hw hr => ?_⟩
  · rw [List.cons_append, ahead, skipIgnored_ignored rfl]
    exact hstarts hw hr
  · rw [List.cons_append, token_apply, skipIgnored_ignored rfl, (hu.append w).skipIgnored]
    exact hread hw hr

theorem token {first more : List Ahead} {u : List Char} (hu : Visible u)
    (hopens : Opens first false p)
    (hread : ∀ {w}, OnNewLine w → ahead w ∉ more → p (u ++ w) = some (a, w)) :
    HasText { first, more } (token p) a :=
  token_of_starts hu (fun hw hr => (hopens.cut (hread hw hr)).1) hread

theorem symbol {c : Char} (hc : c ∈ marks) : HasText { first := [.mark c] } (symbol c) () :=
  have begins := begins_mark hc
  .token (visible_cons begins.1 (fun e => absurd (e ▸ hc) (by decide)) [])
    (opens_char begins) fun _ _ => char_cons c _

end HasText

/-! ### Tokens -/

theorem hasText_name {n : String} (h : isName n = true) :
    HasText { first := names } (token name) n :=
  .token (visible_of_isName h) opens_name fun hw _ => name_append h hw.breaks

/-- A mark that does not come next is none of the kinds of token that do. -/
theorem upcoming_ne_of_ahead {c : Char} (hc : c ∈ marks) {w : List Char} (h : ahead w ≠ .mark c) :
    upcoming w ≠ some c := by
  intro e
  obtain ⟨r, hr⟩ : ∃ r, skipIgnored w = c :: r := List.head?_eq_some_iff.1 e
  have hahead := (begins_mark hc).2 r
  rw [← hr, ahead_skipIgnored] at hahead
  exact h (List.mem_singleton.1 hahead)

theorem hasText_typeRef {t : TypeRef} (h : t.isWellFormed = true) :
    HasText typeRefShape (token typeRef) t :=
  .token (visible_typeRef h) (alone.fits_typeRef.opens rfl) fun hw hr =>
    typeRef_append h hw.breaks (upcoming_ne_of_ahead (by decide) fun e => hr (e ▸ .head _))

/-! ### Values -/

theorem exponentPart_printInt (exponent : Int) : exponentPart ('e' :: printInt exponent)
    = some ((decide (exponent < 0), Nat.toDigits 10 exponent.natAbs), []) := by
  have digits (n : Nat) :
      chars1 Char.isDigit (Nat.toDigits 10 n) = some (Nat.toDigits 10 n, []) := by
    have h := isDigits_toDigits n
    have hread := chars1_append (r := []) h.1 h.2 nofun
    rwa [List.append_nil] at hread
  refine (bind_of_some (satisfy_of_true rfl _) _).trans ?_
  cases exponent with
  | ofNat n =>
    obtain ⟨c, hc, hd⟩ := (isDigits_toDigits n).head? []
    rw [List.append_nil] at hc
    refine (bind_of_some (opt_of_none (satisfy_of_head? fun d hd' => ?_)) _).trans ?_
    · cases Option.some.inj (hc.symm.trans hd')
      refine Bool.eq_false_iff.2 fun h => ?_
      rw [Bool.or_eq_true, decide_eq_true_eq, decide_eq_true_eq] at h
      rcases h with rfl | rfl <;> cases hd
    · exact (bind_of_some (digits n) _).trans (by simp [pure_apply])
  | negSucc n =>
    refine (bind_of_some (opt_of_some (satisfy_of_true rfl _)) _).trans ?_
    exact (bind_of_some (digits (n + 1)) _).trans (by simp [pure_apply])

/-- Digits with a power of ten, and a sign before them. -/
def printScientific (negative : Bool) (digits : Nat) (exponent : Int) : List Char :=
  (if negative then ['-'] else []) ++ (Nat.toDigits 10 digits ++ 'e' :: printInt exponent)

theorem numberValue?_scientific (negative : Bool) (digits : Nat) (exponent : Int) :
    numberValue? negative (Nat.toDigits 10 digits) none
        (some (decide (exponent < 0), Nat.toDigits 10 exponent.natAbs))
      = some (.float (.ofDecimal negative digits exponent)) := by
  have hpower :
      (if exponent < 0 then -(exponent.natAbs : Int) else exponent.natAbs) = exponent := by
    split <;> omega
  simp only [numberValue?, Option.getD_none, Option.getD_some, List.append_nil, List.length_nil,
    digitsValue_toDigits, decide_eq_true_eq, hpower, Int.natCast_zero, Int.sub_zero]

/-- The nearest number to any decimal is read. -/
theorem number_printScientific (negative : Bool) (digits : Nat) (exponent : Int) :
    number (printScientific negative digits exponent)
      = some (.float (.ofDecimal negative digits exponent), []) := by
  have hdigits := isDigits_toDigits digits
  have hsign : opt (char '-') (printScientific negative digits exponent)
      = some (if negative then some () else none,
        Nat.toDigits 10 digits ++ 'e' :: printInt exponent) := by
    cases negative with
    | true => exact opt_of_some (char_cons _ _)
    | false => exact hdigits.opt_sign _
  have hwhole := chars1_append (r := 'e' :: printInt exponent) hdigits.1 hdigits.2
    (by rintro c ⟨⟩; rfl)
  have hfraction : opt fractionPart ('e' :: printInt exponent)
      = some (none, 'e' :: printInt exponent) :=
    opt_of_none (bind_of_none (char_of_head?_ne (by simp)) _)
  have hexponent := opt_of_some (exponentPart_printInt exponent)
  have hsigned : (if negative then some () else none).isSome = negative := by
    cases negative <;> rfl
  refine (bind_of_some hsign _).trans ((bind_of_some hwhole _).trans
    ((bind_of_some hfraction _).trans ((bind_of_some hexponent _).trans ?_)))
  rw [hsigned, numberValue?_scientific, Option.map_some]

theorem visible_printScientific (negative : Bool) (digits : Nat) (exponent : Int) :
    Visible (printScientific negative digits exponent) := by
  cases negative with
  | true => exact visible_cons (by decide) (by decide) _
  | false => exact (isDigits_toDigits digits).visible.append _

/-- A character as it is written between quotes: by an escape, where texts have one. -/
def quotedChar (c : Char) : List Char := if Text.isWritable c then Text.escapeChar c else [c]

theorem stringBody_quotedChar (c : Char) (s : List Char) :
    stringBody (quotedChar c ++ s) = (stringBody s).map fun x => (c :: x.1, x.2) := by
  unfold quotedChar
  split
  · next h => exact stringBody_escapeChar h s
  · next h =>
    simp only [Text.isWritable, Bool.or_eq_true, decide_eq_true_eq, not_or] at h
    exact stringBody_plain h.1.1.1.1 h.1.1.2 h.1.1.1.2 s

theorem head?_quotedChar_ne (c : Char) : ∃ d w, quotedChar c = d :: w ∧ d ≠ '"' := by
  unfold quotedChar
  split
  · exact head?_escapeChar_ne c
  · next h =>
    refine ⟨c, [], rfl, ?_⟩
    rintro rfl
    exact h rfl

theorem hasText_number_int {n : Int} (h : Number.fitsWord n = true) :
    HasText { first := [.mark '-', .digit] } (token number) (.int n) :=
  .token (visible_printInt n) opens_number fun hw _ => number_append h hw.breaks

theorem hasText_number_float {x : Binary64} (h : x.IsDecimal) :
    HasText { first := [.mark '-', .digit] } (token number) (.float x) := by
  obtain ⟨negative, digits, exponent, rfl⟩ := h
  exact .token (visible_printScientific negative digits exponent) opens_number fun hw _ =>
    inert_number.some (number_printScientific negative digits exponent) hw

/-- A text in quotes starts no block of text. -/
theorem hasText_string (s : String) (q : Parser Value) :
    HasText { first := [.mark '"'] }
      (token (Value.string <$> blockString <|> Value.string <$> string <|> q)) (.string s) := by
  have quotes := begins_mark (c := '"') (by decide)
  refine .token_of_starts (u := '"' :: (s.toList.flatMap quotedChar ++ ['"']))
    (visible_cons quotes.1 (by decide) _) (fun _ _ => quotes.2 _) fun {w} hw _ => ?_
  rw [List.cons_append, List.append_assoc, List.singleton_append,
    orElse_of_none
      (map_of_none (blockString_flatMap (fun c _ => head?_quotedChar_ne c) hw.breaks) _),
    orElse_of_some (map_of_some (string_flatMap (fun c _ => stringBody_quotedChar c) w) _),
    String.ofList_toList]

/-- Reads a list of values. -/
def listValue : Parser Value :=
  Value.list <$> between (char '[') (many (token value)) (symbol ']')

/-- Reads an object of values. -/
def objectValue : Parser Value :=
  Value.object <$> between (char '\x7b') (many (argument value)) (symbol '\x7d')

/-- What is no number and no text starts with a bracket, with a brace or with a name. -/
theorem hasText_value_of_rest {first : List Ahead} {v : Value}
    (h : HasText { first } (token (listValue <|> objectValue <|> wordValue <$> name)) v)
    (hfirst : ∀ k ∈ first, k ∈ .mark '[' :: .mark '\x7b' :: names) :
    HasText { first := valueKinds } (token value) v := by
  have differ (next : List Ahead)
      (hnext : ∀ k ∈ (.mark '[' :: .mark '\x7b' :: names), k ∉ next) : ∀ k ∈ first, k ∉ next :=
    fun k hk => hnext k (hfirst k hk)
  have text (p : Parser String) (hp : Opens [.mark '"'] false p) :
      Opens [.mark '"'] false (token (Value.string <$> p)) := (hp.map _).token
  rw [value_eq]
  refine HasText.mono (((h.orElse_right (text _ opens_string) (differ _ (by decide))).orElse_right
    (text _ opens_blockString) (differ _ (by decide))).orElse_right opens_number.token
      (differ _ (by decide))) ⟨rfl, fun k hk => ?_, nofun, nofun⟩
  exact (by decide : ∀ k ∈ .mark '[' :: .mark '\x7b' :: names, k ∈ valueKinds) k (hfirst k hk)

theorem hasText_value_of_number {v : Value}
    (h : HasText { first := [.mark '-', .digit] } (token number) v) :
    HasText { first := valueKinds } (token value) v := by
  rw [value_eq]
  exact (h.orElse_left _).mono (by decide)

theorem hasText_value_string (s : String) :
    HasText { first := valueKinds } (token value) (.string s) := by
  rw [value_eq]
  exact ((hasText_string s _).orElse_right opens_number.token (by decide)).mono (by decide)

theorem opens_value : Opens valueKinds false (token value) := alone.fits_value.token.opens rfl

theorem opens_argument : Opens names false (argument value) :=
  (alone.fits_argument alone.fits_value).opens rfl

theorem opens_listValue : Opens [.mark '['] false (token listValue) :=
  ((Fits.between (Fits.char (c := '[')) alone.fits_value.token.many Fits.symbol).map _).token.opens
    rfl

theorem opens_objectValue : Opens [.mark '\x7b'] false (token objectValue) :=
  ((Fits.between (Fits.char (c := '\x7b')) (alone.fits_argument alone.fits_value).many
    Fits.symbol).map _).token.opens rfl

theorem hasText_value_word {n : String} (h : isName n = true) :
    HasText { first := valueKinds } (token value) (wordValue n) :=
  hasText_value_of_rest ((((hasText_name h).map wordValue).orElse_right opens_objectValue
    (by decide)).orElse_right opens_listValue (by decide)) (by decide)

theorem hasText_value_list {items : List Value}
    (h : ∀ v ∈ items, HasText { first := valueKinds } (token value) v) :
    HasText { first := valueKinds } (token value) (.list items) := by
  have brackets : HasText { first := [.mark '['] } (token listValue) (.list items) :=
    .mono ((HasText.between (.symbol (c := '[') (by decide)) (.many opens_value h)
      (.symbol (by decide))).map Value.list) (by decide)
  exact hasText_value_of_rest (brackets.orElse_left _) (by decide)

theorem hasText_argument {q : String × Value} (hk : isName q.1 = true)
    (hv : HasText { first := valueKinds } (token value) q.2) :
    HasText { first := names } (argument value) q :=
  .mono (.bind (hasText_name hk) (.bind (.symbol (by decide)) (.bind hv (.pure _)))) (by decide)

theorem hasText_value_object {fields : List (String × Value)}
    (h : ∀ q ∈ fields, HasText { first := names } (argument value) q) :
    HasText { first := valueKinds } (token value) (.object fields) := by
  have braces : HasText { first := [.mark '\x7b'] } (token objectValue) (.object fields) :=
    .mono ((HasText.between (.symbol (c := '\x7b') (by decide)) (.many opens_argument h)
      (.symbol (by decide))).map Value.object) (by decide)
  exact hasText_value_of_rest ((braces.orElse_left _).orElse_right opens_listValue (by decide))
    (by decide)

/-- **A well-formed value is read off some text**, where its floats are those of decimals. -/
theorem hasText_value {v : Value} (hw : v.isWellFormed = true) (hd : v.HasDecimals) :
    HasText { first := valueKinds } (token value) v := by
  induction v using Value.induct with
  | null => exact hasText_value_word (n := "null") (by decide)
  | boolean b =>
    cases b with
    | false => exact hasText_value_word (n := "false") (by decide)
    | true => exact hasText_value_word (n := "true") (by decide)
  | int n => exact hasText_value_of_number (hasText_number_int hw)
  | float x => exact hasText_value_of_number (hasText_number_float (hd x .self))
  | string s => exact hasText_value_string s
  | enumeral n =>
    have word := hasText_value_word (Value.isWellFormed_enumeral_iff.1 hw).1
    rwa [wordValue_enumeral hw] at word
  | list items ih =>
    have parts := Value.isWellFormed_list_iff.1 hw
    exact hasText_value_list fun v hv => ih v hv (parts v hv) fun x hx => hd x (.item hv hx)
  | object fields ih =>
    have parts := Value.isWellFormed_object_iff.1 hw
    exact hasText_value_object fun q hq => hasText_argument (parts q hq).1
      (ih q hq (parts q hq).2 fun x hx => hd x (.entry hq hx))

/-! ### Directives and fields -/

/-- The name of a directive stands right behind its mark. -/
theorem hasText_mark {n : String} (h : isName n = true) :
    HasText { first := [.mark '@'] } (token (char '@' >>= fun _ => name)) n :=
  have begins := begins_mark (c := '@') (by decide)
  .token (u := '@' :: n.toList) (visible_cons begins.1 (by decide) _)
    ((opens_char begins).before fun _ => opens_name.trims)
    fun hw _ => (bind_of_some (char_cons _ _) _).trans (name_append h hw.breaks)

theorem hasText_directive {e : Directive} (hw : e.isWellFormed = true)
    (hd : ∀ v ∈ e.values, v.HasDecimals) :
    HasText { first := [.mark '@'], more := [.mark '('] } (token directive) e := by
  obtain ⟨hn, harguments⟩ := Directive.isWellFormed_iff.1 hw
  have entries : HasText { first := [.mark '('] }
      (between (symbol '(') (many (argument value)) (symbol ')')) e.arguments :=
    .mono (.between (.symbol (by decide)) (.many opens_argument fun q hq =>
      hasText_argument (harguments q hq).1
        (hasText_value (harguments q hq).2 (hd q.2 (List.mem_map_of_mem hq))))
      (.symbol (by decide))) (by decide)
  have parts : token directive = token (char '@' >>= fun _ => name) >>= fun n =>
      opt (between (symbol '(') (many (argument value)) (symbol ')')) >>= fun arguments =>
        pure ⟨n, arguments.getD []⟩ := by
    rw [token, token, bind_assoc, bind_assoc]
    rfl
  rw [parts]
  exact .mono (.bind (hasText_mark hn) (.bind entries.opt_some (.pure e))) (by decide)

theorem hasText_directives {es : List Directive} (hw : ∀ e ∈ es, e.isWellFormed = true)
    (hd : ∀ e ∈ es, ∀ v ∈ e.values, v.HasDecimals) :
    HasText directivesShape directives es :=
  .mono (.many (alone.fits_directive.token.opens rfl) fun e he =>
    hasText_directive (hw e he) (hd e he)) (by decide)

theorem hasText_noDirectives : HasText directivesShape directives [] :=
  hasText_directives nofun nofun

theorem hasText_defaultValue {v : Value} (hw : v.isWellFormed = true) (hd : v.HasDecimals) :
    HasText { first := [.mark '='] } defaultValue v :=
  .mono (.bind (.symbol (by decide)) (hasText_value hw hd)) (by decide)

/-- No text is described. -/
theorem hasText_noDescription :
    HasText (Shape.optional { first := [.mark '"'] }) (opt (token description)) none :=
  .opt (alone.fits_token_description.opens rfl) nofun

theorem hasText_argumentDefinition {a : ArgumentDefinition} (hw : a.isWellFormed = true)
    (hd : ∀ v ∈ a.values, v.HasDecimals) : HasText entryShape argumentDefinition a := by
  obtain ⟨hn, htype, hdefault⟩ := ArgumentDefinition.isWellFormed_iff.1 hw
  have default := HasText.opt (alone.fits_defaultValue.opens rfl) fun v hv =>
    hasText_defaultValue (hdefault v hv) (hd v (Option.mem_toList.2 hv))
  exact .mono (.bind hasText_noDescription (.bind (hasText_name hn) (.bind (.symbol (by decide))
    (.bind (hasText_typeRef htype) (.bind default
      (.bind hasText_noDirectives (.pure a))))))) (by decide)

theorem hasText_fieldDefinition {f : FieldDefinition} (hw : f.isWellFormed = true)
    (hd : ∀ v ∈ f.values, v.HasDecimals) : HasText entryShape fieldDefinition f := by
  obtain ⟨hn, harguments, htype, hdirectives⟩ := FieldDefinition.isWellFormed_iff.1 hw
  obtain ⟨hda, hde⟩ := List.forall_mem_append.1 hd
  have entries : HasText { first := [.mark '('] } argumentDefinitions f.arguments :=
    .mono (.between (.symbol (by decide)) (.many (alone.fits_argumentDefinition.opens rfl)
      fun a ha => hasText_argumentDefinition (harguments a ha)
        (List.forall_mem_flatMap.1 hda a ha)) (.symbol (by decide))) (by decide)
  have default := HasText.opt (o := none) (σ := { first := [.mark '='] })
    (alone.fits_defaultValue.opens rfl) nofun
  exact .mono (.bind hasText_noDescription (.bind (hasText_name hn) (.bind entries.opt_some
    (.bind (.symbol (by decide)) (.bind (hasText_typeRef htype) (.bind default
      (.bind (hasText_directives hdirectives (List.forall_mem_flatMap.1 hde)) (.pure f))))))))
    (by decide)

/-! ### Parts of definitions -/

/-- What is listed in braces, where nothing may be. -/
theorem hasText_block {p : Parser α} {as : List α} (hopens : Opens entryShape.first false p)
    (h : ∀ a ∈ as, HasText entryShape p a) :
    HasText { first := [.mark '\x7b'] } (block p) as :=
  .mono (.between (.symbol (by decide)) (.many hopens h) (.symbol (by decide))) (by decide)

/-- A list that may be left out is left out where it is empty. -/
theorem exists_hasText_opt {σ : Shape} {p : Parser (List α)} {as : List α}
    (hopens : Opens σ.first false p) (h : as ≠ [] → HasText σ p as) :
    ∃ o, o.getD [] = as ∧ HasText σ.optional (opt p) o := by
  cases as with
  | nil => exact ⟨none, rfl, .opt hopens nofun⟩
  | cons a as =>
    exact ⟨some (a :: as), rfl, .opt hopens fun _ he =>
      Option.some.inj he ▸ h (List.cons_ne_nil a as)⟩

theorem hasText_implements :
    HasText { first := [.implements] } (token (tag "implements".toList)) () :=
  .token (visible_of_isName (n := "implements") (by decide)) opens_implements
    fun _ _ => tag_append _ _

theorem hasText_implementsClause {ns : List String} (hne : ns ≠ [])
    (h : ∀ n ∈ ns, isName n = true) :
    HasText { first := [.implements], more := .mark '&' :: names } implementsClause ns := by
  have item {n : String} (hn : isName n = true) :
      HasText { first := .mark '&' :: names } interfaceItem n :=
    .mono (.bind (.opt (o := none) (σ := { first := [.mark '&'] })
      (opens_char (begins_mark (by decide))).token nofun) (hasText_name hn)) (by decide)
  cases ns with
  | nil => cases hne rfl
  | cons n ns =>
    obtain ⟨hn, hns⟩ := List.forall_mem_cons.1 h
    exact .mono (.bind hasText_implements (.bind (item hn) (.bind
      (.many (alone.fits_interfaceItem.opens rfl) fun m hm => item (hns m hm)) (.pure _))))
      (by decide)

theorem hasText_unionMembers {ns : List String} (hne : ns ≠ []) (h : ∀ n ∈ ns, isName n = true) :
    HasText { first := [.mark '='], more := [.mark '|'] } unionMembers ns := by
  have opens_bar : Opens [.mark '|'] false (symbol '|') :=
    (opens_char (begins_mark (by decide))).token
  cases ns with
  | nil => cases hne rfl
  | cons n ns =>
    obtain ⟨hn, hns⟩ := List.forall_mem_cons.1 h
    have others : HasText (Shape.repeated { first := [.mark '|'] })
        (many (symbol '|' >>= fun _ => token name)) ns :=
      .many (opens_bar.before fun _ => opens_name.token.trims) fun m hm =>
        .mono (.bind (.symbol (by decide)) (hasText_name (hns m hm))) (by decide)
    have bar := HasText.opt (o := none) (σ := { first := [.mark '|'] }) opens_bar nofun
    exact .mono (.bind (.symbol (by decide)) (.bind bar (.bind (hasText_name hn)
      (.bind others (.pure _))))) (by decide)

theorem hasText_enumMember {n : String} (h : isName n = true) : HasText entryShape enumMember n :=
  .mono (.bind hasText_noDescription (.bind (hasText_name h)
    (.bind hasText_noDirectives (.pure n)))) (by decide)

/-! ### Definitions -/

/-- The shape of what follows the keyword of a definition. -/
def definitionOfShape : Shape :=
  { first := names, more := [.mark '@', .mark '(', .mark '=', .mark '|'] }

/-- The shape of a definition. -/
def definitionShape : Shape := { definitionOfShape with first := .mark '"' :: names }

theorem hasText_keyword_bind {n : String} (hn : isName n = true) {q : String → Parser α} {a : α}
    (hq : HasText definitionOfShape (q n) a) : HasText definitionShape (keyword >>= q) a := by
  have word : HasText { first := .mark '"' :: names } keyword n :=
    .mono (.bind hasText_noDescription (hasText_name hn)) (by decide)
  exact (word.bind hq).mono (by decide)

section

variable {t : TypeDefinition} (hw : t.isWellFormed = true) (hd : ∀ v ∈ t.values, v.HasDecimals)

include hw hd

theorem hasText_directives_of_definition : HasText directivesShape directives t.directives :=
  hasText_directives (TypeDefinition.isWellFormed_iff.1 hw).2.2.1
    (List.forall_mem_flatMap.1 (List.forall_mem_append.1 hd).1)

/-- The fields are written even where there are none, so that no interface follows the last one. -/
theorem hasText_fieldsDefinition (hmembers : t.members = []) :
    HasText { first := names } (fieldsDefinition t.kind t.extends?) t := by
  obtain ⟨hn, himplements, -, hfields, -⟩ := TypeDefinition.isWellFormed_iff.1 hw
  have hdf := List.forall_mem_flatMap.1 (List.forall_mem_append.1 hd).2
  have directives := hasText_directives_of_definition hw hd
  have fields := hasText_block (alone.fits_fieldDefinition.opens rfl) fun f hf =>
    hasText_fieldDefinition (hfields f hf) (hdf f hf)
  obtain ⟨o, ho, interfaces⟩ := exists_hasText_opt (alone.fits_implementsClause.opens rfl)
    fun hne => hasText_implementsClause hne himplements
  have made : { t with implements := o.getD [], members := [] } = t := by rw [ho, ← hmembers]
  exact made ▸ .mono (.bind (hasText_name hn) (.bind interfaces (.bind directives
    (.bind fields.opt_some (.pure _))))) (by decide)

variable (hfields : t.fields = [] ∧ t.implements = [])

include hfields

theorem hasText_enumDefinition (hk : t.kind = .enumeration) :
    HasText { first := names } (enumDefinition t.extends?) t := by
  obtain ⟨hn, -, -, -, hmembers, -⟩ := TypeDefinition.isWellFormed_iff.1 hw
  have directives := hasText_directives_of_definition hw hd
  have members := hasText_block (alone.fits_enumMember.opens rfl) fun n hn =>
    hasText_enumMember (hmembers n hn)
  have made : { t with kind := .enumeration, implements := [], fields := [] } = t := by
    rw [← hk, ← hfields.1, ← hfields.2]
  exact made ▸ .mono (.bind (hasText_name hn) (.bind directives (.bind members.opt_some (.pure _))))
    (by decide)

theorem hasText_unionDefinition (hk : t.kind = .union) :
    HasText { first := names, more := [.mark '@', .mark '(', .mark '=', .mark '|'] }
      (unionDefinition t.extends?) t := by
  obtain ⟨hn, -, -, -, hmembers, -⟩ := TypeDefinition.isWellFormed_iff.1 hw
  have directives := hasText_directives_of_definition hw hd
  obtain ⟨o, ho, members⟩ := exists_hasText_opt (alone.fits_unionMembers.opens rfl)
    fun hne => hasText_unionMembers hne hmembers
  have made : { t with kind := .union, implements := [], fields := [],
                       members := o.getD [] } = t := by
    rw [ho, ← hk, ← hfields.1, ← hfields.2]
  exact made ▸ .mono (.bind (hasText_name hn) (.bind directives (.bind members (.pure _))))
    (by decide)

theorem hasText_scalarDefinition (hk : t.kind = .scalar) (hmembers : t.members = []) :
    HasText { first := names, more := [.mark '@', .mark '('] } (scalarDefinition t.extends?) t := by
  obtain ⟨hn, -⟩ := TypeDefinition.isWellFormed_iff.1 hw
  have directives := hasText_directives_of_definition hw hd
  obtain ⟨hf, hi⟩ := hfields
  cases t
  cases hk; cases hf; cases hi; cases hmembers
  exact .mono (.bind (hasText_name hn) (.bind directives (.pure _))) (by decide)

omit hfields

/-- Each definition is told by the keyword of its kind. -/
theorem hasText_definitionOf :
    HasText definitionOfShape (definitionOf t.kind.keyword t.extends?) (some t) := by
  have fits := TypeDefinition.fitsKind_iff.1 (TypeDefinition.isWellFormed_iff.1 hw).2.2.2.2.2
  have withFields (hk : t.kind.hasMembers = false) :
      HasText definitionOfShape (some <$> fieldsDefinition t.kind t.extends?) (some t) :=
    ((hasText_fieldsDefinition hw hd (fits.2 hk)).map some).mono (by decide)
  cases hk : t.kind with
  | object | input | interface =>
    have read := withFields (hk ▸ rfl)
    rwa [hk] at read
  | enumeration =>
    have read := hasText_enumDefinition hw hd (fits.1 (hk ▸ rfl)) hk
    exact (read.map some).mono (by decide)
  | union =>
    have read := hasText_unionDefinition hw hd (fits.1 (hk ▸ rfl)) hk
    exact (read.map some).mono (by decide)
  | scalar =>
    have read := hasText_scalarDefinition hw hd (fits.1 (hk ▸ rfl)) hk (fits.2 (hk ▸ rfl))
    exact (read.map some).mono (by decide)

/-- **A well-formed definition is read off some text**, where its floats are those of decimals. -/
theorem hasText_definition : HasText definitionShape definition (some t) := by
  have hkind := isName_keyword t.kind
  have definition := hasText_definitionOf hw hd
  rw [definition_eq]
  cases hx : t.extends? with
  | true =>
    rw [hx] at definition
    refine hasText_keyword_bind (n := "extend") (by decide) ?_
    rw [if_pos rfl]
    exact .mono (.bind (hasText_name hkind) definition) (by decide)
  | false =>
    rw [hx] at definition
    have hne : t.kind.keyword ≠ "extend" := by cases t.kind <;> decide
    refine hasText_keyword_bind hkind ?_
    rw [if_neg hne]
    exact definition

end

/-! ### Documents -/

/-- Definitions are read off the texts of each, one behind the other. -/
theorem exists_document_eq {ds : List TypeDefinition} (hw : ∀ t ∈ ds, t.isWellFormed = true)
    (hd : ∀ t ∈ ds, ∀ v ∈ t.values, v.HasDecimals) : ∃ s, document s = (ds, []) := by
  have definitions := HasText.many (opens_definition.mono (by decide) id)
    (List.forall_mem_map.2 fun t ht => hasText_definition (hw t ht) (hd t ht))
  obtain ⟨s, hs⟩ := definitions rfl
  have hread := hs.reads onNewLine_nil (by decide)
  rw [List.append_nil] at hread
  refine ⟨s, ?_⟩
  rw [document, Option.some.inj hread]
  simp

end Schema

/-- **The documents that are read**: the structured ones in which each float is the number nearest
to some decimal. -/
theorem Document.exists_text_iff (d : Document) : (∃ text, Document.parse text = .ok d) ↔
    d.IsStructured ∧ ∀ x, d.HasValue (.float x) → x.IsDecimal := by
  constructor
  · -- whatever is read has the properties that the rules give it
    rintro ⟨text, h⟩
    refine ⟨isStructured_iff.2 (isWellFormed_of_parse h), ?_⟩
    rintro x ⟨t, ht, v, hv, hx⟩
    exact (forall_of_parse Schema.yields_hasDecimals h t ht).2 v hv x hx
  · -- a text is put together from the parts of the document
    rintro ⟨hstructured, hdecimals⟩
    have hw := isWellFormed_iff_forall.1 (isStructured_iff.1 hstructured)
    obtain ⟨s, hs⟩ := Schema.exists_document_eq hw fun t ht v hv x hx =>
      hdecimals x ⟨t, ht, v, hv, hx⟩
    refine ⟨String.ofList s, parse_eq_ok_iff.2 ?_⟩
    rw [String.toList_ofList, hs]

end ApiCompiler
