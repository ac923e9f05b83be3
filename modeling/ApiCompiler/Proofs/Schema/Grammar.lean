import ApiCompiler.Proofs.Schema.Ahead

/-!
# Schema — the grammar with one token of lookahead

A rule that may go on where it could have stopped depends on what follows. Each rule has a shape
(`Shape`): the kinds of token that it starts with, and those by which it may go on where it could
have stopped. A rule that is read off a text reads the same off that text with something else behind
it, as long as it could not go on there (`Fits`), and this is so because no rule goes on by a token
that the rule behind it starts with (`Shape.andThen`).

* `Fits.bind`, `Fits.opt`, `Fits.many`: the combinators.
* `Fits.mono`: a rule has a shape of its own where that of its parts is sound, which is decided.
* `valueWithin_eq_value`, `typeRefWithin_eq_typeRef`: no text nests deeper than it is long.
* `value_eq`: a value is read by one rule, which reads the values in it as well.
* `Behind.fits_value`, `Behind.fits_fieldDefinition`: the rules, down to the parts of a definition.
-/

namespace ApiCompiler.Schema

open ApiCompiler.Parser

variable {α β : Type}

/-! ### Shapes -/

/-- The kinds of token that a rule starts with, those by which it may go on where it could have
stopped, and whether it may read nothing. It is sound where none of its parts goes on by a token
that the part behind it starts with. -/
structure Shape where
  first : List Ahead
  more  : List Ahead := []
  empty : Bool := false
  sound : Bool := true

namespace Shape

/-- What reads nothing. -/
def nothing : Shape := { first := [], empty := true }

/-- A mark. -/
def mark (c : Char) : Shape := { first := [.mark c], sound := decide (c ∈ marks) }

/-- A rule behind separators and comments. -/
def token (σ : Shape) : Shape :=
  { σ with sound := decide (σ.sound ∧ σ.empty = false ∧ .ending ∉ σ.first) }

/-- One rule behind another. -/
def andThen (σ τ : Shape) : Shape where
  first := σ.first ++ if σ.empty then τ.first else []
  more  := τ.more ++ if τ.empty then σ.more else []
  empty := σ.empty && τ.empty
  sound := decide (σ.sound ∧ τ.sound ∧ ∀ k ∈ σ.more, k ∉ τ.first)

/-- What may be left out. -/
def optional (σ : Shape) : Shape where
  first := σ.first
  more  := σ.first ++ σ.more
  empty := true
  sound := decide (σ.sound ∧ σ.empty = false)

/-- What may be left out or repeated. -/
def repeated (σ : Shape) : Shape :=
  { σ.optional with
    sound := decide (σ.sound ∧ σ.empty = false ∧ ∀ k ∈ σ.more, k ∉ σ.first) }

/-- One rule or another that starts with other tokens. -/
def either (σ τ : Shape) : Shape where
  first := σ.first ++ τ.first
  more  := σ.more ++ τ.more
  sound := decide ((σ.sound ∧ σ.empty = false) ∧ (τ.sound ∧ τ.empty = false)
    ∧ ∀ k ∈ τ.first, k ∉ σ.first)

/-- One rule in front of another one and a third behind it. -/
def between (ρ σ τ : Shape) : Shape := ρ.andThen (σ.andThen (τ.andThen nothing))

/-- Whether a shape is sound and another allows all that it does. -/
def Le (σ τ : Shape) : Prop :=
  σ.sound ∧ (∀ k ∈ σ.first, k ∈ τ.first) ∧ (σ.empty = true → τ.empty = true)
    ∧ ∀ k ∈ σ.more, k ∈ τ.more

instance (σ τ : Shape) : Decidable (σ.Le τ) :=
  inferInstanceAs (Decidable (σ.sound ∧ (∀ k ∈ σ.first, k ∈ τ.first)
    ∧ (σ.empty = true → τ.empty = true) ∧ ∀ k ∈ σ.more, k ∈ τ.more))

end Shape

/-- What `p` reads off a text with `m` behind it, up to `m` at most, it reads off the text with `w`
behind it, where it does not go on by what comes next. Nothing is said of shapes that are not
sound. -/
structure Fits (m w : List Char) (σ : Shape) (p : Parser α) : Prop where
  opens : σ.sound → Opens σ.first σ.empty p
  reads : σ.sound → ∀ {s : List Char} {a : α} {r : List Char}, p (s ++ m) = some (a, r ++ m) →
    ahead (r ++ w) ∉ σ.more → p (s ++ w) = some (a, r ++ w)

/-- Two texts that may stand behind another, the second on a new line. Quotes in it that could close
a block of text are in the first as well. -/
structure Behind (m w : List Char) : Prop where
  right : OnNewLine w
  quotes : blockQuotes <:+: w → blockQuotes <:+: m

/-- What stands behind a text may be left out. -/
theorem Behind.nil (m : List Char) : Behind m [] where
  right := onNewLine_nil
  quotes h := by
    have hlong := h.length_le
    cases hlong

namespace Fits

variable {m w : List Char} {σ τ : Shape} {p : Parser α}

theorem mono (h : Fits m w σ p) (hle : σ.Le τ) : Fits m w τ p where
  opens _ := (h.opens hle.1).mono hle.2.1 hle.2.2.1
  reads _ _ _ _ hp hr := h.reads hle.1 hp fun hmem => hr (hle.2.2.2 _ hmem)

theorem pure (a : α) : Fits m w .nothing (Pure.pure a : Parser α) where
  opens _ := .pure a
  reads _ _ _ _ hp _ := by
    obtain ⟨rfl, hr⟩ := Prod.mk.inj (Option.some.inj hp)
    rw [List.append_cancel_right hr]
    rfl

/-- **One rule behind another**: the second starts with a token that the first does not go on by,
or reads nothing and leaves what comes next to both. -/
theorem bind {q : α → Parser β} (hp : Fits m w σ p) (hq : ∀ a, Fits m w τ (q a)) :
    Fits m w (σ.andThen τ) (p >>= q) where
  opens hs := by
    obtain ⟨hσ, hτ, -⟩ := of_decide_eq_true hs
    exact (hp.opens hσ).bind fun a => (hq a).opens hτ
  reads hs s b r h hr := by
    obtain ⟨hσ, hτ, hmeets⟩ := of_decide_eq_true hs
    obtain ⟨a, x, ha, hb⟩ := exists_of_bind h
    obtain ⟨x, rfl⟩ := (List.suffix_append r m).trans (((hq a).opens hτ).suffix hb)
    have hread := (hq a).reads hτ hb fun hmem => hr (List.mem_append_left _ hmem)
    refine (bind_of_some (hp.reads hσ ha fun hmem => ?_) _).trans hread
    rcases (hq a).opens hτ _ _ _ hread with ⟨hfirst, -⟩ | ⟨hempty, heq⟩
    · exact hmeets _ hmem hfirst
    · rw [← heq] at hmem
      refine hr (List.mem_append_right _ ?_)
      rwa [if_pos hempty]

theorem map (h : Fits m w σ p) (f : α → β) : Fits m w σ (f <$> p) where
  opens hs := (h.opens hs).map f
  reads hs _ _ _ hp hr := by
    obtain ⟨a, ha, rfl⟩ := exists_of_map hp
    exact map_of_some (h.reads hs ha hr) f

theorem strict (h : Fits m w σ p) (hs : σ.sound) (hne : σ.empty = false) :
    Opens σ.first false p := hne ▸ h.opens hs

theorem opt (h : Fits m w σ p) : Fits m w σ.optional (opt p) where
  opens hs := by
    obtain ⟨hσ, hne⟩ := of_decide_eq_true hs
    exact (h.strict hσ hne).opt
  reads hs s o r hp hr := by
    obtain ⟨hσ, hne⟩ := of_decide_eq_true hs
    rw [Shape.optional, List.mem_append, not_or] at hr
    cases o with
    | none =>
      obtain rfl := List.append_cancel_right (eq_of_opt_none hp)
      exact opt_of_none ((h.strict hσ hne).eq_none hr.1)
    | some a => exact opt_of_some (h.reads hσ (of_opt hp) hr.2)

/-- **A repetition goes on behind what it has read**: no item goes on by what the next one starts
with. -/
theorem collect (h : Fits m w σ p) (hs : σ.repeated.sound) {s r : List Char} {as : List α}
    (has : collect p (s ++ m) = (as, r ++ m)) (hr : ahead (r ++ w) ∉ σ.more) :
    Parser.collect p (s ++ w)
      = (as ++ (Parser.collect p (r ++ w)).1, (Parser.collect p (r ++ w)).2) := by
  obtain ⟨hσ, hne, hmeets⟩ := of_decide_eq_true hs
  have hopens := h.strict hσ hne
  -- along the items that have been read
  induction as generalizing s with
  | nil =>
    obtain rfl := List.append_cancel_right (eq_of_collect_nil has)
    rfl
  | cons a as ih =>
    obtain ⟨x, ha, has⟩ := exists_of_collect_eq_cons has
    obtain ⟨x, rfl⟩ := (List.suffix_append r m).trans (hopens.suffix_of_collect has)
    have hrest := ih has
    have hitem := h.reads hσ ha fun hmem => by
      cases as with
      | nil =>
        obtain rfl := List.append_cancel_right (eq_of_collect_nil has)
        exact hr hmem
      | cons b as =>
        obtain ⟨y, hb, -⟩ := exists_of_collect_eq_cons hrest
        exact hmeets _ hmem (hopens.cut hb).1
    rw [collect_of_some hitem (hopens.cut hitem).2.length_lt, hrest]
    rfl

theorem many (h : Fits m w σ p) : Fits m w σ.repeated (many p) where
  opens hs := by
    obtain ⟨hσ, hne, -⟩ := of_decide_eq_true hs
    exact (h.strict hσ hne).many
  reads hs s as r hp hr := by
    obtain ⟨hσ, hne, -⟩ := of_decide_eq_true hs
    rw [Shape.repeated, Shape.optional, List.mem_append, not_or] at hr
    have hread := h.collect hs (Option.some.inj hp) hr.2
    rw [collect_of_none ((h.strict hσ hne).eq_none hr.1), List.append_nil] at hread
    exact congrArg some hread

/-- Of two rules, the second is read where the first does not read. -/
theorem orElse {first first' more more' : List Ahead} {q : Parser α}
    (hp : Fits m w { first, more } p) (hq : Fits m w { first := first', more := more' } q)
    (hnone : ∀ s, ahead (s ++ w) ∈ first' → p (s ++ m) = none → p (s ++ w) = none) :
    Fits m w { first := first ++ first', more := more ++ more' } (p <|> q) where
  opens _ := (hp.opens rfl).orElse (hq.opens rfl)
  reads _ s a r h hr := by
    rw [List.mem_append, not_or] at hr
    cases hs : p (s ++ m) with
    | some x =>
      obtain ⟨b, t⟩ := x
      rw [orElse_of_some hs] at h
      obtain ⟨rfl, rfl⟩ := Prod.mk.inj (Option.some.inj h)
      exact orElse_of_some (hp.reads rfl hs hr.1) q
    | none =>
      rw [orElse_of_none hs] at h
      have hread := hq.reads rfl h hr.2
      rw [orElse_of_none (hnone s ((hq.opens rfl).cut hread).1 hs), hread]

/-- Of two rules that start with different kinds of token, one is read. -/
theorem either {q : Parser α} (hp : Fits m w σ p) (hq : Fits m w τ q) :
    Fits m w (σ.either τ) (p <|> q) := by
  have apart (hs : (σ.either τ).sound) :
      Fits m w { first := σ.first ++ τ.first, more := σ.more ++ τ.more } (p <|> q) := by
    obtain ⟨⟨hσ, hne⟩, ⟨hτ, hne'⟩, hfirst⟩ := of_decide_eq_true hs
    exact orElse ⟨fun _ => hp.strict hσ hne, fun _ => hp.reads hσ⟩
      ⟨fun _ => hq.strict hτ hne', fun _ => hq.reads hτ⟩
      fun _ ht _ => (hp.strict hσ hne).eq_none (hfirst _ ht)
  exact ⟨fun hs => (apart hs).opens rfl, fun hs => (apart hs).reads rfl⟩

/-- **A token is read where the text is not blank**, and there it is the same whatever follows. -/
theorem token (h : Fits m w σ p) : Fits m w σ.token (token p) where
  opens hs := by
    obtain ⟨hσ, hne, -⟩ := of_decide_eq_true hs
    exact hne ▸ (h.strict hσ hne).token
  reads hs s a r hp hr := by
    obtain ⟨hσ, hne, hend⟩ := of_decide_eq_true hs
    rw [token_apply] at hp ⊢
    rcases blank_or_exists s with hblank | ⟨c, u, hu⟩
    · exact absurd hblank ((h.strict hσ hne).not_blank hend hp)
    · rw [hu m] at hp
      rw [hu w]
      exact h.reads hσ hp hr

theorem between {ρ : Shape} {opening closing : Parser Unit} (ho : Fits m w ρ opening)
    (hp : Fits m w σ p) (hc : Fits m w τ closing) :
    Fits m w (ρ.between σ τ) (between opening p closing) :=
  ho.bind fun _ => hp.bind fun _ => hc.bind fun _ => .pure _

theorem failure : Fits m w { first := [] } (failure : Parser α) where
  opens _ := nofun
  reads _ := nofun

end Fits

/-! ### Nesting -/

theorem agree_token {n : Nat} {p q : Parser α} (h : Agree n p q) : Agree n (token p) (token q) :=
  .behind (fun s _ _ hs => by cases hs; exact (skipIgnored_suffix s).length_le) fun _ => h

theorem agree_argument {n : Nat} {p q : Parser Value} (h : Agree n p q) :
    Agree n (argument p) (argument q) :=
  .behind (fun _ _ _ hs => (opens_name.token.suffix hs).length_le) fun _ =>
    .behind (fun _ _ _ hs => ((opens_char (begins_mark (by decide))).token.suffix hs).length_le)
      fun _ => (agree_token h).bind _

/-- Reads a value, with `p` for the values in it. -/
def valueBy (p : Parser Value) : Parser Value :=
  number
  <|> Value.string <$> blockString
  <|> Value.string <$> string
  <|> Value.list <$> between (char '[') (many (token p)) (symbol ']')
  <|> Value.object <$> between (char '\x7b') (many (argument p)) (symbol '\x7d')
  <|> wordValue <$> name

theorem agree_valueBy {n : Nat} {p q : Parser Value} (h : Agree n p q) :
    Agree (n + 1) (valueBy p) (valueBy q) :=
  (Agree.refl _ _).orElse <| (Agree.refl _ _).orElse <| (Agree.refl _ _).orElse <|
    (((agree_token h).many.between _ _).map _).orElse <|
      (((agree_argument h).many.between _ _).map _).orElse (Agree.refl _ _)

/-- **No value nests deeper than its text is long.** -/
theorem agree_valueWithin {n depth : Nat} (h : n ≤ depth) :
    Agree n (valueWithin n) (valueWithin depth) := by
  induction n generalizing depth with
  | zero =>
    intro s hs
    obtain rfl := List.eq_nil_of_length_eq_zero (Nat.le_zero.1 hs)
    cases depth <;> rfl
  | succ n ih =>
    cases depth with
    | zero => cases Nat.not_succ_le_zero n h
    | succ depth => exact agree_valueBy (ih (Nat.le_of_succ_le_succ h))

theorem valueWithin_eq_value {s : List Char} {depth : Nat} (h : s.length ≤ depth) :
    valueWithin depth s = value s :=
  (agree_valueWithin h s (Nat.le_refl _)).symm

/-- A value is read with its own rule for the values in it. -/
theorem value_eq : value = valueBy value := by
  funext s
  have inner : Agree s.length (valueWithin s.length) value := fun _ => valueWithin_eq_value
  rw [← valueWithin_eq_value (Nat.le_succ s.length)]
  exact agree_valueBy inner s (Nat.le_succ _)

/-- No type nests deeper than its text is long. -/
theorem agree_typeRefWithin {n depth : Nat} (h : n ≤ depth) :
    Agree n (typeRefWithin n) (typeRefWithin depth) := by
  induction n generalizing depth with
  | zero =>
    intro s hs
    obtain rfl := List.eq_nil_of_length_eq_zero (Nat.le_zero.1 hs)
    cases depth <;> rfl
  | succ n ih =>
    cases depth with
    | zero => cases Nat.not_succ_le_zero n h
    | succ depth =>
      have inner := ih (Nat.le_of_succ_le_succ h)
      exact ((Agree.refl _ _).orElse (((agree_token inner).between _ _).map _)).bind _

theorem typeRefWithin_eq_typeRef {s : List Char} {depth : Nat} (h : s.length ≤ depth) :
    typeRefWithin depth s = typeRef s :=
  (agree_typeRefWithin h s (Nat.le_refl _)).symm

/-! ### Tokens -/

theorem ahead_word {w : List Char} (hw : w.head?.any isNameStart = true) (r : List Char) :
    ahead (w ++ r) = if "implements".toList <+: w ++ r then .implements
      else if "repeatable".toList <+: w ++ r then .repeatable else .name := by
  cases w with
  | nil => cases hw
  | cons c w =>
    have hc : isNameStart c = true := hw
    rw [List.cons_append, ahead_cons (begins_name hc).1 (ne_of_isNameStart hc (by decide)),
      Ahead.of, if_pos hc]

theorem not_prefix_append {v w : List Char} (h : ¬ v <+: w ∧ ¬ w <+: v) (r : List Char) :
    ¬ v <+: w ++ r := fun hv =>
  (List.prefix_or_prefix_of_prefix hv (List.prefix_append w r)).elim h.1 h.2

theorem opens_implements : Opens [.implements] false (tag "implements".toList) := by
  refine opens_tag (by decide) (by decide) fun r => List.mem_singleton.2 ?_
  rw [ahead_word (by decide), if_pos (List.prefix_append _ r)]

theorem opens_repeatable : Opens [.repeatable] false (tag "repeatable".toList) := by
  refine opens_tag (by decide) (by decide) fun r => List.mem_singleton.2 ?_
  rw [ahead_word (by decide), if_neg (not_prefix_append (by decide) r),
    if_pos (List.prefix_append _ r)]

theorem opens_on : Opens [.name] false (tag "on".toList) := by
  refine opens_tag (by decide) (by decide) fun r => List.mem_singleton.2 ?_
  rw [ahead_word (by decide), if_neg (not_prefix_append (by decide) r),
    if_neg (not_prefix_append (by decide) r)]

namespace Fits

variable {m w : List Char}

/-- What has an end of its own is read whatever follows. -/
theorem of_closed {first : List Ahead} {p : Parser α} (hopens : Opens first false p)
    (hp : Closed p) : Fits m w { first } p where
  opens _ := hopens
  reads _ _ _ _ hread _ := hp.append hread w

theorem char {c : Char} : Fits m w (.mark c) (char c) where
  opens hs := opens_char (begins_mark (of_decide_eq_true hs))
  reads _ _ _ _ hread _ := (closed_char c).append hread w

theorem symbol {c : Char} : Fits m w (Shape.mark c).token (symbol c) := char.token

theorem token_implements :
    Fits m w { first := [.implements] } (Schema.token (tag "implements".toList)) :=
  (of_closed opens_implements (closed_tag _)).token.mono (by decide)

end Fits

/-- Reads an interface of a list. -/
def interfaceItem : Parser String := do
  let _ ← opt (symbol '&')
  token name

/-- The kinds of token that the place of a directive is. -/
def locationKinds : List Ahead :=
  [.digit, .other] ++ names ++ (marks.erase '|').map .mark

theorem begins_location {c : Char} (h : (!(isSeparator c || c = '|' || c = '#')) = true) :
    Begins locationKinds c := by
  simp only [Bool.not_eq_true', Bool.or_eq_false_iff, decide_eq_false_iff_not] at h
  obtain ⟨⟨hs, hbar⟩, hn⟩ := h
  refine ⟨hs, fun r => ?_⟩
  have marks (hc : c ∈ marks) : .mark c ∈ locationKinds :=
    List.mem_append_right _ (List.mem_map_of_mem ((List.mem_erase_of_ne hbar).2 hc))
  rw [ahead_cons hs hn, Ahead.of]
  split
  · split
    · decide
    · split <;> decide
  · split
    · decide
    · split
      · exact marks ‹_›
      · decide

namespace Behind

variable {m w : List Char} (h : Behind m w)

include h

theorem fits {first : List Ahead} {p : Parser α} (hopens : Opens first false p) (hp : Inert p)
    (hlocal : Local p) : Fits m w { first } p where
  opens _ := hopens
  reads _ _ _ _ hread _ := hp.some (hlocal.cut hread) h.right

theorem fits_name : Fits m w { first := names } name := h.fits opens_name inert_name local_name

theorem fits_token_name : Fits m w { first := names } (token name) :=
  h.fits_name.token.mono (by decide)

theorem fits_description : Fits m w { first := [.mark '"'] } description :=
  .mono (.orElse (.of_closed opens_blockString closed_blockString)
    (.of_closed opens_string closed_string)
    fun _ _ hs => blockString_append_none hs h.right h.quotes) (by decide)

theorem fits_token_description : Fits m w { first := [.mark '"'] } (token description) :=
  (h.fits_description.token).mono (by decide)

/-! ### Values and directives -/

/-- The kinds of token that a value starts with. -/
def valueKinds : List Ahead :=
  [.mark '-', .digit, .mark '"', .mark '[', .mark '\x7b'] ++ names

theorem fits_argument {p : Parser Value} (hp : Fits m w { first := valueKinds } p) :
    Fits m w { first := names } (argument p) :=
  .mono (.bind h.fits_token_name fun _ => .bind Fits.symbol fun _ => .bind (hp.token) fun _ =>
    .pure _) (by decide)

theorem fits_valueWithin (depth : Nat) :
    Fits m w { first := valueKinds } (valueWithin depth) := by
  induction depth with
  | zero => exact Fits.failure.mono (by decide)
  | succ depth ih =>
    have items := Fits.between (Fits.char (c := '[')) (ih.token).many (Fits.symbol (c := ']'))
    have fields := Fits.between (Fits.char (c := '\x7b')) (h.fits_argument ih).many
      (Fits.symbol (c := '\x7d'))
    have others : Fits m w { first := [.mark '"', .mark '[', .mark '\x7b'] ++ names } _ :=
      .mono (.either ((Fits.of_closed opens_string closed_string).map Value.string)
        (.either (items.map Value.list) (.either (fields.map Value.object)
          (h.fits_name.map wordValue)))) (by decide)
    refine .mono (.either (h.fits opens_number inert_number local_number)
      (.orElse ((Fits.of_closed opens_blockString closed_blockString).map Value.string) others
        fun s _ hs => ?_)) (by decide)
    -- a block that is not closed is read as an empty text, here as there
    rw [map_apply, Option.map_eq_none_iff] at hs ⊢
    exact blockString_append_none hs h.right h.quotes

theorem fits_value : Fits m w { first := valueKinds } value where
  opens _ s _ _ hp := (h.fits_valueWithin s.length).opens rfl s _ _ hp
  reads _ s a r hp hr := by
    have hm := valueWithin_eq_value (Nat.le_add_right (s ++ m).length (s ++ w).length)
    have hw := valueWithin_eq_value (Nat.le_add_left (s ++ w).length (s ++ m).length)
    rw [← hm] at hp
    rw [← hw]
    exact (h.fits_valueWithin _).reads rfl hp hr

theorem fits_directive : Fits m w { first := [.mark '@'], more := [.mark '('] } directive :=
  .mono (.bind Fits.char fun _ => .bind h.fits_name fun _ => .bind
    (Fits.between Fits.symbol (h.fits_argument h.fits_value).many Fits.symbol).opt fun _ =>
      .pure _) (by decide)

/-- The shape of directives. -/
def directivesShape : Shape :=
  { first := [.mark '@'], more := [.mark '@', .mark '('], empty := true }

theorem fits_directives : Fits m w directivesShape directives :=
  (h.fits_directive.token).many.mono (by decide)

/-! ### Types and fields -/

/-- The shape of a type. -/
def typeRefShape : Shape := { first := .mark '[' :: names, more := [.mark '!'] }

theorem fits_typeRefWithin (depth : Nat) : Fits m w typeRefShape (typeRefWithin depth) := by
  induction depth with
  | zero => exact Fits.failure.mono (by decide)
  | succ depth ih =>
    have items := Fits.between (Fits.char (c := '[')) (ih.token) (Fits.symbol (c := ']'))
    exact .mono (.bind (.either (h.fits_name.map TypeRef.named) (items.map TypeRef.list)) fun _ =>
      .bind Fits.symbol.opt fun _ => .pure _) (by decide)

theorem fits_typeRef : Fits m w typeRefShape typeRef where
  opens _ s _ _ hp := (h.fits_typeRefWithin s.length).opens rfl s _ _ hp
  reads _ s a r hp hr := by
    have hm := typeRefWithin_eq_typeRef (Nat.le_add_right (s ++ m).length (s ++ w).length)
    have hw := typeRefWithin_eq_typeRef (Nat.le_add_left (s ++ w).length (s ++ m).length)
    rw [← hm] at hp
    rw [← hw]
    exact (h.fits_typeRefWithin _).reads rfl hp hr

theorem fits_defaultValue : Fits m w { first := [.mark '='] } defaultValue :=
  .mono (.bind Fits.symbol fun _ => h.fits_value.token) (by decide)

/-- The shape of what is listed in brackets: a name, which may be described, and what is said about
it. -/
def entryShape : Shape :=
  { first := .mark '"' :: names, more := [.mark '!', .mark '=', .mark '@', .mark '('] }

theorem fits_argumentDefinition : Fits m w entryShape argumentDefinition :=
  .mono (.bind h.fits_token_description.opt fun _ => .bind h.fits_token_name fun _ =>
    .bind Fits.symbol fun _ => .bind (h.fits_typeRef.token) fun _ =>
      .bind h.fits_defaultValue.opt fun _ => .bind h.fits_directives fun _ => .pure _) (by decide)

theorem fits_argumentDefinitions : Fits m w { first := [.mark '('] } argumentDefinitions :=
  .mono (.between Fits.symbol h.fits_argumentDefinition.many Fits.symbol) (by decide)

theorem fits_fieldDefinition : Fits m w entryShape fieldDefinition :=
  .mono (.bind h.fits_token_description.opt fun _ => .bind h.fits_token_name fun _ =>
    .bind h.fits_argumentDefinitions.opt fun _ => .bind Fits.symbol fun _ =>
      .bind (h.fits_typeRef.token) fun _ => .bind h.fits_defaultValue.opt fun _ =>
        .bind h.fits_directives fun _ => .pure _) (by decide)

omit h in
theorem fits_block {p : Parser α} (hp : Fits m w entryShape p) :
    Fits m w { first := [.mark '\x7b'] } (block p) :=
  .mono (.between Fits.symbol hp.many Fits.symbol) (by decide)

/-! ### Parts of definitions -/

theorem fits_interfaceItem : Fits m w { first := .mark '&' :: names } interfaceItem :=
  .mono (.bind Fits.symbol.opt fun _ => h.fits_token_name) (by decide)

theorem fits_implementsClause :
    Fits m w { first := [.implements], more := .mark '&' :: names } implementsClause :=
  .mono (.bind Fits.token_implements fun _ => .bind h.fits_interfaceItem fun _ =>
    .bind h.fits_interfaceItem.many fun _ => .pure _) (by decide)

theorem fits_enumMember : Fits m w entryShape enumMember :=
  .mono (.bind h.fits_token_description.opt fun _ => .bind h.fits_token_name fun _ =>
    .bind h.fits_directives fun _ => .pure _) (by decide)

theorem fits_enumDefinition (extends? : Bool) :
    Fits m w { first := names, more := [.mark '@', .mark '(', .mark '\x7b'] }
      (enumDefinition extends?) :=
  .mono (.bind h.fits_token_name fun _ => .bind h.fits_directives fun _ =>
    .bind (fits_block h.fits_enumMember).opt fun _ => .pure _) (by decide)

theorem fits_unionMembers : Fits m w { first := [.mark '='], more := [.mark '|'] } unionMembers :=
  .mono (.bind Fits.symbol fun _ => .bind Fits.symbol.opt fun _ => .bind h.fits_token_name
    fun _ => .bind (Fits.bind Fits.symbol fun _ => h.fits_token_name).many fun _ => .pure _)
    (by decide)

theorem fits_unionDefinition (extends? : Bool) :
    Fits m w { first := names, more := [.mark '@', .mark '(', .mark '=', .mark '|'] }
      (unionDefinition extends?) :=
  .mono (.bind h.fits_token_name fun _ => .bind h.fits_directives fun _ =>
    .bind h.fits_unionMembers.opt fun _ => .pure _) (by decide)

theorem fits_scalarDefinition (extends? : Bool) :
    Fits m w { first := names, more := [.mark '@', .mark '('] } (scalarDefinition extends?) :=
  .mono (.bind h.fits_token_name fun _ => .bind h.fits_directives fun _ => .pure _) (by decide)

theorem fits_schemaBlock : Fits m w { first := [.mark '@', .mark '\x7b'] } schemaBlock := by
  have operation : Fits m w entryShape (do
      let _ ← token name
      symbol ':'
      token name) :=
    .mono (.bind h.fits_token_name fun _ => .bind Fits.symbol fun _ => h.fits_token_name)
      (by decide)
  exact .mono (.bind h.fits_directives fun _ => .bind (fits_block operation) fun _ => .pure _)
    (by decide)

theorem fits_directiveDeclaration :
    Fits m w { first := [.mark '@'], more := [.mark '|'] } directiveDeclaration := by
  have location := (h.fits (opens_chars1 fun _ => begins_location) (inert_chars1 (by decide))
    (local_chars1 fun _ hc => (begins_location hc).1)).token
  exact .mono (.bind Fits.symbol fun _ => .bind h.fits_name fun _ =>
    .bind h.fits_argumentDefinitions.opt fun _ =>
      .bind (Fits.of_closed opens_repeatable (closed_tag _)).token.opt fun _ =>
        .bind (Fits.of_closed opens_on (closed_tag _)).token fun _ =>
          .bind Fits.symbol.opt fun _ => .bind
            (.bind location fun _ => .bind (Fits.bind Fits.symbol fun _ => location).many
              fun _ => .pure _) fun _ => .pure _) (by decide)

end Behind

end ApiCompiler.Schema
