import ApiCompiler.Proofs.Schema.Tokens

/-!
# Schema — what comes next

Which rule of the grammar reads a text is told by the first token of the text, and often by its
kind alone (`Ahead`). Behind a text that goes on with a new line, its last token ends where it does
without, so no token can tell what stands on that line (`Inert`). Where the text is cut behind a
token, the token is the same (`Local`). Blocks of text are the exception: where none is closed, its
quotes are read as an empty text.

* `skipFrom_cases`: a text is blank, or something to be read stands in it whatever follows.
* `Opens`: what a parser starts with, with a lemma for each combinator.
* `Inert`: a parser that reads the same with a new line behind the text.
* `Closed`, `Local`: a parser that reads the same with anything, or with nothing, behind it.
* `blockString_append_none`: a block of text is not read where the quotes behind it do not close it.
-/

namespace ApiCompiler.Schema

open ApiCompiler.Parser

variable {α β : Type}

/-! ### Kinds of tokens -/

/-- What a text goes on with, as far as the rules of the grammar are told apart by it. A `#` that
starts no comment is read by none of them. -/
inductive Ahead
  | ending | name | implements | repeatable | digit | mark (c : Char) | other
  deriving DecidableEq

/-- The characters that are tokens on their own. -/
def marks : List Char := "@()\x7b\x7d[]=|&!:-.\"".toList

/-- What a text that starts with neither a separator nor a comment goes on with. -/
def Ahead.of : List Char → Ahead
  | []     => .ending
  | c :: r =>
    if isNameStart c then
      if "implements".toList <+: c :: r then .implements
      else if "repeatable".toList <+: c :: r then .repeatable
      else .name
    else if c.isDigit then .digit
    else if c ∈ marks then .mark c
    else if c = '#' then .ending
    else .other

/-- What a text goes on with after separators and comments. -/
def ahead (s : List Char) : Ahead := .of (skipIgnored s)

/-- The kinds of token that are names. -/
def names : List Ahead := [.name, .implements, .repeatable]

/-! ### Skipping -/

/-- Nothing, or something on a new line. -/
def OnNewLine (t : List Char) : Prop := ∀ c ∈ t.head?, c = '\n'

theorem onNewLine_nil : OnNewLine [] := nofun

theorem onNewLine_cons (t : List Char) : OnNewLine ('\n' :: t) := by
  rintro c ⟨⟩
  rfl

theorem OnNewLine.cases {t : List Char} (h : OnNewLine t) : t = [] ∨ ∃ u, t = '\n' :: u := by
  cases t with
  | nil => exact .inl rfl
  | cons c u => exact .inr ⟨u, by rw [h c rfl]⟩

theorem OnNewLine.dropWhile_append {p : Char → Bool} (hp : p '\n' = false) {t : List Char}
    (h : OnNewLine t) (s : List Char) : (s ++ t).dropWhile p = s.dropWhile p ++ t := by
  induction s with
  | nil => rcases h.cases with rfl | ⟨u, rfl⟩ <;> simp [hp]
  | cons c s ih =>
    cases hc : p c with
    | true => simpa [hc] using ih
    | false => simp [hc]

theorem OnNewLine.takeWhile_append {p : Char → Bool} (hp : p '\n' = false) {t : List Char}
    (h : OnNewLine t) (s : List Char) : (s ++ t).takeWhile p = s.takeWhile p := by
  induction s with
  | nil => rcases h.cases with rfl | ⟨u, rfl⟩ <;> simp [hp]
  | cons c s ih =>
    cases hc : p c with
    | true => simpa [hc] using ih
    | false => simp [hc]

theorem skipFrom_suffix (inComment : Bool) (s : List Char) : skipFrom inComment s <:+ s := by
  fun_induction skipFrom inComment s with
  | case1 => exact List.suffix_refl _
  | case2 c r ih | case3 _ c r _ _ ih | case4 _ c r _ _ _ ih =>
    exact ih.trans (List.suffix_cons c r)
  | case5 => exact List.suffix_refl _

theorem skipIgnored_suffix (s : List Char) : skipIgnored s <:+ s := skipFrom_suffix false s

@[simp] theorem skipIgnored_skipIgnored (s : List Char) :
    skipIgnored (skipIgnored s) = skipIgnored s := by
  show skipIgnored (skipFrom false s) = skipFrom false s
  generalize false = inComment
  fun_induction skipFrom inComment s with
  | case1 => rfl
  | case2 _ _ ih | case3 _ _ _ _ _ ih | case4 _ _ _ _ _ _ ih => exact ih
  | case5 _ c r hin hsep hc =>
    rw [skipIgnored, skipFrom, if_neg Bool.false_ne_true, if_neg hsep, if_neg hc]

@[simp] theorem ahead_skipIgnored (s : List Char) : ahead (skipIgnored s) = ahead s := by
  rw [ahead, skipIgnored_skipIgnored, ahead]

/-- A comment is skipped with the character that ends its line. -/
theorem skipFrom_true (s : List Char) :
    skipFrom true s = skipIgnored (s.dropWhile fun c => !isLineEnd c).tail := by
  induction s with
  | nil => rfl
  | cons c r ih =>
    rw [skipFrom, if_pos rfl]
    cases hc : isLineEnd c with
    | true => simp [hc, skipIgnored]
    | false => simpa [hc] using ih

/-- Whether nothing is to be read in a text, so that it leaves what stands on a new line behind it.
Of what stands right behind it, it may take a part into a comment. -/
structure Blank (s : List Char) : Prop where
  rest  : ∀ t, ahead (s ++ t) = .ending ∨ skipIgnored (s ++ t) <:+ t
  skips : ∀ t, skipIgnored (s ++ '\n' :: t) = skipIgnored t

/-- Whether a text ends within a line, or with a carriage return, which only the line feed behind it
makes the end of a line. -/
def EndsOpen (s : List Char) : Prop :=
  s.dropWhile (fun c => !isLineEnd c) = [] ∨ s.dropWhile (fun c => !isLineEnd c) = ['\r']

namespace EndsOpen

variable {s : List Char}

theorem dropWhile_append (h : EndsOpen s) (t : List Char) :
    (s ++ t).dropWhile (fun c => !isLineEnd c) = t.dropWhile (fun c => !isLineEnd c)
      ∨ (s ++ t).dropWhile (fun c => !isLineEnd c) = '\r' :: t := by
  rw [List.dropWhile_append]
  rcases h with h | h
  · left
    rw [h, List.isEmpty_nil, if_pos rfl]
  · right
    rw [h]
    rfl

/-- A comment with such a text in front takes in nothing but a part of what follows. -/
theorem skipFrom_suffix (h : EndsOpen s) (t : List Char) : skipFrom true (s ++ t) <:+ t := by
  rw [skipFrom_true]
  rcases h.dropWhile_append t with hd | hd
  · rw [hd]
    exact ((skipIgnored_suffix _).trans (List.tail_suffix _)).trans (List.dropWhile_suffix _)
  · rw [hd]
    exact skipIgnored_suffix t

/-- On a new line the comment has ended. -/
theorem newLine (h : EndsOpen s) (t : List Char) : endsLine (s ++ '\n' :: t) = true
    ∧ skipFrom true (s ++ '\n' :: t) = skipIgnored t := by
  rw [skipFrom_true, endsLine]
  rcases h.dropWhile_append ('\n' :: t) with hd | hd
  · rw [hd]
    exact ⟨rfl, rfl⟩
  · rw [hd]
    exact ⟨rfl, rfl⟩

/-- Only a line feed makes such a text end its line where it does not. -/
theorem eq_cons_of_endsLine (h : EndsOpen s) (hs : ¬ endsLine s = true) {t : List Char}
    (ht : endsLine (s ++ t) = true) : ∃ u, t = '\n' :: u := by
  rcases h with h | h
  · rw [endsLine, h] at hs
    exact absurd rfl hs
  · rw [endsLine, List.dropWhile_append, h, if_neg (by simp)] at ht
    cases t with
    | nil => cases ht
    | cons c u =>
      by_cases hc : c = '\n'
      · exact ⟨u, by rw [hc]⟩
      · simp [hc] at ht

end EndsOpen

/-- What follows a line is nothing to it, unless the text ends within the line. -/
theorem endsLine_append (s : List Char) :
    (∀ t, endsLine (s ++ t) = endsLine s) ∨ EndsOpen s := by
  by_cases hs : EndsOpen s
  · exact .inr hs
  · left
    intro t
    obtain ⟨hnil, hreturn⟩ := not_or.1 hs
    rw [endsLine, endsLine, List.dropWhile_append, if_neg (by simpa using hnil)]
    generalize s.dropWhile (fun c => !isLineEnd c) = d at hnil hreturn
    cases d with
    | nil => exact absurd rfl hnil
    | cons c r =>
      by_cases hn : c = '\n'
      · subst hn
        rfl
      by_cases hr : c = '\r'
      · subst hr
        cases r with
        | nil => exact absurd rfl hreturn
        | cons e r =>
          by_cases he : e = '\n'
          · subst he
            rfl
          · simp [he]
      · simp [hn, hr]

/-- Where a comment starts in front of such a text, nothing else is to be read. -/
theorem EndsOpen.comment {s : List Char} (h : EndsOpen s) {inComment : Bool}
    (hin : ¬ inComment = true) :
    (∀ t, skipFrom inComment ('#' :: s ++ '\n' :: t) = skipIgnored t)
      ∧ ∀ t, Ahead.of (skipFrom inComment ('#' :: s ++ t)) = .ending
          ∨ skipFrom inComment ('#' :: s ++ t) <:+ t := by
  have hash : ¬ isSeparator '#' = true := by decide
  refine ⟨fun t => ?_, fun t => ?_⟩
  · rw [List.cons_append, skipFrom, if_neg hin, if_neg hash, if_pos (by simp [(h.newLine t).1])]
    exact (h.newLine t).2
  · rw [List.cons_append, skipFrom, if_neg hin, if_neg hash]
    split
    · exact .inr (h.skipFrom_suffix t)
    · exact .inl rfl

/-- **A text is blank, or it has something to be read in it**, whatever follows. -/
theorem skipFrom_cases (inComment : Bool) (s : List Char) :
    ((∀ t, skipFrom inComment (s ++ '\n' :: t) = skipIgnored t)
        ∧ ∀ t, Ahead.of (skipFrom inComment (s ++ t)) = .ending
          ∨ skipFrom inComment (s ++ t) <:+ t)
      ∨ ∃ c u, ∀ t, skipFrom inComment (s ++ t) = c :: u ++ t := by
  fun_induction skipFrom inComment s with
  | case1 inComment =>
    exact .inl ⟨fun t => by cases inComment <;> rfl, fun t => .inr (skipFrom_suffix inComment t)⟩
  | case2 c r ih => simpa [skipFrom] using ih
  | case3 _ c r hin hsep ih => simpa [skipFrom, hin, hsep] using ih
  | case4 inComment c r hin hsep hc ih =>
    rw [Bool.and_eq_true, decide_eq_true_eq] at hc
    obtain ⟨rfl, hline⟩ := hc
    rcases endsLine_append r with hr | hr
    · have goes : ∀ t, skipFrom inComment ('#' :: r ++ t) = skipFrom true (r ++ t) := fun t => by
        rw [List.cons_append, skipFrom, if_neg hin, if_neg hsep, if_pos (by simp [hr t, hline])]
      simpa only [goes] using ih
    · exact .inl (hr.comment hin)
  | case5 inComment c r hin hsep hc =>
    rw [Bool.and_eq_true, decide_eq_true_eq, not_and, Bool.not_eq_true] at hc
    have stays : ∀ t, (c = '#' → endsLine (r ++ t) = false) →
        skipFrom inComment (c :: r ++ t) = c :: r ++ t := fun t ht => by
      rw [List.cons_append, skipFrom, if_neg hin, if_neg hsep, if_neg]
      rw [Bool.and_eq_true, decide_eq_true_eq, not_and, Bool.not_eq_true]
      exact ht
    by_cases hn : c = '#'
    · subst hn
      rcases endsLine_append r with hr | hr
      · exact .inr ⟨'#', r, fun t => stays t fun _ => (hr t).trans (hc rfl)⟩
      · exact .inl (hr.comment hin)
    · exact .inr ⟨c, r, fun t => stays t fun h => absurd h hn⟩

theorem blank_or_exists (s : List Char) :
    Blank s ∨ ∃ c u, ∀ t, skipIgnored (s ++ t) = c :: u ++ t :=
  (skipFrom_cases false s).imp_left fun h => ⟨h.2, h.1⟩

/-! ### What a parser starts with -/

/-- Whether `r` is what follows a character of `s` that is no separator. -/
def Cut (s r : List Char) : Prop := ∃ u c, isSeparator c = false ∧ s = u ++ c :: r

namespace Cut

variable {s r t : List Char}

theorem of_suffix (h : Cut s r) (hs : s <:+ t) : Cut t r := by
  obtain ⟨u, c, hc, rfl⟩ := h
  obtain ⟨v, rfl⟩ := hs
  exact ⟨v ++ u, c, hc, (List.append_assoc v u _).symm⟩

theorem suffix (h : Cut s r) : r <:+ s := by
  obtain ⟨u, c, -, rfl⟩ := h
  exact (List.suffix_cons c r).trans (List.suffix_append u _)

theorem trans (h : Cut s r) (h' : Cut r t) : Cut s t := h'.of_suffix h.suffix

theorem length_lt (h : Cut s r) : r.length < s.length := by
  obtain ⟨u, c, -, rfl⟩ := h
  simp
  omega

theorem cons {c : Char} (hc : isSeparator c = false) (r : List Char) : Cut (c :: r) r :=
  ⟨[], c, hc, rfl⟩

end Cut

/-- Whether `p` reads a text that starts with a token of one of the kinds `first`, and ends with
a token; or, where it may be `empty`, takes no part of the text. -/
def Opens (first : List Ahead) (empty : Bool) (p : Parser α) : Prop :=
  ∀ s a r, p s = some (a, r) → (ahead s ∈ first ∧ Cut s r) ∨ (empty = true ∧ r = s)

namespace Opens

variable {first next : List Ahead} {empty empty' : Bool} {p : Parser α}

theorem suffix (h : Opens first empty p) {s r : List Char} {a : α} (hp : p s = some (a, r)) :
    r <:+ s := by
  rcases h s a r hp with ⟨-, h⟩ | ⟨-, rfl⟩
  · exact h.suffix
  · exact List.suffix_refl _

theorem cut (h : Opens first false p) {s r : List Char} {a : α} (hp : p s = some (a, r)) :
    ahead s ∈ first ∧ Cut s r :=
  (h s a r hp).resolve_right fun h => Bool.false_ne_true h.1

/-- A text that starts with another kind of token is not read. -/
theorem eq_none (h : Opens first false p) {s : List Char} (hs : ahead s ∉ first) : p s = none := by
  cases hp : p s with
  | none => rfl
  | some x => exact absurd (h.cut hp).1 hs

theorem mono (h : Opens first empty p) (hf : first ⊆ next) (he : empty = true → empty' = true) :
    Opens next empty' p := fun s a r hp =>
  (h s a r hp).imp (And.imp_left (@hf _)) (And.imp_left he)

theorem pure (a : α) : Opens [] true (Pure.pure a : Parser α) := by
  intro s b r h
  cases h
  exact .inr ⟨rfl, rfl⟩

theorem bind {q : α → Parser β} (hp : Opens first empty p) (hq : ∀ a, Opens next empty' (q a)) :
    Opens (first ++ if empty then next else []) (empty && empty') (p >>= q) := by
  intro s b t h
  obtain ⟨a, r, ha, hb⟩ := exists_of_bind h
  rcases hp s a r ha with ⟨hs, hr⟩ | ⟨rfl, rfl⟩
  · refine .inl ⟨List.mem_append_left _ hs, ?_⟩
    rcases hq a r b t hb with ⟨-, ht⟩ | ⟨-, rfl⟩
    · exact hr.trans ht
    · exact hr
  · exact (hq a r b t hb).imp_left (And.imp_left (List.mem_append_right _))

theorem map (hp : Opens first empty p) (f : α → β) : Opens first empty (f <$> p) := by
  intro s b r h
  obtain ⟨a, ha, -⟩ := exists_of_map h
  exact hp s a r ha

theorem orElse {q : Parser α} (hp : Opens first empty p) (hq : Opens next empty q) :
    Opens (first ++ next) empty (p <|> q) := by
  intro s a r h
  rcases or_of_orElse h with h | h
  · exact (hp s a r h).imp_left (And.imp_left (List.mem_append_left _))
  · exact (hq s a r h).imp_left (And.imp_left (List.mem_append_right _))

theorem opt (hp : Opens first false p) : Opens first true (opt p) := by
  intro s o r h
  cases o with
  | none => exact .inr ⟨rfl, eq_of_opt_none h⟩
  | some a => exact .inl (hp.cut (of_opt h))

theorem collect (hp : Opens first false p) {s : List Char} :
    (ahead s ∈ first ∧ Cut s (collect p s).2) ∨ (collect p s).2 = s := by
  fun_induction Parser.collect p s with
  | case1 => exact .inr rfl
  | case2 s a r hs hr as t he ih =>
    obtain ⟨hfirst, hcut⟩ := hp.cut hs
    rw [he] at ih
    rcases ih with ⟨-, ht⟩ | ht
    · exact .inl ⟨hfirst, hcut.trans ht⟩
    · exact .inl ⟨hfirst, ht.symm ▸ hcut⟩
  | case3 => exact .inr rfl

theorem suffix_of_collect (hp : Opens first false p) {s t : List Char} {as : List α}
    (h : Parser.collect p s = (as, t)) : t <:+ s := by
  have hs := hp.collect (s := s)
  rw [h] at hs
  rcases hs with ⟨-, hcut⟩ | rfl
  · exact hcut.suffix
  · exact List.suffix_refl _

theorem many (hp : Opens first false p) : Opens first true (many p) := by
  intro s as r h
  obtain rfl : (Parser.collect p s).2 = r := congrArg Prod.snd (Option.some.inj h)
  exact hp.collect.imp_right fun h => ⟨rfl, h⟩

/-- A repetition stops where no item is read. -/
theorem eq_none_of_collect (hp : Opens first false p) {s t : List Char} {as : List α}
    (h : Parser.collect p s = (as, t)) : p t = none := by
  fun_induction Parser.collect p s generalizing as t with
  | case1 s hs =>
    cases h
    exact hs
  | case2 s a r hs hr bs u he ih =>
    cases h
    exact ih he
  | case3 s a r hs hr => exact absurd (hp.cut hs).2.length_lt hr

theorem eq_nil_of_collect (hp : Opens first false p) {s : List Char} {as : List α}
    (h : Parser.collect p s = (as, s)) : as = [] := by
  cases as with
  | nil => rfl
  | cons a as =>
    obtain ⟨r, ha, has⟩ := exists_of_collect_eq_cons h
    have hback := hp.many.suffix (congrArg some has)
    exact absurd (hp.cut ha).2.length_lt (Nat.not_lt.2 hback.length_le)

theorem token (hp : Opens first false p) : Opens first false (token p) := by
  intro s a r h
  have ⟨hfirst, hcut⟩ := hp.cut h
  rw [ahead_skipIgnored] at hfirst
  exact .inl ⟨hfirst, hcut.of_suffix (skipIgnored_suffix s)⟩

/-- Off a blank text no token is read, and behind it none that leaves all that follows. -/
theorem not_blank (h : Opens first false p) (hend : .ending ∉ first) {s m r : List Char} {a : α}
    (hp : p (skipIgnored (s ++ m)) = some (a, r ++ m)) : ¬ Blank s := by
  intro hs
  have ⟨hfirst, hcut⟩ := h.cut hp
  rw [ahead_skipIgnored] at hfirst
  rcases hs.rest m with hending | hsuffix
  · exact hend (hending ▸ hfirst)
  · have hshort := hcut.length_lt
    have hlong := hsuffix.length_le
    rw [List.length_append] at hshort
    omega

end Opens

/-! ### Parsers that no new line changes -/

/-- Whether `p` reads the same, or nothing, with a new line behind the text. -/
def Inert (p : Parser α) : Prop :=
  ∀ s t, OnNewLine t → p (s ++ t) = (p s).map fun x => (x.1, x.2 ++ t)

namespace Inert

variable {p : Parser α}

theorem some (h : Inert p) {s r : List Char} {a : α} (hp : p s = some (a, r)) {t : List Char}
    (ht : OnNewLine t) : p (s ++ t) = .some (a, r ++ t) := by
  rw [h s t ht, hp]
  rfl

theorem none (h : Inert p) {s : List Char} (hp : p s = none) {t : List Char} (ht : OnNewLine t) :
    p (s ++ t) = .none := by
  rw [h s t ht, hp]
  rfl

theorem pure (a : α) : Inert (Pure.pure a : Parser α) := fun _ _ _ => rfl

theorem bind {q : α → Parser β} (hp : Inert p) (hq : ∀ a, Inert (q a)) : Inert (p >>= q) := by
  intro s t ht
  cases hs : p s with
  | none => rw [bind_of_none (hp.none hs ht), bind_of_none hs, Option.map_none]
  | some x => rw [bind_of_some (hp.some hs ht), bind_of_some hs, hq x.1 x.2 t ht]

theorem map (hp : Inert p) (f : α → β) : Inert (f <$> p) := by
  intro s t ht
  cases hs : p s with
  | none => rw [map_of_none (hp.none hs ht), map_of_none hs, Option.map_none]
  | some x => rw [map_of_some (hp.some hs ht), map_of_some hs, Option.map_some]

theorem orElse {q : Parser α} (hp : Inert p) (hq : Inert q) : Inert (p <|> q) := by
  intro s t ht
  cases hs : p s with
  | none => rw [orElse_of_none (hp.none hs ht), orElse_of_none hs, hq s t ht]
  | some x => rw [orElse_of_some (hp.some hs ht), orElse_of_some hs, Option.map_some]

theorem opt (hp : Inert p) : Inert (opt p) := (hp.map Option.some).orElse (pure Option.none)

end Inert

theorem inert_satisfy {f : Char → Bool} (h : f '\n' = false) : Inert (satisfy f) := by
  intro s t ht
  cases s with
  | nil =>
    rcases ht.cases with rfl | ⟨u, rfl⟩
    · rfl
    · exact satisfy_of_false h u
  | cons c s =>
    cases hc : f c with
    | true => rw [List.cons_append, satisfy_of_true hc, satisfy_of_true hc, Option.map_some]
    | false => rw [List.cons_append, satisfy_of_false hc, satisfy_of_false hc, Option.map_none]

theorem inert_char {c : Char} (h : c ≠ '\n') : Inert (char c) := by
  intro s t ht
  cases s with
  | nil =>
    rcases ht.cases with rfl | ⟨u, rfl⟩
    · rfl
    · exact char_of_head?_ne fun e => h (Option.some.inj e).symm
  | cons d s =>
    simp only [char, List.cons_append]
    split <;> rfl

theorem inert_chars {f : Char → Bool} (h : f '\n' = false) : Inert (chars f) := by
  intro s t ht
  show some _ = some _
  rw [ht.takeWhile_append h, ht.dropWhile_append h]

theorem inert_chars1 {f : Char → Bool} (h : f '\n' = false) : Inert (chars1 f) :=
  (inert_satisfy h).bind fun _ => (inert_chars h).bind fun _ => .pure _

theorem inert_tag {w : List Char} (h : '\n' ∉ w) : Inert (tag w) := by
  induction w with
  | nil => exact .pure ()
  | cons c w ih =>
    rw [List.mem_cons, not_or] at h
    exact (inert_char (Ne.symm h.1)).bind fun _ => ih h.2

theorem inert_name : Inert name :=
  (inert_satisfy rfl).bind fun _ => (inert_chars rfl).bind fun _ => .pure _

theorem inert_number : Inert number := by
  have fraction : Inert fractionPart :=
    (inert_char (by decide)).bind fun _ => inert_chars1 rfl
  have exponent : Inert exponentPart :=
    (inert_satisfy rfl).bind fun _ => (inert_satisfy rfl).opt.bind fun _ =>
      (inert_chars1 rfl).bind fun _ => .pure _
  refine (inert_char (by decide)).opt.bind fun sign => (inert_chars1 rfl).bind fun whole =>
    fraction.opt.bind fun fraction => exponent.opt.bind fun exponent => fun s t _ => ?_
  cases numberValue? sign.isSome whole fraction exponent <;> rfl

/-! ### What tokens start with -/

/-- Whether what `p` takes of a text, if anything, ends with a token. -/
def Trims (p : Parser α) : Prop := ∀ s a r, p s = some (a, r) → Cut s r ∨ r = s

theorem Opens.trims {first : List Ahead} {empty : Bool} {p : Parser α} (h : Opens first empty p) :
    Trims p :=
  fun s a r hp => (h s a r hp).imp And.right And.right

theorem Trims.suffix {p : Parser α} (h : Trims p) {s r : List Char} {a : α}
    (hp : p s = some (a, r)) : r <:+ s := by
  rcases h s a r hp with h | rfl
  · exact h.suffix
  · exact List.suffix_refl _

theorem Trims.bind {p : Parser α} {q : α → Parser β} (hp : Trims p) (hq : ∀ a, Trims (q a)) :
    Trims (p >>= q) := by
  intro s b t h
  obtain ⟨a, r, ha, hb⟩ := exists_of_bind h
  rcases hp s a r ha with hr | rfl
  · rcases hq a r b t hb with ht | rfl
    · exact .inl (hr.trans ht)
    · exact .inl hr
  · exact hq a r b t hb

theorem Trims.map {p : Parser α} (hp : Trims p) (f : α → β) : Trims (f <$> p) := by
  intro s b r h
  obtain ⟨a, ha, -⟩ := exists_of_map h
  exact hp s a r ha

theorem trims_pure (a : α) : Trims (pure a : Parser α) := (Opens.pure a).trims

/-- What follows a token makes no difference to what starts with it. -/
theorem Opens.before {first : List Ahead} {p : Parser α} {q : α → Parser β}
    (hp : Opens first false p) (hq : ∀ a, Trims (q a)) : Opens first false (p >>= q) := by
  intro s b t h
  obtain ⟨a, r, ha, hb⟩ := exists_of_bind h
  have ⟨hfirst, hr⟩ := hp.cut ha
  rcases hq a r b t hb with ht | rfl
  · exact .inl ⟨hfirst, hr.trans ht⟩
  · exact .inl ⟨hfirst, hr⟩

theorem ahead_cons {c : Char} (hs : isSeparator c = false) (hn : c ≠ '#') (r : List Char) :
    ahead (c :: r) = .of (c :: r) := by
  rw [ahead, skipIgnored_of_not hs hn]

/-- Whether a character is a token of some kind wherever it stands. -/
def Begins (first : List Ahead) (c : Char) : Prop :=
  isSeparator c = false ∧ ∀ r, ahead (c :: r) ∈ first

theorem Trims.opt {p : Parser α} (hp : Trims p) : Trims (opt p) := by
  intro s o r h
  cases o with
  | none => exact .inr (eq_of_opt_none h)
  | some a => exact hp s a r (of_opt h)

theorem trims_satisfy {f : Char → Bool} (h : ∀ c, f c = true → isSeparator c = false) :
    Trims (satisfy f) := by
  intro s c r hs
  cases s with
  | nil => cases hs
  | cons d s =>
    rw [satisfy] at hs
    split at hs
    · next hd =>
      cases hs
      exact .inl (Cut.cons (h c hd) _)
    · cases hs

theorem opens_satisfy {first : List Ahead} {f : Char → Bool}
    (h : ∀ c, f c = true → Begins first c) : Opens first false (satisfy f) := by
  intro s c r hs
  cases s with
  | nil => cases hs
  | cons d s =>
    rw [satisfy] at hs
    split at hs
    · next hd =>
      cases hs
      exact .inl ⟨(h c hd).2 _, Cut.cons (h c hd).1 _⟩
    · cases hs

theorem trims_chars {f : Char → Bool} (h : ∀ c, f c = true → isSeparator c = false) :
    Trims (chars f) := by
  intro s w r hs
  obtain rfl : s.dropWhile f = r := congrArg Prod.snd (Option.some.inj hs)
  clear hs
  induction s with
  | nil => exact .inr rfl
  | cons c s ih =>
    cases hc : f c with
    | false => exact .inr (by simp [hc])
    | true =>
      have hcut := Cut.cons (h c hc) s
      rw [List.dropWhile_cons_of_pos hc]
      rcases ih with hs | hs
      · exact .inl (hcut.trans hs)
      · exact .inl (hs.symm ▸ hcut)

theorem opens_chars1 {first : List Ahead} {f : Char → Bool}
    (h : ∀ c, f c = true → Begins first c) : Opens first false (chars1 f) :=
  (opens_satisfy h).before fun _ => (trims_chars fun c hc => (h c hc).1).bind fun _ => trims_pure _

theorem begins_name {c : Char} (h : isNameStart c = true) : Begins names c := by
  have hs : isSeparator c = false := by
    have hs : c ≠ ' ' ∧ c ≠ '\t' ∧ c ≠ '\r' ∧ c ≠ '\n' ∧ c ≠ ',' := by
      refine ⟨?_, ?_, ?_, ?_, ?_⟩ <;> exact ne_of_isNameStart h (by decide)
    simp [isSeparator, hs]
  refine ⟨hs, fun r => ?_⟩
  rw [ahead_cons hs (ne_of_isNameStart h (by decide)), Ahead.of, if_pos h]
  split
  · decide
  · split <;> decide

theorem begins_digit {c : Char} (h : c.isDigit = true) : Begins [.digit] c := by
  have hn : isNameStart c = false := Bool.eq_false_iff.2 fun hn => by
    rw [isDigit_of_isNameStart hn] at h
    cases h
  have ne : ∀ d : Char, d.isDigit = false → c ≠ d := by
    rintro d hd rfl
    rw [hd] at h
    cases h
  have hs : isSeparator c = false := by
    have hs : c ≠ ' ' ∧ c ≠ '\t' ∧ c ≠ '\r' ∧ c ≠ '\n' ∧ c ≠ ',' := by
      refine ⟨?_, ?_, ?_, ?_, ?_⟩ <;> exact ne _ (by decide)
    simp [isSeparator, hs]
  refine ⟨hs, fun r => ?_⟩
  rw [ahead_cons hs (ne _ (by decide)), Ahead.of, if_neg (by simp [hn]), if_pos h]
  exact List.mem_singleton_self _

theorem isSeparator_of_isNameChar {c : Char} (h : isNameChar c = true) : isSeparator c = false := by
  refine Bool.eq_false_iff.2 fun hs => ?_
  simp only [isSeparator, Bool.or_eq_true, decide_eq_true_eq] at hs
  rcases hs with (((rfl | rfl) | rfl) | rfl) | rfl <;> cases h

theorem eq_append_of_name {s r : List Char} {n : String} (h : name s = some (n, r)) :
    s = n.toList ++ r := by
  obtain ⟨c, t, hc, h⟩ := exists_of_bind h
  cases h
  cases s with
  | nil => cases hc
  | cons d s =>
    rw [satisfy] at hc
    split at hc
    · cases hc
      simp
    · cases hc

theorem opens_name : Opens names false name :=
  (opens_satisfy fun _ => begins_name).before fun _ =>
    (trims_chars fun _ => isSeparator_of_isNameChar).bind fun _ => trims_pure _

/-- The marks of the grammar are tokens on their own. -/
theorem begins_mark {c : Char} (h : c ∈ marks) : Begins [.mark c] c := by
  have marks : marks.all (fun c => decide (isSeparator c = false ∧ c ≠ '#'
      ∧ isNameStart c = false ∧ c.isDigit = false)) = true := by decide
  obtain ⟨hs, hn, hname, hd⟩ := of_decide_eq_true (List.all_eq_true.1 marks c h)
  refine ⟨hs, fun r => ?_⟩
  rw [ahead_cons hs hn, Ahead.of, if_neg (by simp [hname]), if_neg (by simp [hd]), if_pos h]
  exact List.mem_singleton_self _

theorem opens_char {first : List Ahead} {c : Char} (h : Begins first c) :
    Opens first false (char c) := by
  intro s a r hs
  rw [char_eq_some_iff.1 hs]
  exact .inl ⟨h.2 r, Cut.cons h.1 r⟩

theorem eq_append_of_tag {w s r : List Char} (h : tag w s = some ((), r)) : s = w ++ r := by
  induction w generalizing s with
  | nil =>
    cases h
    rfl
  | cons c w ih =>
    obtain ⟨_, t, hc, h⟩ := exists_of_bind h
    rw [char_eq_some_iff.1 hc, ih h, List.cons_append]

theorem opens_tag {first : List Ahead} {w : List Char} (hne : w ≠ [])
    (hw : isSeparator (w.getLast hne) = false) (h : ∀ r, ahead (w ++ r) ∈ first) :
    Opens first false (tag w) := by
  intro s a r hs
  obtain rfl := eq_append_of_tag hs
  refine .inl ⟨h r, w.dropLast, w.getLast hne, hw, ?_⟩
  rw [List.append_cons, List.dropLast_concat_getLast]

theorem trims_stringBody : Trims (stringBody : Parser (List Char)) := by
  intro s cs r h
  left
  fun_induction stringBody s generalizing cs r with
  | case1 | case3 | case4 => cases h
  | case2 =>
    cases h
    exact Cut.cons (by decide) _
  | case5 e s ih =>
    obtain ⟨c, -, h⟩ := Option.bind_eq_some_iff.1 h
    obtain ⟨x, hx, h⟩ := Option.bind_eq_some_iff.1 h
    cases h
    exact (ih _ _ hx).of_suffix ((List.suffix_cons e s).trans (List.suffix_cons _ _))
  | case6 c s hq hn hb ih =>
    obtain ⟨x, hx, h⟩ := Option.bind_eq_some_iff.1 h
    cases h
    exact (ih _ _ hx).of_suffix (List.suffix_cons c s)

theorem trims_blockBody : Trims (blockBody : Parser (List Char)) := by
  intro s cs r h
  left
  fun_induction blockBody s generalizing cs r with
  | case1 => cases h
  | case2 =>
    cases h
    exact (Cut.cons (by decide) _).of_suffix
      ((List.suffix_cons _ _).trans (List.suffix_cons _ _))
  | case3 c s hq ih =>
    obtain ⟨x, hx, h⟩ := Option.bind_eq_some_iff.1 h
    cases h
    exact (ih _ _ hx).of_suffix (List.suffix_cons c s)

/-- The quotes around a block of text. -/
def blockQuotes : List Char := ['"', '"', '"']

theorem opens_string : Opens [.mark '"'] false string :=
  (opens_char (begins_mark (by decide))).before fun _ => trims_stringBody.bind fun _ =>
    trims_pure _

theorem opens_blockString : Opens [.mark '"'] false blockString :=
  (opens_tag (List.cons_ne_nil _ _) (by decide) fun _ => (begins_mark (by decide)).2 _).before
    fun _ => trims_blockBody.bind fun _ => trims_pure _

/-! ### Texts that are cut -/

/-- What `p` reads has an end of its own, whatever follows. -/
def Closed (p : Parser α) : Prop :=
  ∀ s a r, p s = some (a, r) → ∃ u, s = u ++ r ∧ ∀ m, p (u ++ m) = some (a, m)

namespace Closed

variable {p : Parser α}

theorem pure (a : α) : Closed (Pure.pure a : Parser α) := by
  intro s b r h
  cases h
  exact ⟨[], rfl, fun m => rfl⟩

theorem bind {q : α → Parser β} (hp : Closed p) (hq : ∀ a, Closed (q a)) : Closed (p >>= q) := by
  intro s b t h
  obtain ⟨a, r, ha, hb⟩ := exists_of_bind h
  obtain ⟨u, rfl, hu⟩ := hp s a r ha
  obtain ⟨v, rfl, hv⟩ := hq a r b t hb
  refine ⟨u ++ v, (List.append_assoc u v t).symm, fun m => ?_⟩
  rw [List.append_assoc, bind_of_some (hu _), hv]

/-- What is read in front of a text is read in front of any other one. -/
theorem append (hp : Closed p) {s m r : List Char} {a : α} (h : p (s ++ m) = some (a, r ++ m))
    (w : List Char) : p (s ++ w) = some (a, r ++ w) := by
  obtain ⟨u, hu, hreads⟩ := hp _ a _ h
  rw [← List.append_assoc] at hu
  rw [List.append_cancel_right hu, List.append_assoc, hreads]

end Closed

theorem closed_satisfy (f : Char → Bool) : Closed (satisfy f) := by
  intro s c r h
  obtain ⟨rfl, hc⟩ := satisfy_eq_some_iff.1 h
  exact ⟨[c], rfl, fun m => satisfy_of_true hc m⟩

theorem closed_char (c : Char) : Closed (char c) := by
  intro s a r h
  obtain rfl := char_eq_some_iff.1 h
  exact ⟨[c], rfl, fun m => char_cons c m⟩

theorem closed_tag (w : List Char) : Closed (tag w) := fun _ _ _ h =>
  ⟨w, eq_append_of_tag h, fun m => tag_append w m⟩

theorem closed_stringBody : Closed (stringBody : Parser (List Char)) := by
  intro s cs r h
  fun_induction stringBody s generalizing cs r with
  | case1 | case3 | case4 => cases h
  | case2 =>
    cases h
    exact ⟨['"'], rfl, fun m => rfl⟩
  | case5 e s ih =>
    obtain ⟨c, hc, h⟩ := Option.bind_eq_some_iff.1 h
    obtain ⟨x, hx, h⟩ := Option.bind_eq_some_iff.1 h
    cases h
    obtain ⟨u, rfl, hu⟩ := ih _ _ hx
    refine ⟨'\\' :: e :: u, rfl, fun m => ?_⟩
    rw [List.cons_append, List.cons_append, stringBody, hc, hu]
    rfl
  | case6 c s hq hn hb ih =>
    obtain ⟨x, hx, h⟩ := Option.bind_eq_some_iff.1 h
    cases h
    obtain ⟨u, rfl, hu⟩ := ih _ _ hx
    refine ⟨c :: u, rfl, fun m => ?_⟩
    rw [List.cons_append, stringBody_plain hq hn hb, hu]
    rfl

theorem closed_string : Closed string :=
  (closed_char '"').bind fun _ => closed_stringBody.bind fun _ => .pure _

/-- What `p` reads off a text up to a place, it reads where the text is cut at that place. -/
structure Local (p : Parser α) : Prop where
  trims : Trims p
  cut   : ∀ {s m r : List Char} {a : α}, p (s ++ m) = some (a, r ++ m) → p s = some (a, r)

/-- Where `p` reads something, it does so whatever follows. -/
def Lasts (p : Parser α) : Prop := ∀ s m, p (s ++ m) = none → p s = none

theorem Closed.local {p : Parser α} (hp : Closed p) (ht : Trims p) : Local p where
  trims := ht
  cut h := by simpa using hp.append h []

theorem Closed.lasts {p : Parser α} (hp : Closed p) : Lasts p := by
  intro s m h
  cases hs : p s with
  | none => rfl
  | some x =>
    obtain ⟨u, rfl, hu⟩ := hp s x.1 x.2 hs
    rw [List.append_assoc, hu] at h
    cases h

theorem Lasts.bind {p : Parser α} {q : α → Parser β} (hp : Lasts p) (hq : ∀ a s, q a s ≠ none) :
    Lasts (p >>= q) := by
  intro s m h
  refine bind_of_none (hp s m ?_) q
  cases hsm : p (s ++ m) with
  | none => rfl
  | some x =>
    rw [bind_of_some hsm] at h
    exact absurd h (hq _ _)

/-- What ends on its own lasts where what follows it does. -/
theorem Closed.lasts_bind {p : Parser α} {q : α → Parser β} (hp : Closed p)
    (hq : ∀ a, Lasts (q a)) : Lasts (p >>= q) := by
  intro s m h
  cases hs : p s with
  | none => exact bind_of_none hs q
  | some x =>
    obtain ⟨u, hu, hreads⟩ := hp s x.1 x.2 hs
    rw [hu, List.append_assoc, bind_of_some (hreads _)] at h
    rw [bind_of_some hs]
    exact hq x.1 x.2 m h

/-- What starts with a character that may be left out reads nothing off no text. -/
theorem lasts_opt_satisfy {f : Char → Bool} {q : Option Char → Parser β} (hnil : q none [] = none)
    (hq : ∀ o, Lasts (q o)) : Lasts (opt (satisfy f) >>= q) := by
  intro s m h
  cases s with
  | nil => exact (bind_of_some (opt_of_none rfl) q).trans hnil
  | cons c s =>
    cases hc : f c with
    | true =>
      rw [List.cons_append, bind_of_some (opt_of_some (satisfy_of_true hc _))] at h
      rw [bind_of_some (opt_of_some (satisfy_of_true hc _)), hq _ s m h]
    | false =>
      rw [List.cons_append, bind_of_some (opt_of_none (satisfy_of_false hc _))] at h
      rw [bind_of_some (opt_of_none (satisfy_of_false hc _))]
      exact hq none (c :: s) m h

theorem lasts_chars1 (f : Char → Bool) : Lasts (chars1 f) :=
  (closed_satisfy f).lasts_bind fun _ _ _ h => nomatch h

namespace Local

variable {p : Parser α}

theorem pure (a : α) : Local (Pure.pure a : Parser α) := (Closed.pure a).local (trims_pure a)

theorem bind {q : α → Parser β} (hp : Local p) (hq : ∀ a, Local (q a)) : Local (p >>= q) where
  trims := hp.trims.bind fun a => (hq a).trims
  cut {s m r b} h := by
    obtain ⟨a, x, ha, hb⟩ := exists_of_bind h
    obtain ⟨x, rfl⟩ := (List.suffix_append r m).trans ((hq a).trims.suffix hb)
    rw [bind_of_some (hp.cut ha), (hq a).cut hb]

/-- What is left out of a text is not in a part of it either. -/
theorem opt (hp : Local p) (hlasts : Lasts p) : Local (opt p) where
  trims := hp.trims.opt
  cut {s m r o} h := by
    cases o with
    | some a => exact opt_of_some (hp.cut (of_opt h))
    | none =>
      obtain rfl := List.append_cancel_right (eq_of_opt_none h)
      refine opt_of_none (hlasts r m ?_)
      cases hr : p (r ++ m) with
      | none => rfl
      | some x => cases (opt_of_some hr).symm.trans h

end Local

theorem local_chars {f : Char → Bool} (h : ∀ c, f c = true → isSeparator c = false) :
    Local (chars f) where
  trims := trims_chars h
  cut {s m r w} hs := by
    have hrest : (s ++ m).dropWhile f = r ++ m := congrArg Prod.snd (Option.some.inj hs)
    obtain rfl : (s ++ m).takeWhile f = w := congrArg Prod.fst (Option.some.inj hs)
    have hdrop : s.dropWhile f = r := by
      have hsplit := hrest
      rw [List.dropWhile_append] at hsplit
      split at hsplit
      · next hnil =>
        have hlong := (List.dropWhile_suffix (l := m) f).length_le
        rw [hsplit, List.length_append] at hlong
        rw [List.isEmpty_iff.1 hnil, List.eq_nil_of_length_eq_zero (l := r) (by omega)]
      · exact List.append_cancel_right hsplit
    have htake : s.takeWhile f ++ (r ++ m) = (s ++ m).takeWhile f ++ (r ++ m) := by
      rw [← hrest, List.takeWhile_append_dropWhile, hrest, ← hdrop, ← List.append_assoc,
        List.takeWhile_append_dropWhile]
    show some _ = some _
    rw [hdrop, List.append_cancel_right htake]

theorem local_chars1 {f : Char → Bool} (h : ∀ c, f c = true → isSeparator c = false) :
    Local (chars1 f) :=
  ((closed_satisfy f).local (trims_satisfy h)).bind fun _ => (local_chars h).bind fun _ => .pure _

theorem local_name : Local name :=
  ((closed_satisfy _).local (trims_satisfy fun _ hc => (begins_name hc).1)).bind fun _ =>
    (local_chars fun _ => isSeparator_of_isNameChar).bind fun _ => .pure _

theorem local_char {c : Char} (h : isSeparator c = false) : Local (char c) :=
  (closed_char c).local fun _ _ r hs => .inl (char_eq_some_iff.1 hs ▸ Cut.cons h r)

/-- One of two characters, as numbers have them. -/
theorem local_either {d e : Char} (hd : isSeparator d = false) (he : isSeparator e = false) :
    Local (satisfy fun c => decide (c = d) || decide (c = e)) := by
  refine (closed_satisfy _).local (trims_satisfy fun c h => ?_)
  rw [Bool.or_eq_true, decide_eq_true_eq, decide_eq_true_eq] at h
  rcases h with rfl | rfl
  · exact hd
  · exact he

theorem local_digits : Local (chars1 Char.isDigit) := local_chars1 fun _ hc => (begins_digit hc).1

theorem local_opt_fractionPart : Local (opt fractionPart) :=
  ((local_char rfl).bind fun _ => local_digits).opt
    ((closed_char '.').lasts_bind fun _ => lasts_chars1 _)

theorem local_opt_exponentPart : Local (opt exponentPart) :=
  ((local_either rfl rfl).bind fun _ => ((local_either rfl rfl).opt (closed_satisfy _).lasts).bind
    fun _ => local_digits.bind fun _ => .pure _).opt
      ((closed_satisfy _).lasts_bind fun _ => lasts_opt_satisfy rfl fun _ =>
        (lasts_chars1 _).bind fun _ _ => Option.some_ne_none _)

/-- What the parts of a number make of it takes no part of the text. -/
theorem local_ofOption (o : Option α) : Local (fun s => o.map fun a => (a, s) : Parser α) where
  trims s a r h := by
    obtain ⟨_, -, h⟩ := Option.map_eq_some_iff.1 h
    cases h
    exact .inr rfl
  cut {s m r a} h := by
    obtain ⟨b, hb, h⟩ := Option.map_eq_some_iff.1 h
    obtain ⟨rfl, hr⟩ := Prod.mk.inj h
    rw [hb, List.append_cancel_right hr]
    rfl

theorem local_number : Local number :=
  ((local_char rfl).opt (closed_char '-').lasts).bind fun _ => local_digits.bind fun _ =>
    local_opt_fractionPart.bind fun _ => local_opt_exponentPart.bind fun _ => local_ofOption _

theorem opens_number : Opens [.mark '-', .digit] false number :=
  (opens_char (begins_mark (by decide))).opt.bind fun _ =>
    (opens_chars1 fun _ => begins_digit).before fun _ => local_opt_fractionPart.trims.bind fun _ =>
      local_opt_exponentPart.trims.bind fun _ => (local_ofOption _).trims

/-! ### Blocks of text -/

theorem blockBody_eq_none_iff (s : List Char) : blockBody s = none ↔ ¬ blockQuotes <:+: s := by
  fun_induction blockBody s with
  | case1 => simp [blockQuotes]
  | case2 r => simpa [blockQuotes] using (List.prefix_append blockQuotes r).isInfix
  | case3 c r hq ih =>
    have starts : ¬ blockQuotes <+: c :: r := by
      rintro ⟨u, hu⟩
      cases hu
      exact hq _ rfl rfl
    rw [List.infix_cons_iff, or_iff_right starts, ← ih]
    rcases blockBody r with _ | ⟨_, _⟩ <;> simp

/-- A block of text ends with the first quotes that close it, whatever follows. -/
theorem blockBody_closed {s cs r : List Char} (h : blockBody s = some (cs, r)) :
    s = cs ++ (blockQuotes ++ r) ∧ ∀ w, blockBody (cs ++ (blockQuotes ++ w)) = some (cs, w) := by
  fun_induction blockBody s generalizing cs r with
  | case1 => cases h
  | case2 =>
    cases h
    exact ⟨rfl, fun w => rfl⟩
  | case3 c s hq ih =>
    obtain ⟨⟨cs, r⟩, hx, h⟩ := Option.bind_eq_some_iff.1 h
    cases h
    obtain ⟨rfl, hw⟩ := ih hx
    refine ⟨rfl, fun w => ?_⟩
    have starts : ∀ u, c = '"' → cs ++ (blockQuotes ++ w) = '"' :: '"' :: u → False := by
      rintro u rfl hu
      match cs with
      | [] => exact hq _ rfl rfl
      | [d] =>
        cases hu
        exact hq _ rfl rfl
      | d :: e :: cs =>
        cases hu
        exact hq _ rfl rfl
    rw [List.cons_append, blockBody, hw]
    · rfl
    · exact starts

theorem closed_blockString : Closed blockString :=
  (closed_tag blockQuotes).bind fun _ => Closed.bind (p := blockBody) (fun s cs r h => by
    obtain ⟨rfl, hreads⟩ := blockBody_closed h
    refine ⟨cs ++ blockQuotes, (List.append_assoc _ _ _).symm, fun m => ?_⟩
    rw [List.append_assoc, hreads]) fun _ => .pure _

theorem blockQuotes_infix_append {s t : List Char} (ht : OnNewLine t)
    (h : blockQuotes <:+: s ++ t) : blockQuotes <:+: s ∨ blockQuotes <:+: t := by
  induction s with
  | nil => exact .inr h
  | cons c s ih =>
    rw [List.cons_append, List.infix_cons_iff] at h
    rcases h with ⟨u, hu⟩ | h
    · left
      have hhead : ∀ v, t ≠ '"' :: v := fun v hv => by cases ht '"' (by rw [hv]; rfl)
      match s with
      | [] =>
        cases hu
        exact absurd rfl (hhead _)
      | [d] =>
        cases hu
        exact absurd rfl (hhead _)
      | d :: e :: s =>
        cases hu
        exact ⟨[], s, rfl⟩
    · exact (ih h).imp_left fun h => List.infix_cons h

/-- A block of text that is not closed by another text behind it, where that has no
quotes to close it with, or the text behind it before had. -/
theorem blockString_append_none {s m : List Char} (h : blockString (s ++ m) = none) {w : List Char}
    (hw : OnNewLine w) (hmw : blockQuotes <:+: w → blockQuotes <:+: m) :
    blockString (s ++ w) = none := by
  have quotes : Inert (tag blockQuotes) := inert_tag (by decide)
  cases hs : tag blockQuotes s with
  | none => exact bind_of_none (quotes.none hs hw) _
  | some x =>
    obtain ⟨_, v⟩ := x
    obtain rfl := eq_append_of_tag hs
    have opened : ∀ t, tag blockQuotes (blockQuotes ++ v ++ t) = some ((), v ++ t) := fun t => by
      rw [List.append_assoc, tag_append]
    have hopen := (bind_of_some (opened m) _).symm.trans h
    have hnone : blockBody (v ++ m) = none := by
      cases hb : blockBody (v ++ m) with
      | none => rfl
      | some y => cases (bind_of_some hb _).symm.trans hopen
    rw [blockBody_eq_none_iff] at hnone
    refine (bind_of_some (opened w) _).trans (bind_of_none ?_ _)
    show blockBody (v ++ w) = none
    rw [blockBody_eq_none_iff]
    intro hq
    rcases blockQuotes_infix_append hw hq with hv | hw
    · exact hnone (hv.trans (List.prefix_append v m).isInfix)
    · exact hnone ((hmw hw).trans (List.suffix_append v m).isInfix)

end ApiCompiler.Schema
