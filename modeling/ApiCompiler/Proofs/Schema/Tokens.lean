import ApiCompiler.Proofs.Parser
import ApiCompiler.Proofs.Schema.WellFormed
import ApiCompiler.Schema.Parser
import ApiCompiler.Schema.Printer

/-!
# Schema — reading printed tokens

What a token reads off its own text, given what stands behind it. A name goes on as long as it
can, and so do a number and the quotes of a text, so nothing of theirs may stand there (`Breaks`);
other tokens depend on the next character that is no separator (`upcoming`).

* `name_append`, `number_append`, `string_append`: the tokens with an inner structure.
* `exists_number_toText`: the text of a float is read the same way wherever it stands.
* `symbol_cons`, `symbol_of_upcoming_ne`: the symbols, read or missing.
* `collect_joined`: repetitions of what is printed with separators in between.
* `forall_of_collect_joined`, `isWritable_of_string`: what can have been read off its own text.
-/

namespace ApiCompiler.Schema

open ApiCompiler.Parser

/-! ### Between tokens -/

/-- The next character of a text that is part of no separator and no comment. -/
def upcoming (s : List Char) : Option Char := (skipIgnored s).head?

/-- Whether a text starts with a character that is part of no separator and no comment. -/
def Visible (s : List Char) : Prop := ∃ c ∈ s.head?, isSeparator c = false ∧ c ≠ '#'

/-- Whether a text starts with nothing that could be part of a name, of a number or of the quotes
around a block of text. -/
def Breaks (s : List Char) : Prop := ∀ c ∈ s.head?, isNameChar c = false ∧ c ≠ '.' ∧ c ≠ '"'

theorem Visible.append {w : List Char} (h : Visible w) (r : List Char) : Visible (w ++ r) := by
  obtain ⟨c, hc, hv⟩ := h
  cases w with
  | nil => cases hc
  | cons d w => exact ⟨c, hc, hv⟩

theorem Visible.ne_nil {w : List Char} (h : Visible w) : w ≠ [] := by
  rintro rfl
  obtain ⟨c, hc, -⟩ := h
  cases hc

theorem Visible.skipIgnored {s : List Char} (h : Visible s) : skipIgnored s = s := by
  obtain ⟨c, hc, hs, hn⟩ := h
  cases s with
  | nil => cases hc
  | cons d s =>
    cases hc
    exact skipIgnored_of_not hs hn s

theorem token_apply {α : Type} (p : Parser α) (s : List Char) :
    token p s = p (skipIgnored s) := rfl

theorem Visible.token {α : Type} {s : List Char} (h : Visible s) (p : Parser α) :
    token p s = p s := by
  rw [token_apply, h.skipIgnored]

theorem Visible.upcoming {s : List Char} (h : Visible s) : upcoming s = s.head? := by
  rw [Schema.upcoming, h.skipIgnored]

theorem visible_cons {c : Char} (hs : isSeparator c = false) (hn : c ≠ '#') (r : List Char) :
    Visible (c :: r) :=
  ⟨c, rfl, hs, hn⟩

theorem breaks_cons {c : Char} (hn : isNameChar c = false) (hd : c ≠ '.') (hq : c ≠ '"')
    (r : List Char) : Breaks (c :: r) := by
  rintro d ⟨⟩
  exact ⟨hn, hd, hq⟩

/-- Separators in front of a token make no difference. -/
theorem skips_token {α : Type} (p : Parser α) : Skips isSeparator (token p) := by
  intro c hc s
  rw [token_apply, token_apply, skipIgnored_ignored hc]

theorem skips_symbol (c : Char) : Skips isSeparator (symbol c) := skips_token _

theorem upcoming_separator {c : Char} (h : isSeparator c = true) (r : List Char) :
    upcoming (c :: r) = upcoming r := by
  rw [upcoming, skipIgnored_ignored h, upcoming]

theorem symbol_cons {c : Char} (hs : isSeparator c = false) (hn : c ≠ '#') (r : List Char) :
    symbol c (c :: r) = some ((), r) := by
  rw [symbol, (visible_cons hs hn r).token, char_cons]

/-- A symbol that does not come next is not read. -/
theorem symbol_of_upcoming_ne {c : Char} {s : List Char} (h : upcoming s ≠ some c) :
    symbol c s = none :=
  char_of_head?_ne h

/-- Printed pieces are read back with separators between them. -/
theorem collect_joined {α β : Type} {p : Parser β} {f : α → List Char} {g : α → β}
    {as : List α} {between t : List Char} {B : List Char → Prop}
    (hp : Skips isSeparator p) (hbetween : between.all isSeparator = true)
    (hne : ∀ a ∈ as, f a ≠ [])
    (hread : ∀ a ∈ as, ∀ r, B r → p (f a ++ r) = some (g a, r))
    (hpiece : ∀ a ∈ as, ∀ r, B (between ++ (f a ++ r))) (ht : B t)
    (hend : p t = none) :
    collect p (joined between (as.map f) ++ t) = (as.map g, t) := by
  cases as with
  | nil => exact collect_of_none hend
  | cons a as =>
    have hrest : collect p (as.flatMap (fun b => between ++ f b) ++ t) = (as.map g, t) :=
      collect_flatMap (B := B)
        (fun b hb h => hne b (List.mem_cons_of_mem a hb) (List.append_eq_nil_iff.1 h).2)
        (fun b hb r hr => by
          rw [List.append_assoc, hp.append (List.all_eq_true.1 hbetween),
            hread b (List.mem_cons_of_mem a hb) r hr])
        (fun b hb r => by
          rw [List.append_assoc]
          exact hpiece b (List.mem_cons_of_mem a hb) r)
        ht hend
    have hbehind : B (as.flatMap (fun b => between ++ f b) ++ t) :=
      flatMap_append_of (fun b hb r => by
        rw [List.append_assoc]
        exact hpiece b (List.mem_cons_of_mem a hb) r) ht
    have hlength : 0 < (f a).length := List.length_pos_iff.2 (hne a List.mem_cons_self)
    rw [List.map_cons, joined, List.flatMap_map, List.append_assoc,
      collect_of_some (hread a List.mem_cons_self _ hbehind) (by simp; omega), hrest]
    rfl

/-- Where printed pieces have been read with separators between them, each of them is one that is
read. -/
theorem forall_of_collect_joined {α β : Type} {p : Parser β} {f : α → List Char} {g : α → β}
    {as : List α} {between t u : List Char} {B : List Char → Prop} {Good : α → Prop}
    (hp : Skips isSeparator p) (hbetween : between.all isSeparator = true)
    (hread : ∀ a ∈ as, Good a → ∀ r, B r → p (f a ++ r) = some (g a, r))
    (hgood : ∀ a ∈ as, ∀ r s, B r → p (f a ++ r) = some (g a, s) → Good a)
    (hpiece : ∀ a ∈ as, ∀ r, B (between ++ (f a ++ r))) (ht : B t)
    (h : collect p (joined between (as.map f) ++ t) = (as.map g, u)) : ∀ a ∈ as, Good a := by
  cases as with
  | nil => exact nofun
  | cons a as =>
    have hpiece' : ∀ b ∈ as, ∀ r, B ((between ++ f b) ++ r) := fun b hb r => by
      rw [List.append_assoc]
      exact hpiece b (List.mem_cons_of_mem a hb) r
    have hskip : ∀ b r, p ((between ++ f b) ++ r) = p (f b ++ r) := fun b r => by
      rw [List.append_assoc, hp.append (List.all_eq_true.1 hbetween)]
    have hbehind : B (as.flatMap (fun b => between ++ f b) ++ t) := flatMap_append_of hpiece' ht
    rw [List.map_cons, joined, List.flatMap_map, List.append_assoc] at h
    obtain ⟨r, hr, h⟩ := exists_of_collect_eq_cons h
    have good := hgood a List.mem_cons_self _ r hbehind hr
    rw [hread a List.mem_cons_self good _ hbehind] at hr
    cases hr
    refine List.forall_mem_cons.2 ⟨good, forall_of_collect_flatMap ?_ ?_ hpiece' ht h⟩
    · exact fun b hb hg r hr => (hskip b r).trans (hread b (List.mem_cons_of_mem a hb) hg r hr)
    · exact fun b hb r s hr hs =>
        hgood b (List.mem_cons_of_mem a hb) r s hr ((hskip b r).symm.trans hs)

/-! ### Names and words -/

theorem ne_of_isNameStart {c d : Char} (hc : isNameStart c = true) (hd : isNameStart d = false) :
    c ≠ d := by
  rintro rfl
  rw [hc] at hd
  cases hd

theorem isDigit_of_isNameStart {c : Char} (h : isNameStart c = true) : c.isDigit = false := by
  refine Bool.eq_false_iff.2 fun hd => ?_
  delta isNameStart Char.isAlpha Char.isUpper Char.isLower at h
  rw [Bool.or_eq_true, Bool.or_eq_true] at h
  delta Char.isDigit at hd
  rcases h with (h | h) | h
  · grind
  · grind
  · rw [of_decide_eq_true h] at hd
    cases hd

theorem isName_toList {n : String} (h : isName n = true) :
    ∃ c w, n.toList = c :: w ∧ isNameStart c = true ∧ ∀ d ∈ w, isNameChar d = true := by
  unfold isName at h
  split at h
  · cases h
  · rename_i c w hn
    rw [Bool.and_eq_true, List.all_eq_true] at h
    exact ⟨c, w, hn, h.1, h.2⟩

theorem visible_of_isName {n : String} (h : isName n = true) : Visible n.toList := by
  obtain ⟨c, w, hn, hc, -⟩ := isName_toList h
  rw [hn]
  refine visible_cons ?_ (ne_of_isNameStart hc (by decide)) w
  have hs : c ≠ ' ' ∧ c ≠ '\t' ∧ c ≠ '\r' ∧ c ≠ '\n' ∧ c ≠ ',' := by
    refine ⟨?_, ?_, ?_, ?_, ?_⟩ <;> exact ne_of_isNameStart hc (by decide)
  simp [isSeparator, hs]

/-- A name comes next where one stands. -/
theorem isName_keyword (k : TypeKind) : isName k.keyword = true := by
  cases k <;> decide

theorem upcoming_name {n : String} (h : isName n = true) (r : List Char) :
    ∃ c, upcoming (n.toList ++ r) = some c ∧ isNameStart c = true := by
  obtain ⟨c, w, hn, hc, -⟩ := isName_toList h
  refine ⟨c, ?_, hc⟩
  rw [((visible_of_isName h).append r).upcoming, hn]
  rfl

/-- **A name is read to its end**, where no further character of a name follows. -/
theorem name_append {n : String} (h : isName n = true) {r : List Char} (hr : Breaks r) :
    name (n.toList ++ r) = some (n, r) := by
  obtain ⟨c, w, hn, hc, hw⟩ := isName_toList h
  show (satisfy isNameStart >>= fun c => chars isNameChar >>= fun r =>
    pure (String.ofList (c :: r))) (n.toList ++ r) = _
  rw [hn, List.cons_append, bind_of_some (satisfy_of_true hc _),
    bind_of_some (chars_append hw fun d hd => (hr d hd).1), pure_apply, ← hn, String.ofList_toList]

theorem token_name_append {n : String} (h : isName n = true) {r : List Char} (hr : Breaks r) :
    token name (n.toList ++ r) = some (n, r) := by
  rw [((visible_of_isName h).append r).token, name_append h hr]

/-- Where no name starts, none is read. -/
theorem name_of_head? {s : List Char} (h : ∀ c ∈ s.head?, isNameStart c = false) :
    name s = none :=
  bind_of_none (satisfy_of_head? h) _

theorem token_name_of_upcoming {s : List Char} (h : ∀ c ∈ upcoming s, isNameStart c = false) :
    token name s = none :=
  name_of_head? h

/-! ### Texts -/

theorem stringBody_plain {c : Char} (hq : c ≠ '"') (hn : c ≠ '\n') (hb : c ≠ '\\')
    (s : List Char) :
    stringBody (c :: s) = (stringBody s).map fun x => (c :: x.1, x.2) := by
  rw [stringBody]
  · rcases stringBody s with _ | ⟨_, _⟩ <;> rfl
  · exact fun h => hq h
  · exact fun h => hn h
  · exact fun h => hb h

/-- A writable character is read off the way it is written, and the rest of the text after it. -/
theorem stringBody_escapeChar {c : Char} (h : Text.isWritable c = true) (s : List Char) :
    stringBody (Text.escapeChar c ++ s) = (stringBody s).map fun x => (c :: x.1, x.2) := by
  have escaped : ∀ e c, unescape? e = some c →
      stringBody ('\\' :: e :: s) = (stringBody s).map fun x => (c :: x.1, x.2) := by
    intro e c he
    rw [stringBody]
    simp only [he, Option.bind_eq_bind, Option.bind_some]
    rcases stringBody s with _ | ⟨_, _⟩ <;> rfl
  simp only [Text.isWritable, Bool.or_eq_true, decide_eq_true_eq] at h
  by_cases hq : c = '"'
  · subst hq; exact escaped '"' '"' rfl
  by_cases hb : c = '\\'
  · subst hb; exact escaped '\\' '\\' rfl
  by_cases hn : c = '\n'
  · subst hn; exact escaped 'n' '\n' rfl
  by_cases ht : c = '\t'
  · subst ht; exact escaped 't' '\t' rfl
  have hc : Text.escapeChar c = [c] := by simpa [hq, hb, hn, ht] using h
  rw [hc]
  exact stringBody_plain hq hn hb s

/-- A character is written as itself, or by an escape. -/
theorem escapeChar_cases (c : Char) :
    (Text.escapeChar c = [c] ∧ c ≠ '"') ∨ ∃ e w, Text.escapeChar c = '\\' :: e :: w := by
  by_cases hq : c = '"'
  · subst hq; exact .inr ⟨_, _, rfl⟩
  unfold Text.escapeChar
  rw [if_neg hq]
  split
  · exact .inr ⟨_, _, rfl⟩
  split
  · exact .inr ⟨_, _, rfl⟩
  split
  · exact .inr ⟨_, _, rfl⟩
  split
  · exact .inr ⟨_, _, rfl⟩
  split
  · exact .inr ⟨_, _, rfl⟩
  split
  · exact .inr ⟨_, _, rfl⟩
  · exact .inl ⟨rfl, hq⟩

/-- The written form of a character starts no quote. -/
theorem head?_escapeChar_ne (c : Char) : ∃ d w, Text.escapeChar c = d :: w ∧ d ≠ '"' := by
  rcases escapeChar_cases c with ⟨hc, hq⟩ | ⟨e, w, hc⟩
  · exact ⟨c, [], hc, hq⟩
  · exact ⟨_, _, hc, by decide⟩

/-- Characters are read up to a quote, each off the way it is written. -/
theorem stringBody_flatMap {f : Char → List Char} {cs : List Char}
    (h : ∀ c ∈ cs, ∀ s, stringBody (f c ++ s) = (stringBody s).map fun x => (c :: x.1, x.2))
    (r : List Char) : stringBody (cs.flatMap f ++ '"' :: r) = some (cs, r) := by
  induction cs with
  | nil => rw [List.flatMap_nil, List.nil_append, stringBody]
  | cons c cs ih =>
    rw [List.flatMap_cons, List.append_assoc, h c List.mem_cons_self,
      ih fun d hd => h d (List.mem_cons_of_mem c hd)]
    rfl

theorem string_flatMap {f : Char → List Char} {cs : List Char}
    (h : ∀ c ∈ cs, ∀ s, stringBody (f c ++ s) = (stringBody s).map fun x => (c :: x.1, x.2))
    (r : List Char) : string ('"' :: (cs.flatMap f ++ '"' :: r)) = some (String.ofList cs, r) := by
  show (char '"' >>= fun _ => (stringBody : Parser (List Char)) >>= fun cs =>
    pure (String.ofList cs)) _ = _
  rw [bind_of_some (char_cons _ _), bind_of_some (stringBody_flatMap h r), pure_apply]

/-- Characters between quotes start no block of text, where no quote follows and none is written by
one. -/
theorem blockString_flatMap {f : Char → List Char} {cs : List Char}
    (h : ∀ c ∈ cs, ∃ d w, f c = d :: w ∧ d ≠ '"') {r : List Char} (hr : Breaks r) :
    blockString ('"' :: (cs.flatMap f ++ '"' :: r)) = none := by
  refine bind_of_none ?_ _
  rw [tag, bind_of_some (char_cons _ _)]
  cases cs with
  | nil =>
    rw [List.flatMap_nil, List.nil_append, tag, bind_of_some (char_cons _ _)]
    exact tag_of_head?_ne fun e => (hr '"' e).2.2 rfl
  | cons c cs =>
    obtain ⟨d, w, hd, hne⟩ := h c List.mem_cons_self
    rw [List.flatMap_cons, hd]
    exact tag_of_head?_ne fun e => hne (Option.some.inj e)

theorem quoteChars_append (cs r : List Char) :
    Text.quoteChars cs ++ r = '"' :: (cs.flatMap Text.escapeChar ++ '"' :: r) := by
  simp [Text.quoteChars]

/-- **A quoted text is read back**, whatever follows it. -/
theorem string_append {cs : List Char} (h : ∀ c ∈ cs, Text.isWritable c = true) (r : List Char) :
    string (Text.quoteChars cs ++ r) = some (String.ofList cs, r) := by
  rw [quoteChars_append]
  exact string_flatMap (fun c hc => stringBody_escapeChar (h c hc)) r

/-- A quoted text starts no block of text, where no quote follows it. -/
theorem blockString_quoteChars (cs : List Char) {r : List Char} (hr : Breaks r) :
    blockString (Text.quoteChars cs ++ r) = none := by
  rw [quoteChars_append]
  exact blockString_flatMap (fun c _ => head?_escapeChar_ne c) hr

/-- A character that is not writable is written by an escape that no text has. -/
theorem escapeChar_of_not_isWritable {c : Char} (h : Text.isWritable c = false) :
    ∃ e w, Text.escapeChar c = '\\' :: e :: w ∧ unescape? e = none := by
  simp only [Text.isWritable, Bool.or_eq_false_iff, decide_eq_false_iff_not, beq_eq_false_iff_ne]
    at h
  obtain ⟨⟨⟨⟨hq, hb⟩, hn⟩, ht⟩, hself⟩ := h
  unfold Text.escapeChar at hself ⊢
  by_cases hr : c = '\r'
  · rw [if_neg hq, if_neg hb, if_neg hn, if_pos hr]
    exact ⟨_, _, rfl, rfl⟩
  rw [if_neg hq, if_neg hb, if_neg hn, if_neg hr, if_neg ht] at hself ⊢
  split
  · exact ⟨_, _, rfl, rfl⟩
  · next hz =>
    rw [if_neg hz] at hself
    split
    · exact ⟨_, _, rfl, rfl⟩
    · next hg => exact absurd (if_neg hg) hself

theorem isWritable_of_stringBody {cs r : List Char} {x : List Char × List Char}
    (h : stringBody (cs.flatMap Text.escapeChar ++ r) = some x) :
    ∀ c ∈ cs, Text.isWritable c = true := by
  induction cs generalizing x with
  | nil => exact nofun
  | cons c cs ih =>
    rw [List.flatMap_cons, List.append_assoc] at h
    cases hc : Text.isWritable c with
    | true =>
      rw [stringBody_escapeChar hc] at h
      obtain ⟨y, hy, -⟩ := Option.map_eq_some_iff.1 h
      exact List.forall_mem_cons.2 ⟨hc, ih hy⟩
    | false =>
      obtain ⟨e, w, he, hnone⟩ := escapeChar_of_not_isWritable hc
      rw [he, List.cons_append, List.cons_append, stringBody] at h
      simp only [hnone, Option.bind_eq_bind, Option.bind_none] at h
      cases h

/-- A quoted text of which a text has been read is writable. -/
theorem isWritable_of_string {cs r t : List Char} {s : String}
    (h : string (Text.quoteChars cs ++ r) = some (s, t)) : ∀ c ∈ cs, Text.isWritable c = true := by
  rw [quoteChars_append] at h
  obtain ⟨_, u, hq, h⟩ := exists_of_bind h
  obtain ⟨w, v, hw, -⟩ := exists_of_bind h
  rw [char_cons] at hq
  cases hq
  exact isWritable_of_stringBody hw

theorem string_of_head?_ne {s : List Char} (h : s.head? ≠ some '"') : string s = none :=
  bind_of_none (char_of_head?_ne h) _

theorem blockString_of_head?_ne {s : List Char} (h : s.head? ≠ some '"') :
    blockString s = none :=
  bind_of_none (tag_of_head?_ne h) _

/-- Where no quote comes next, there is no description. -/
theorem opt_description {s : List Char} (h : upcoming s ≠ some '"') :
    opt (token description) s = some (none, s) := by
  refine opt_of_none ?_
  rw [token_apply, description, orElse_of_none (blockString_of_head?_ne h), string_of_head?_ne h]

/-! ### Numbers -/

theorem digitsValue_toDigits (n : Nat) : Number.digitsValue (Nat.toDigits 10 n) = n :=
  Nat.ofDigitChars_ten_toDigits

/-- Digits on their own stand for a whole number, where it fits 64 bits. -/
theorem numberValue?_toDigits (negative : Bool) (n : Nat) {m : Int}
    (hm : (if negative then -(n : Int) else n) = m) (h : Number.fitsWord m = true) :
    numberValue? negative (Nat.toDigits 10 n) none none = some (.int m) := by
  show (if Number.fitsWord _ then some (Value.int _) else none) = _
  rw [digitsValue_toDigits, hm, if_pos h]

theorem isDigit_of_isNameChar {c : Char} (h : isNameChar c = false) : c.isDigit = false := by
  refine Bool.eq_false_iff.2 fun hd => ?_
  simp [isNameChar, Char.isAlphanum, hd] at h

/-- A list of digits, at least one. -/
def IsDigits (w : List Char) : Prop := w ≠ [] ∧ ∀ c ∈ w, c.isDigit = true

theorem isDigits_toDigits (n : Nat) : IsDigits (Nat.toDigits 10 n) :=
  ⟨Nat.toDigits_ne_nil, fun _ hc => Nat.isDigit_of_mem_toDigits (by decide) (by decide) hc⟩

/-- A fraction as it is written. -/
def printFraction : Option (List Char) → List Char
  | none    => []
  | some ds => '.' :: ds

/-- The digits of a number are read to their end, and those of a fraction, but no exponent after
them. -/
theorem number_digits (sign : Option Unit) {whole : List Char} (hw : IsDigits whole)
    {fraction : Option (List Char)} (hf : ∀ ds ∈ fraction, IsDigits ds) {r : List Char}
    (hr : Breaks r) {s : List Char}
    (hs : opt (char '-') s = some (sign, whole ++ (printFraction fraction ++ r))) :
    number s = (numberValue? sign.isSome whole fraction none).map fun v => (v, r) := by
  have digits : ∀ w, IsDigits w → ∀ t, (∀ c ∈ t.head?, c.isDigit = false) →
      chars1 Char.isDigit (w ++ t) = some (w, t) :=
    fun w hw t ht => chars1_append hw.1 hw.2 ht
  have hend : ∀ c ∈ r.head?, c.isDigit = false := fun c hc => isDigit_of_isNameChar (hr c hc).1
  have hwhole : ∀ c ∈ (printFraction fraction ++ r).head?, c.isDigit = false := by
    cases fraction with
    | none => exact hend
    | some ds =>
      rintro c ⟨⟩
      rfl
  have hfraction : opt fractionPart (printFraction fraction ++ r) = some (fraction, r) := by
    cases fraction with
    | none => exact opt_of_none (bind_of_none (char_of_head?_ne fun e => (hr '.' e).2.1 rfl) _)
    | some ds => exact opt_of_some ((bind_of_some (char_cons _ _) _).trans
        (digits ds (hf ds rfl) r hend))
  have hexponent : exponentPart r = none := by
    refine bind_of_none (satisfy_of_head? fun c hc => Bool.eq_false_iff.2 fun he => ?_) _
    have hc := (hr c hc).1
    rw [Bool.or_eq_true, decide_eq_true_eq, decide_eq_true_eq] at he
    rcases he with rfl | rfl <;> exact absurd hc (by decide)
  show (opt (char '-') >>= fun sign => chars1 Char.isDigit >>= fun whole =>
    opt fractionPart >>= fun fraction => opt exponentPart >>= fun exponent =>
      fun s => (numberValue? sign.isSome whole fraction exponent).map fun v => (v, s)) s = _
  rw [bind_of_some hs, bind_of_some (digits whole hw _ hwhole), bind_of_some hfraction,
    bind_of_some (opt_of_none hexponent)]

theorem IsDigits.head? {w : List Char} (h : IsDigits w) (r : List Char) :
    ∃ c ∈ (w ++ r).head?, c.isDigit = true := by
  cases w with
  | nil => exact absurd rfl h.1
  | cons c w => exact ⟨c, rfl, h.2 c List.mem_cons_self⟩

theorem IsDigits.visible {w : List Char} (h : IsDigits w) : Visible w := by
  obtain ⟨c, hc, hd⟩ := h.head? []
  rw [List.append_nil] at hc
  have hs : c ≠ ' ' ∧ c ≠ '\t' ∧ c ≠ '\r' ∧ c ≠ '\n' ∧ c ≠ ',' ∧ c ≠ '#' := by
    refine ⟨?_, ?_, ?_, ?_, ?_, ?_⟩ <;> rintro rfl <;> cases hd
  exact ⟨c, hc, by simp [isSeparator, hs]⟩

/-- Digits have no sign before them. -/
theorem IsDigits.opt_sign {w : List Char} (h : IsDigits w) (r : List Char) :
    opt (char '-') (w ++ r) = some (none, w ++ r) := by
  refine opt_of_none (char_of_head?_ne fun e => ?_)
  obtain ⟨c, hc, hd⟩ := h.head? r
  cases hc.symm.trans e
  cases hd

/-- **A whole number is read back**, where it fits 64 bits. -/
theorem number_append {n : Int} (h : Number.fitsWord n = true) {r : List Char} (hr : Breaks r) :
    number (printInt n ++ r) = some (.int n, r) := by
  cases n with
  | ofNat n =>
    have digits := isDigits_toDigits n
    have read : number (Nat.toDigits 10 n ++ r)
        = (numberValue? false (Nat.toDigits 10 n) none none).map fun v => (v, r) :=
      number_digits none digits (by exact nofun) hr (digits.opt_sign r)
    rw [printInt, read, numberValue?_toDigits false n rfl h]
    rfl
  | negSucc n =>
    have read : number ('-' :: Nat.toDigits 10 (n + 1) ++ r)
        = (numberValue? true (Nat.toDigits 10 (n + 1)) none none).map fun v => (v, r) :=
      number_digits (some ()) (isDigits_toDigits (n + 1)) (by exact nofun) hr
        (opt_of_some (char_cons _ _))
    rw [printInt, read, numberValue?_toDigits true (n + 1) rfl h]
    rfl

/-- Where neither a digit nor a minus stands, there is no number. -/
theorem number_of_head? {s : List Char}
    (h : ∀ c ∈ s.head?, c.isDigit = false ∧ c ≠ '-') : number s = none := by
  have hsign : char '-' s = none := char_of_head?_ne fun e => (h '-' e).2 rfl
  refine (bind_of_some (opt_of_none hsign) _).trans (bind_of_none ?_ _)
  exact bind_of_none (satisfy_of_head? fun c hc => (h c hc).1) _

/-! ### Floats -/

/-- Digits with a point among them are those in front of it and those behind it. -/
theorem exists_placed {digits : List Char} (h : IsDigits digits) (point : Int) :
    ∃ whole fraction, Layout.plain.placed digits point = whole ++ printFraction fraction
      ∧ IsDigits whole ∧ ∀ ds ∈ fraction, IsDigits ds := by
  have hzeros : ∀ n, ∀ c ∈ Layout.zeros n, c.isDigit = true :=
    fun n c hc => (List.eq_of_mem_replicate hc).symm ▸ rfl
  unfold Layout.placed
  split
  · refine ⟨['0'], some (Layout.zeros (-point).toNat ++ digits), rfl,
      ⟨List.cons_ne_nil _ _, List.forall_mem_singleton.2 rfl⟩, ?_⟩
    rintro ds ⟨⟩
    exact ⟨List.append_ne_nil_of_right_ne_nil _ h.1,
      List.forall_mem_append.2 ⟨hzeros _, h.2⟩⟩
  · split
    · refine ⟨digits ++ Layout.zeros (point - digits.length).toNat, none, rfl,
        ⟨List.append_ne_nil_of_left_ne_nil h.1 _,
          List.forall_mem_append.2 ⟨h.2, hzeros _⟩⟩, nofun⟩
    · next hpositive hshort =>
      have hlength : 0 < point.toNat ∧ point.toNat < digits.length := by omega
      refine ⟨digits.take point.toNat, some (digits.drop point.toNat), rfl, ⟨?_, ?_⟩, ?_⟩
      · intro he
        rcases List.take_eq_nil_iff.1 he with hn | hn
        · exact absurd hn (Nat.ne_of_gt hlength.1)
        · exact h.1 hn
      · exact fun c hc => h.2 c (List.mem_of_mem_take hc)
      · rintro ds ⟨⟩
        exact ⟨fun he => absurd (List.drop_eq_nil_iff.1 he) (Nat.not_le.2 hlength.2),
          fun c hc => h.2 c (List.mem_of_mem_drop hc)⟩

/-- The text of a float: a word, or digits that may have a fraction, and a sign before either. -/
theorem toText_cases (x : Binary64) :
    (∃ word, x.toText.toList = word ∧ word ∈ ["NaN".toList, "inf".toList, "-inf".toList])
      ∨ ∃ (negative : Bool) (whole : List Char) (fraction : Option (List Char)),
        x.toText.toList = (if negative then ['-'] else []) ++ (whole ++ printFraction fraction)
          ∧ IsDigits whole ∧ ∀ ds ∈ fraction, IsDigits ds := by
  match x with
  | .nan | .infinite false | .infinite true =>
    exact .inl ⟨_, rfl, by simp [Binary64.toText, Layout.write]⟩
  | .finite negative m p =>
    obtain ⟨whole, fraction, hp, hw, hf⟩ := exists_placed
      (isDigits_toDigits (Binary64.shortest .upper m p).digits)
      ((Nat.toDigits 10 (Binary64.shortest .upper m p).digits).length
        + (Binary64.shortest .upper m p).exponent)
    refine .inr ⟨negative, whole, fraction, ?_, hw, hf⟩
    rw [← hp, Binary64.toText, Layout.write, String.toList_ofList]
    cases negative <;> rfl

theorem visible_toText (x : Binary64) : Visible x.toText.toList := by
  rcases toText_cases x with ⟨word, hx, hword⟩ | ⟨negative, whole, fraction, hx, hw, -⟩
  · rw [hx]
    simp only [List.mem_cons, List.not_mem_nil, or_false] at hword
    rcases hword with rfl | rfl | rfl <;> exact visible_cons (by decide) (by decide) _
  · rw [hx]
    cases negative with
    | false => exact hw.visible.append _
    | true => exact visible_cons (by decide) (by decide) _

/-- **The text of a float is read the same way wherever it stands.** -/
theorem exists_number_toText (x : Binary64) :
    ∃ o : Option Value, ∀ r, Breaks r →
      number (x.toText.toList ++ r) = o.map fun v => (v, r) := by
  rcases toText_cases x with ⟨word, hx, hword⟩ | ⟨negative, whole, fraction, hx, hw, hf⟩
  · refine ⟨none, fun r _ => ?_⟩
    rw [hx]
    simp only [List.mem_cons, List.not_mem_nil, or_false] at hword
    rcases hword with rfl | rfl | rfl
    · exact number_of_head? (by rintro c ⟨⟩; decide)
    · exact number_of_head? (by rintro c ⟨⟩; decide)
    · exact (bind_of_some (opt_of_some (char_cons _ _)) _).trans
        (bind_of_none (bind_of_none (satisfy_of_false (by decide) _) _) _)
  · refine ⟨numberValue? negative whole fraction none, fun r hr => ?_⟩
    rw [hx]
    cases negative with
    | false =>
      rw [if_neg Bool.false_ne_true, List.nil_append, List.append_assoc]
      exact number_digits none hw hf hr (hw.opt_sign _)
    | true =>
      rw [if_pos rfl, List.append_assoc, List.append_assoc]
      exact number_digits (some ()) hw hf hr (opt_of_some (char_cons _ _))

/-- **A float is read back** where its text is that of the float. -/
theorem number_toText {x : Binary64} (h : x.isReadable = true) {r : List Char} (hr : Breaks r) :
    number (x.toText.toList ++ r) = some (.float x, r) := by
  obtain ⟨o, ho⟩ := exists_number_toText x
  have halone := ho [] nofun
  rw [List.append_nil, eq_of_beq h] at halone
  obtain ⟨v, rfl, hv⟩ := Option.map_eq_some_iff.1 halone.symm
  cases hv
  exact ho r hr

/-- A float that is read off its text is the one that the text is of. -/
theorem isReadable_of_number {x : Binary64} {r s : List Char} (hr : Breaks r)
    (h : number (x.toText.toList ++ r) = some (.float x, s)) : x.isReadable = true := by
  obtain ⟨o, ho⟩ := exists_number_toText x
  rw [ho r hr] at h
  obtain ⟨v, rfl, hv⟩ := Option.map_eq_some_iff.1 h
  cases hv
  have halone := ho [] nofun
  rw [List.append_nil] at halone
  exact beq_iff_eq.2 halone

end ApiCompiler.Schema
