import ApiCompiler.Parser

/-!
# Parser — laws of reading

* `bind_apply`, `map_apply`, `orElse_apply`: what the combinators read off a text.
* `exists_of_bind`, `exists_of_map`, `exists_of_between`: what has been read where they succeed.
* `collect_flatMap`: a repetition reads printed pieces one after the other, and stops at the text
  behind the last of them.
* `forall_of_collect_flatMap`: where a repetition has read printed pieces, each of them is read.
* `Skips`: a parser to which a leading character of some kind makes no difference.
* `Yields`: what all that a parser reads has in common, with a lemma for each combinator.
-/

namespace ApiCompiler.Parser

variable {α β γ : Type}

/-! ### Combinators -/

theorem bind_apply (p : Parser α) (f : α → Parser β) (s : List Char) :
    (p >>= f) s = (p s).bind fun x => f x.1 x.2 := rfl

theorem map_apply (f : α → β) (p : Parser α) (s : List Char) :
    (f <$> p) s = (p s).map fun x => (f x.1, x.2) := by
  show StateT.map f p s = _
  simp only [StateT.map]
  cases p s <;> rfl

theorem orElse_apply (p q : Parser α) (s : List Char) : (p <|> q) s = (p s).or (q s) := by
  show StateT.orElse p (fun _ => q) s = _
  simp only [StateT.orElse]
  cases p s <;> rfl

theorem pure_apply (a : α) (s : List Char) : (pure a : Parser α) s = some (a, s) := rfl

theorem bind_of_some {p : Parser α} {a : α} {s r : List Char} (h : p s = some (a, r))
    (f : α → Parser β) : (p >>= f) s = f a r := by
  rw [bind_apply, h]
  rfl

theorem bind_of_none {p : Parser α} {s : List Char} (h : p s = none) (f : α → Parser β) :
    (p >>= f) s = none := by
  rw [bind_apply, h]
  rfl

theorem map_of_some {p : Parser α} {a : α} {s r : List Char} (h : p s = some (a, r))
    (f : α → β) : (f <$> p) s = some (f a, r) := by
  rw [map_apply, h]
  rfl

theorem map_of_none {p : Parser α} {s : List Char} (h : p s = none) (f : α → β) :
    (f <$> p) s = none := by
  rw [map_apply, h]
  rfl

theorem orElse_of_some {p : Parser α} {a : α} {s r : List Char} (h : p s = some (a, r))
    (q : Parser α) : (p <|> q) s = some (a, r) := by
  rw [orElse_apply, h]
  rfl

theorem orElse_of_none {p : Parser α} {s : List Char} (h : p s = none) (q : Parser α) :
    (p <|> q) s = q s := by
  rw [orElse_apply, h]
  rfl

theorem opt_of_some {p : Parser α} {a : α} {s r : List Char} (h : p s = some (a, r)) :
    opt p s = some (some a, r) :=
  orElse_of_some (map_of_some h some) _

theorem opt_of_none {p : Parser α} {s : List Char} (h : p s = none) :
    opt p s = some (none, s) :=
  orElse_of_none (map_of_none h some) _

/-- What may be left out reads the same off two texts where it does, and what follows it does where
it is. -/
theorem opt_bind_congr {p : Parser α} {f : Option α → Parser β} {s t : List Char}
    (hp : p t = p s) (hf : f none t = f none s) : (opt p >>= f) t = (opt p >>= f) s := by
  cases hs : p s with
  | none => rw [bind_of_some (opt_of_none hs), bind_of_some (opt_of_none (hp.trans hs)), hf]
  | some x => rw [bind_of_some (opt_of_some hs), bind_of_some (opt_of_some (hp.trans hs))]

theorem between_of_some {opening closing : Parser Unit} {p : Parser α} {a : α}
    {s r t u : List Char} (ho : opening s = some ((), r)) (hp : p r = some (a, t))
    (hc : closing t = some ((), u)) : between opening p closing s = some (a, u) := by
  show (opening >>= fun _ => p >>= fun a => closing >>= fun _ => pure a) s = _
  rw [bind_of_some ho, bind_of_some hp, bind_of_some hc, pure_apply]

theorem between_of_none {opening closing : Parser Unit} {p : Parser α} {s : List Char}
    (ho : opening s = none) : between opening p closing s = none :=
  bind_of_none ho _

theorem exists_of_bind {p : Parser α} {f : α → Parser β} {b : β} {s t : List Char}
    (h : (p >>= f) s = some (b, t)) : ∃ a r, p s = some (a, r) ∧ f a r = some (b, t) := by
  rw [bind_apply, Option.bind_eq_some_iff] at h
  obtain ⟨⟨a, r⟩, ha, hb⟩ := h
  exact ⟨a, r, ha, hb⟩

theorem eq_of_pure {a b : α} {s t : List Char} (h : (pure a : Parser α) s = some (b, t)) :
    a = b :=
  (Prod.mk.inj (Option.some.inj h)).1

theorem exists_of_map {p : Parser α} {f : α → β} {b : β} {s t : List Char}
    (h : (f <$> p) s = some (b, t)) : ∃ a, p s = some (a, t) ∧ f a = b := by
  rw [map_apply, Option.map_eq_some_iff] at h
  obtain ⟨⟨a, r⟩, ha, he⟩ := h
  cases he
  exact ⟨a, ha, rfl⟩

theorem or_of_orElse {p q : Parser α} {a : α} {s t : List Char}
    (h : (p <|> q) s = some (a, t)) : p s = some (a, t) ∨ q s = some (a, t) := by
  rw [orElse_apply, Option.or_eq_some_iff] at h
  exact h.imp_right And.right

/-- What may be left out has been read where it is not. -/
theorem of_opt {p : Parser α} {a : α} {s t : List Char} (h : opt p s = some (some a, t)) :
    p s = some (a, t) := by
  rcases or_of_orElse h with h | h
  · obtain ⟨b, hb, he⟩ := exists_of_map h
    rwa [Option.some.inj he] at hb
  · cases h

/-- What is left out takes no part of the text. -/
theorem eq_of_opt_none {p : Parser α} {s t : List Char} (h : opt p s = some (none, t)) : t = s := by
  rcases or_of_orElse h with h | h
  · obtain ⟨b, -, he⟩ := exists_of_map h
    cases he
  · cases h
    rfl

theorem exists_of_between {opening closing : Parser Unit} {p : Parser α} {a : α}
    {s u : List Char} (h : between opening p closing s = some (a, u)) :
    ∃ r t, opening s = some ((), r) ∧ p r = some (a, t) ∧ closing t = some ((), u) := by
  obtain ⟨_, r, ho, h⟩ := exists_of_bind h
  obtain ⟨b, t, hp, h⟩ := exists_of_bind h
  obtain ⟨_, v, hc, h⟩ := exists_of_bind h
  cases h
  exact ⟨r, t, ho, hp, hc⟩

/-! ### Characters -/

theorem char_of_head?_ne {c : Char} {r : List Char} (h : r.head? ≠ some c) : char c r = none := by
  cases r with
  | nil => rfl
  | cons d r => exact if_neg fun e => h (congrArg some e)

theorem satisfy_of_true {p : Char → Bool} {c : Char} (h : p c = true) (r : List Char) :
    satisfy p (c :: r) = some (c, r) := by
  simp [satisfy, h]

theorem satisfy_of_false {p : Char → Bool} {c : Char} (h : p c = false) (r : List Char) :
    satisfy p (c :: r) = none := by
  simp [satisfy, h]

theorem satisfy_eq_some_iff {p : Char → Bool} {c : Char} {s r : List Char} :
    satisfy p s = some (c, r) ↔ s = c :: r ∧ p c = true := by
  cases s with
  | nil => simp [satisfy]
  | cons d s =>
    rw [satisfy, Option.ite_none_right_eq_some, Option.some.injEq, Prod.mk.injEq, List.cons.injEq]
    constructor
    · rintro ⟨hd, rfl, rfl⟩
      exact ⟨⟨rfl, rfl⟩, hd⟩
    · rintro ⟨⟨rfl, rfl⟩, hd⟩
      exact ⟨hd, rfl, rfl⟩

/-- A parser of one character reads nothing off a text that no such character starts. -/
theorem satisfy_of_head? {p : Char → Bool} {r : List Char} (h : ∀ c ∈ r.head?, p c = false) :
    satisfy p r = none := by
  cases r with
  | nil => rfl
  | cons c r => exact satisfy_of_false (h c rfl) r

theorem chars_append {p : Char → Bool} {w r : List Char} (hw : ∀ c ∈ w, p c = true)
    (hr : ∀ c ∈ r.head?, p c = false) : chars p (w ++ r) = some (w, r) := by
  have htake : r.takeWhile p = [] := by
    cases r with
    | nil => rfl
    | cons c r => simp [hr c rfl]
  have hdrop : r.dropWhile p = r := by
    cases r with
    | nil => rfl
    | cons c r => simp [hr c rfl]
  show some _ = _
  rw [List.takeWhile_append_of_pos hw, List.dropWhile_append_of_pos hw, htake, hdrop,
    List.append_nil]

theorem chars1_append {p : Char → Bool} {w r : List Char} (hne : w ≠ [])
    (hw : ∀ c ∈ w, p c = true) (hr : ∀ c ∈ r.head?, p c = false) :
    chars1 p (w ++ r) = some (w, r) := by
  cases w with
  | nil => exact absurd rfl hne
  | cons c w =>
    show (satisfy p >>= fun c => chars p >>= fun r => pure (c :: r)) (c :: (w ++ r)) = _
    rw [bind_of_some (satisfy_of_true (hw c List.mem_cons_self) _),
      bind_of_some (chars_append (fun d hd => hw d (List.mem_cons_of_mem c hd)) hr), pure_apply]

theorem tag_of_head?_ne {c : Char} {w r : List Char} (h : r.head? ≠ some c) :
    tag (c :: w) r = none :=
  bind_of_none (char_of_head?_ne h) _

/-! ### Repetitions -/

theorem collect_of_some {p : Parser α} {a : α} {s r : List Char} (h : p s = some (a, r))
    (hr : r.length < s.length) :
    collect p s = (a :: (collect p r).1, (collect p r).2) := by
  rw [collect]
  simp [h, hr]

theorem collect_of_none {p : Parser α} {s : List Char} (h : p s = none) :
    collect p s = ([], s) := by
  rw [collect]
  simp [h]

/-- What holds of a text that starts with a piece, and of the text behind the pieces, holds of the
pieces with that text behind them. -/
theorem flatMap_append_of {f : α → List Char} {as : List α} {t : List Char}
    {B : List Char → Prop} (hpiece : ∀ a ∈ as, ∀ r, B (f a ++ r)) (ht : B t) :
    B (as.flatMap f ++ t) := by
  cases as with
  | nil => exact ht
  | cons a as =>
    rw [List.flatMap_cons, List.append_assoc]
    exact hpiece a List.mem_cons_self _

/-- **Printed pieces are read back**: where `p` reads each piece off whatever may stand behind it,
a repetition of `p` reads them all, and ends at a text that `p` reads nothing off. -/
theorem collect_flatMap {p : Parser β} {f : α → List Char} {g : α → β} {as : List α}
    {t : List Char} {B : List Char → Prop} (hne : ∀ a ∈ as, f a ≠ [])
    (hread : ∀ a ∈ as, ∀ r, B r → p (f a ++ r) = some (g a, r))
    (hpiece : ∀ a ∈ as, ∀ r, B (f a ++ r)) (ht : B t) (hend : p t = none) :
    collect p (as.flatMap f ++ t) = (as.map g, t) := by
  induction as with
  | nil => exact collect_of_none hend
  | cons a as ih =>
    have hrest : B (as.flatMap f ++ t) :=
      flatMap_append_of (fun b hb => hpiece b (List.mem_cons_of_mem a hb)) ht
    have hlength : 0 < (f a).length := List.length_pos_iff.2 (hne a List.mem_cons_self)
    rw [List.flatMap_cons, List.append_assoc,
      collect_of_some (hread a List.mem_cons_self _ hrest) (by simp; omega),
      ih (fun b hb => hne b (List.mem_cons_of_mem a hb))
        (fun b hb => hread b (List.mem_cons_of_mem a hb))
        (fun b hb => hpiece b (List.mem_cons_of_mem a hb))]
    rfl

/-- A repetition that has read an item goes on behind it. -/
theorem exists_of_collect_eq_cons {p : Parser α} {a : α} {as : List α} {s t : List Char}
    (h : collect p s = (a :: as, t)) : ∃ r, p s = some (a, r) ∧ collect p r = (as, t) := by
  rw [collect] at h
  split at h
  · cases h
  · next b r hb =>
    split at h
    · cases h
      exact ⟨r, hb, rfl⟩
    · cases h

/-- A repetition that has read no item has taken no part of the text. -/
theorem eq_of_collect_nil {p : Parser α} {s t : List Char} (h : collect p s = ([], t)) :
    t = s := by
  rw [collect] at h
  split at h
  · cases h
    rfl
  · split at h <;> cases h
    rfl

/-- **Pieces that have been read**: where a repetition of `p` has read printed pieces up to `u`,
each of them is one that `p` reads. -/
theorem forall_of_collect_flatMap {p : Parser β} {f : α → List Char} {g : α → β} {as : List α}
    {t u : List Char} {B : List Char → Prop} {Good : α → Prop}
    (hread : ∀ a ∈ as, Good a → ∀ r, B r → p (f a ++ r) = some (g a, r))
    (hgood : ∀ a ∈ as, ∀ r s, B r → p (f a ++ r) = some (g a, s) → Good a)
    (hpiece : ∀ a ∈ as, ∀ r, B (f a ++ r)) (ht : B t)
    (h : collect p (as.flatMap f ++ t) = (as.map g, u)) : ∀ a ∈ as, Good a := by
  induction as with
  | nil => exact nofun
  | cons a as ih =>
    have hrest : B (as.flatMap f ++ t) :=
      flatMap_append_of (fun b hb => hpiece b (List.mem_cons_of_mem a hb)) ht
    rw [List.flatMap_cons, List.append_assoc] at h
    obtain ⟨r, hr, h⟩ := exists_of_collect_eq_cons h
    have good := hgood a List.mem_cons_self _ r hrest hr
    -- what is read leaves what stands behind it
    rw [hread a List.mem_cons_self good _ hrest] at hr
    cases hr
    refine List.forall_mem_cons.2 ⟨good, ih ?_ ?_ ?_ h⟩
    · exact fun b hb => hread b (List.mem_cons_of_mem a hb)
    · exact fun b hb => hgood b (List.mem_cons_of_mem a hb)
    · exact fun b hb => hpiece b (List.mem_cons_of_mem a hb)

/-! ### Leading characters without meaning -/

/-- `p` reads the same with and without a leading character that has the property `sep`. -/
def Skips (sep : Char → Bool) (p : Parser α) : Prop :=
  ∀ c, sep c = true → ∀ s, p (c :: s) = p s

variable {sep : Char → Bool}

theorem Skips.append {p : Parser α} (h : Skips sep p) {w : List Char}
    (hw : ∀ c ∈ w, sep c = true) (s : List Char) : p (w ++ s) = p s := by
  induction w with
  | nil => rfl
  | cons c w ih =>
    rw [List.cons_append, h c (hw c List.mem_cons_self)]
    exact ih fun d hd => hw d (List.mem_cons_of_mem c hd)

theorem Skips.bind {p : Parser α} (h : Skips sep p) (f : α → Parser β) :
    Skips sep (p >>= f) := by
  intro c hc s
  rw [bind_apply, bind_apply, h c hc s]

/-- What may be left out skips what it and all that follows it skip. -/
theorem Skips.opt_bind {p : Parser α} {f : Option α → Parser β} (h : Skips sep p)
    (hf : Skips sep (f none)) : Skips sep (opt p >>= f) :=
  fun c hc s => opt_bind_congr (h c hc s) (hf c hc s)

/-! ### Agreement on short texts -/

/-- Whether `p` and `q` read the same off texts of at most `n` characters. -/
def Agree (n : Nat) (p q : Parser α) : Prop := ∀ s, s.length ≤ n → p s = q s

namespace Agree

variable {n : Nat} {p q : Parser α}

theorem refl (n : Nat) (p : Parser α) : Agree n p p := fun _ _ => rfl

theorem map (h : Agree n p q) (f : α → β) : Agree n (f <$> p) (f <$> q) := fun s hs => by
  rw [map_apply, map_apply, h s hs]

theorem orElse {p' q' : Parser α} (h : Agree n p q) (h' : Agree n p' q') :
    Agree n (p <|> p') (q <|> q') := fun s hs => by
  rw [orElse_apply, orElse_apply, h s hs, h' s hs]

theorem bind (h : Agree n p q) (f : α → Parser β) : Agree n (p >>= f) (q >>= f) := fun s hs => by
  rw [bind_apply, bind_apply, h s hs]

/-- What is read behind a parser that lengthens no text. -/
theorem behind {f g : α → Parser β} (hp : ∀ s a r, p s = some (a, r) → r.length ≤ s.length)
    (h : ∀ a, Agree n (f a) (g a)) : Agree n (p >>= f) (p >>= g) := fun s hs => by
  cases hps : p s with
  | none => rw [bind_of_none hps, bind_of_none hps]
  | some x =>
    rw [bind_of_some hps, bind_of_some hps, h x.1 x.2 (Nat.le_trans (hp s _ _ hps) hs)]

theorem many (h : Agree n p q) : Agree n (many p) (many q) := by
  intro s hs
  show some (collect p s) = some (collect q s)
  congr 1
  fun_induction collect p s with
  | case1 s hp => rw [collect_of_none ((h s hs).symm.trans hp)]
  | case2 s a r hp hr as t he ih =>
    have hrest := ih (Nat.le_trans (Nat.le_of_lt hr) hs)
    rw [he] at hrest
    rw [collect_of_some ((h s hs).symm.trans hp) hr, ← hrest]
  | case3 s a r hp hr =>
    rw [collect]
    simp [(h s hs).symm.trans hp, hr]

/-- An opening character leaves a shorter text. -/
theorem between (h : Agree n p q) (c : Char) (closing : Parser Unit) :
    Agree (n + 1) (between (char c) p closing) (between (char c) q closing) := by
  intro s hs
  show (char c >>= fun _ => p >>= fun a => closing >>= fun _ => Pure.pure a) s
    = (char c >>= fun _ => q >>= fun a => closing >>= fun _ => Pure.pure a) s
  cases hc : char c s with
  | none => rw [bind_of_none hc, bind_of_none hc]
  | some x =>
    obtain ⟨_, r⟩ := x
    obtain rfl := char_eq_some_iff.1 hc
    rw [bind_of_some hc, bind_of_some hc]
    exact (h.bind _) r (Nat.le_of_succ_le_succ hs)

end Agree

/-! ### What is read -/

/-- Whatever `p` reads has the property `P`. -/
def Yields (p : Parser α) (P : α → Prop) : Prop := ∀ s a r, p s = some (a, r) → P a

namespace Yields

variable {p : Parser α} {q : Parser β} {P : α → Prop} {Q : β → Prop}

theorem any (p : Parser α) : Yields p fun _ => True := fun _ _ _ _ => trivial

theorem and {Q : α → Prop} (hp : Yields p P) (hq : Yields p Q) : Yields p fun a => P a ∧ Q a :=
  fun s a r h => ⟨hp s a r h, hq s a r h⟩

theorem pure {a : α} (h : P a) : Yields (pure a) P := by
  intro s b r hr
  cases hr
  exact h

theorem bind {f : α → Parser β} (hp : Yields p P) (hf : ∀ a, P a → Yields (f a) Q) :
    Yields (p >>= f) Q := by
  intro s b t h
  obtain ⟨a, r, ha, hb⟩ := exists_of_bind h
  exact hf a (hp s a r ha) r b t hb

/-- What is read first may be anything. -/
theorem after {f : α → Parser β} (hf : ∀ a, Yields (f a) Q) : Yields (p >>= f) Q :=
  (any p).bind fun a _ => hf a

theorem map {f : α → β} (hp : Yields p P) (hf : ∀ a, P a → Q (f a)) : Yields (f <$> p) Q := by
  intro s b r h
  obtain ⟨a, ha, rfl⟩ := exists_of_map h
  exact hf a (hp s a r ha)

theorem orElse {p' : Parser α} (hp : Yields p P) (hp' : Yields p' P) : Yields (p <|> p') P := by
  intro s a r h
  rcases or_of_orElse h with h | h
  · exact hp s a r h
  · exact hp' s a r h

theorem ite {c : Prop} [Decidable c] {p' : Parser α} (hp : Yields p P) (hp' : Yields p' P) :
    Yields (if c then p else p') P := by
  split
  · exact hp
  · exact hp'

theorem opt (hp : Yields p P) : Yields (opt p) fun o => ∀ a ∈ o, P a :=
  (hp.map fun _ ha _ hb => Option.some.inj hb ▸ ha).orElse (pure nofun)

theorem between {opening closing : Parser Unit} (hp : Yields p P) :
    Yields (between opening p closing) P :=
  .after fun _ => hp.bind fun _ ha => .after fun _ => pure ha

theorem many (hp : Yields p P) : Yields (many p) fun as => ∀ a ∈ as, P a := by
  intro s as r h
  obtain rfl : (collect p s).1 = as := congrArg Prod.fst (Option.some.inj h)
  -- along the calls of the repetition, each of which leaves less of the text
  clear h r
  fun_induction collect p s with
  | case1 s hs => exact nofun
  | case2 s a r hs hr as t he ih =>
    intro b hb
    rcases List.mem_cons.1 hb with rfl | hb
    · exact hp s _ r hs
    · exact ih b (by rwa [he])
  | case3 s a r hs hr => exact nofun

theorem many1 (hp : Yields p P) : Yields (many1 p) fun as => ∀ a ∈ as, P a :=
  hp.bind fun _ ha => hp.many.bind fun _ has => pure (List.forall_mem_cons.2 ⟨ha, has⟩)

theorem sepBy1 {sep : Parser β} (hp : Yields p P) :
    Yields (sepBy1 p sep) fun as => ∀ a ∈ as, P a :=
  hp.bind fun _ ha => (many (.after fun _ => hp)).bind fun _ has =>
    pure (List.forall_mem_cons.2 ⟨ha, has⟩)

end Yields

end ApiCompiler.Parser
