import ApiCompiler.Proofs.Schema.Grammar

/-!
# Schema — texts one after the other

Where two texts are read as one, the definitions of the first need not be all that is read of it. A
list of interfaces goes on with any name, so a type without fields that ends with one takes in the
keyword of what follows. No other rule of the grammar goes on by what a document starts with.

* `Settled`, `Open`: what is read up to a place, whatever follows there, and what a name changes.
* `outcome_fieldsDefinition`, `definite_definition`: a definition is settled, or it is open.
* `outcome_collect`, `outcome_document`: only the last of some definitions can be open.
* `Document.parse_append_iff`: where the definitions of two texts are those of both as one.
-/

namespace ApiCompiler

/-- Whether a type may be written with its interfaces last. -/
def TypeDefinition.EndsInInterfaces (t : TypeDefinition) : Prop :=
  t.implements ≠ [] ∧ t.directives = [] ∧ t.fields = []

namespace Schema

open ApiCompiler.Parser

variable {α β : Type} {m s r : List Char}

/-! ### Settled and open definitions -/

/-- The kinds of token that a document goes on with. -/
def documentKinds : List Ahead := [.ending, .name, .mark '"']

/-- Those of them that are no names. -/
def quietKinds : List Ahead := [.ending, .mark '"']

theorem mem_documentKinds {k : Ahead} (h : k ∈ quietKinds) : k ∈ documentKinds :=
  (by decide : ∀ k ∈ quietKinds, k ∈ documentKinds) k h

theorem mem_quietKinds {k : Ahead} (h : k ∈ documentKinds) (hname : k ≠ .name) : k ∈ quietKinds :=
  (by decide : ∀ k ∈ documentKinds, k ≠ .name → k ∈ quietKinds) k h hname

/-- What `p` reads off `s` up to `r` with `m` behind it, it reads with any text of definitions. -/
def Settled (m : List Char) (p : Parser α) (s r : List Char) (a : α) : Prop :=
  ∀ w, Behind m w → ahead (r ++ w) ∈ documentKinds → p (s ++ w) = some (a, r ++ w)

/-- `p` reads a type off `s` up to `r`, where nothing more is to be read, and so it does where no
name follows. With a name behind it, another type is read. -/
structure Open (m : List Char) (p : Parser (Option TypeDefinition)) (s r : List Char)
    (t : TypeDefinition) : Prop where
  bare  : t.EndsInInterfaces
  blank : Blank r
  stays : ∀ w, Behind m w → ahead (r ++ w) ∈ quietKinds → p (s ++ w) = some (some t, r ++ w)
  goes  : ∀ w, Behind m w → ahead (r ++ w) = .name →
    ∃ t' x, p (s ++ w) = some (some t', x) ∧ t' ≠ t

/-- What has been read up to a place is settled, or a type that is open. -/
def Outcome (m : List Char) (p : Parser (Option TypeDefinition)) (s r : List Char)
    (o : Option TypeDefinition) : Prop :=
  Settled m p s r o ∨ ∃ t, o = some t ∧ Open m p s r t

/-- Whatever `p` reads is settled, or a type that is open. -/
structure Definite (m : List Char) (p : Parser (Option TypeDefinition)) : Prop where
  trims   : Trims p
  outcome : ∀ {s r : List Char} {o : Option TypeDefinition},
    p (s ++ m) = some (o, r ++ m) → Outcome m p s r o

namespace Definite

theorem of_fits {σ : Shape} {p : Parser (Option TypeDefinition)}
    (h : ∀ {w}, Behind m w → Fits m w σ p)
    (hσ : σ.sound ∧ ∀ k ∈ documentKinds, k ∉ σ.more) : Definite m p where
  trims := ((h (.nil m)).opens hσ.1).trims
  outcome hp := .inl fun _ hw hr => (h hw).reads hσ.1 hp (hσ.2 _ hr)

theorem ite {c : Prop} [Decidable c] {p q : Parser (Option TypeDefinition)} (hp : Definite m p)
    (hq : Definite m q) : Definite m (if c then p else q) := by
  split
  · exact hp
  · exact hq

/-- What is read in front makes no difference, where nothing goes on from it. -/
theorem bind {p : Parser α} {f : α → Parser (Option TypeDefinition)} {first : List Ahead}
    (hp : ∀ {w}, Behind m w → Fits m w { first } p)
    (hf : ∀ a, Definite m (f a)) : Definite m (p >>= f) where
  trims := ((hp (.nil m)).opens rfl).trims.bind fun a => (hf a).trims
  outcome {s r o} h := by
    obtain ⟨a, x, ha, hb⟩ := exists_of_bind h
    obtain ⟨x, rfl⟩ := (List.suffix_append r m).trans ((hf a).trims.suffix hb)
    have front : ∀ {w}, Behind m w → p (s ++ w) = some (a, x ++ w) := fun hw =>
      (hp hw).reads rfl ha List.not_mem_nil
    refine ((hf a).outcome hb).imp (fun h w hw hr => ?_) fun ⟨t, ho, h⟩ =>
      ⟨t, ho, h.bare, h.blank, fun w hw hr => ?_, fun w hw hr => ?_⟩
    · rw [bind_of_some (front hw), h w hw hr]
    · rw [bind_of_some (front hw), h.stays w hw hr]
    · rw [bind_of_some (front hw)]
      exact h.goes w hw hr

end Definite

/-! ### Lists of interfaces -/

theorem exists_of_ahead_name {s : List Char} (h : ahead s = .name) :
    ∃ c r, skipIgnored s = c :: r ∧ isNameStart c = true := by
  rw [ahead] at h
  generalize skipIgnored s = u at h
  cases u with
  | nil => cases h
  | cons c r =>
    refine ⟨c, r, rfl, ?_⟩
    rw [Ahead.of] at h
    split at h
    · assumption
    · split at h
      · cases h
      · split at h
        · cases h
        · split at h <;> cases h

/-- Where a name comes next, an interface is read. -/
theorem exists_interfaceItem {s r : List Char} {c : Char} (hs : skipIgnored s = c :: r)
    (hc : isNameStart c = true) : ∃ n x, interfaceItem s = some (n, x) := by
  have hsymbol : symbol '&' s = none := by
    refine char_of_head?_ne ?_
    rw [hs]
    exact fun e => ne_of_isNameStart hc (by decide) (Option.some.inj e)
  refine ⟨String.ofList (c :: r.takeWhile isNameChar), r.dropWhile isNameChar, ?_⟩
  refine (bind_of_some (opt_of_none hsymbol) _).trans ?_
  rw [token_apply, hs]
  exact bind_of_some (satisfy_of_true hc r) _

/-- A list of interfaces goes on with a name that follows. -/
theorem exists_implementsClause {l : List String}
    (h : implementsClause (s ++ m) = some (l, r ++ m)) {w : List Char} (hw : Behind m w)
    (hname : ahead (r ++ w) = .name) :
    ∃ l' x, implementsClause (s ++ w) = some (l', x) ∧ l.length < l'.length := by
  have item := hw.fits_interfaceItem
  obtain ⟨_, x, htag, h⟩ := exists_of_bind h
  obtain ⟨a, y, ha, h⟩ := exists_of_bind h
  obtain ⟨as, z, has, h⟩ := exists_of_bind h
  cases h
  obtain ⟨y, rfl⟩ := (List.suffix_append r m).trans ((item.many.opens rfl).suffix has)
  obtain ⟨x, rfl⟩ := (List.suffix_append y m).trans ((item.opens rfl).suffix ha)
  have htag := (Fits.token_implements (w := w)).reads rfl htag List.not_mem_nil
  have ha := item.reads rfl ha List.not_mem_nil
  have has := item.collect rfl (Option.some.inj has) List.not_mem_nil
  obtain ⟨c, u, hu, hc⟩ := exists_of_ahead_name hname
  obtain ⟨n, v, hn⟩ := exists_interfaceItem hu hc
  rw [collect_of_some hn ((item.opens rfl).cut hn).2.length_lt] at has
  refine ⟨a :: (as ++ n :: (collect interfaceItem v).1), (collect interfaceItem v).2,
    (bind_of_some htag _).trans ((bind_of_some ha _).trans
      (bind_of_some (congrArg some has) _)), ?_⟩
  simp

/-- A list of interfaces stops where no name comes next. -/
theorem ahead_of_implementsClause {l : List String}
    (h : implementsClause (s ++ m) = some (l, r ++ m)) {w : List Char} (hw : Behind m w)
    (hr : ¬ Blank r) : ahead (r ++ w) ≠ .name := by
  intro hname
  obtain ⟨_, x, -, h⟩ := exists_of_bind h
  obtain ⟨a, y, -, h⟩ := exists_of_bind h
  obtain ⟨as, z, has, h⟩ := exists_of_bind h
  cases h
  obtain ⟨c, u, hu⟩ := (blank_or_exists r).resolve_left hr
  obtain ⟨d, v, hd, hstart⟩ := exists_of_ahead_name hname
  rw [hu w] at hd
  cases hd
  obtain ⟨n, y, hn⟩ := exists_interfaceItem (hu m) hstart
  exact nomatch hn.symm.trans
    ((hw.fits_interfaceItem.opens rfl).eq_none_of_collect (Option.some.inj has))

theorem yields_implementsClause_ne_nil : Yields implementsClause (· ≠ []) :=
  .after fun _ => .after fun _ => .after fun _ => .pure (List.cons_ne_nil _ _)

/-! ### Types with fields -/

/-- What follows the interfaces of a type. -/
def afterInterfaces (kind : TypeKind) (extends? : Bool) (typeName : String)
    (implements : Option (List String)) : Parser TypeDefinition := do
  let ds     ← directives
  let fields ← opt (block fieldDefinition)
  return { kind, name := typeName, extends?, implements := implements.getD [], directives := ds,
           fields := fields.getD [] }

section

variable (kind : TypeKind) (extends? : Bool) (typeName : String)

/-- The shape of what follows the interfaces of a type. -/
def afterInterfacesShape : Shape where
  first := [.mark '@', .mark '\x7b']
  more  := [.mark '@', .mark '(', .mark '\x7b']
  empty := true

theorem fits_afterInterfaces {w : List Char} (h : Behind m w) (implements : Option (List String)) :
    Fits m w afterInterfacesShape (afterInterfaces kind extends? typeName implements) :=
  .mono (.bind h.fits_directives fun _ =>
    .bind (Behind.fits_block h.fits_fieldDefinition).opt fun _ => .pure _) (by decide)

/-- What follows the interfaces of a type is read in any case. -/
theorem exists_afterInterfaces (implements : Option (List String)) (s : List Char) :
    ∃ t x, afterInterfaces kind extends? typeName implements s = some (t, x)
      ∧ t.implements = implements.getD [] := by
  obtain ⟨o, x, ho⟩ : ∃ o x, opt (block fieldDefinition) (collect (token directive) s).2
      = some (o, x) := by
    cases hb : block fieldDefinition (collect (token directive) s).2 with
    | none => exact ⟨_, _, opt_of_none hb⟩
    | some y => exact ⟨_, _, opt_of_some hb⟩
  exact ⟨_, x, (bind_of_some (p := directives) rfl _).trans (bind_of_some ho _), rfl⟩

variable {kind extends? typeName}

/-- Where nothing follows the interfaces of a type, it has neither directives nor fields. -/
theorem endsInInterfaces_of_afterInterfaces {l : List String} (hl : l ≠ [])
    {t : TypeDefinition} (h : afterInterfaces kind extends? typeName (some l) s = some (t, s)) :
    t.EndsInInterfaces := by
  have here : Behind [] [] := .nil []
  obtain ⟨ds, x, hds, h⟩ := exists_of_bind h
  obtain ⟨fields, y, hfields, h⟩ := exists_of_bind h
  cases h
  have hblock := (Behind.fits_block here.fits_fieldDefinition).opens rfl
  obtain rfl : x = s := by
    rcases here.fits_directives.opens rfl s ds x hds with ⟨-, hcut⟩ | ⟨-, heq⟩
    · have hback := (hblock.opt.suffix hfields).length_le
      exact absurd hcut.length_lt (Nat.not_lt.2 hback)
    · exact heq
  refine ⟨hl, ?_, ?_⟩
  · exact (here.fits_directive.token.opens rfl).eq_nil_of_collect (Option.some.inj hds)
  · cases fields with
    | none => rfl
    | some fs => exact absurd (hblock.cut (of_opt hfields)).2.length_lt (Nat.lt_irrefl _)

/-- A type is read off `s` in parts: its name up to `x`, its interfaces up to `y`, and the rest up
to `r`. -/
structure ReadInParts (m s x y r : List Char) (kind : TypeKind) (extends? : Bool)
    (typeName : String) (implements : Option (List String)) (t : TypeDefinition) : Prop where
  name       : token name (s ++ m) = some (typeName, x ++ m)
  interfaces : opt implementsClause (x ++ m) = some (implements, y ++ m)
  rest       : afterInterfaces kind extends? typeName implements (y ++ m) = some (t, r ++ m)

theorem exists_readInParts {t : TypeDefinition}
    (h : fieldsDefinition kind extends? (s ++ m) = some (t, r ++ m)) :
    ∃ x y n i, ReadInParts m s x y r kind extends? n i t := by
  have here : Behind m [] := .nil m
  obtain ⟨n, x, hn, h⟩ := exists_of_bind h
  obtain ⟨i, y, hi, hrest⟩ := exists_of_bind h
  obtain ⟨y, rfl⟩ := (List.suffix_append r m).trans
    (((fits_afterInterfaces kind extends? n here i).opens rfl).suffix hrest)
  obtain ⟨x, rfl⟩ := (List.suffix_append y m).trans
    ((here.fits_implementsClause.opt.opens rfl).suffix hi)
  exact ⟨x, y, n, i, hn, hi, hrest⟩

namespace ReadInParts

variable {w x y : List Char} {i : Option (List String)} {l : List String} {t : TypeDefinition}

/-- With another text behind it, the name of a type is the same. -/
theorem reads (h : ReadInParts m s x y r kind extends? typeName i t) (hw : Behind m w)
    {i' : Option (List String)} {y' x' : List Char} {t' : TypeDefinition}
    (hi : opt implementsClause (x ++ w) = some (i', y'))
    (hrest : afterInterfaces kind extends? typeName i' y' = some (t', x')) :
    (some <$> fieldsDefinition kind extends?) (s ++ w) = some (some t', x') :=
  map_of_some ((bind_of_some (hw.fits_token_name.reads rfl h.name List.not_mem_nil) _).trans
    ((bind_of_some hi _).trans hrest)) some

theorem rest_append (h : ReadInParts m s x y r kind extends? typeName i t) (hw : Behind m w)
    (hr : ahead (r ++ w) ∈ documentKinds) :
    afterInterfaces kind extends? typeName i (y ++ w) = some (t, r ++ w) :=
  (fits_afterInterfaces kind extends? typeName hw i).reads rfl h.rest
    ((by decide : ∀ k ∈ documentKinds, k ∉ afterInterfacesShape.more) _ hr)

/-- What follows the interfaces of a type starts with a mark, if it is anything. -/
theorem settled_of_ne (h : ReadInParts m s x y r kind extends? typeName i t) (hne : r ≠ y) :
    Settled m (some <$> fieldsDefinition kind extends?) s r (some t) := by
  intro w hw hr
  have hrest := h.rest_append hw hr
  refine h.reads hw (hw.fits_implementsClause.opt.reads rfl h.interfaces fun hmem => ?_) hrest
  rcases (fits_afterInterfaces kind extends? typeName hw i).opens rfl _ _ _ hrest with
    ⟨hfirst, -⟩ | ⟨-, heq⟩
  · exact (by decide : ∀ k ∈ afterInterfacesShape.first,
      k ∉ Ahead.implements :: .mark '&' :: names) _ hfirst hmem
  · exact hne (List.append_cancel_right heq)

/-- Without interfaces, nothing of the kind comes next. -/
theorem settled_of_none (h : ReadInParts m s x r r kind extends? typeName none t) :
    Settled m (some <$> fieldsDefinition kind extends?) s r (some t) := by
  intro w hw hr
  obtain rfl := List.append_cancel_right (eq_of_opt_none h.interfaces)
  refine h.reads hw (opt_of_none ?_) (h.rest_append hw hr)
  exact (hw.fits_implementsClause.opens rfl).eq_none
    ((by decide : ∀ k ∈ documentKinds, k ∉ [Ahead.implements]) _ hr)

/-- A type that the text ends with after its interfaces is the same where no name follows. -/
theorem stays (h : ReadInParts m s x r r kind extends? typeName (some l) t) (hw : Behind m w)
    (hr : ahead (r ++ w) ∈ quietKinds) :
    (some <$> fieldsDefinition kind extends?) (s ++ w) = some (some t, r ++ w) :=
  h.reads hw (opt_of_some (hw.fits_implementsClause.reads rfl (of_opt h.interfaces)
    ((by decide : ∀ k ∈ quietKinds, k ∉ Ahead.mark '&' :: names) _ hr)))
    (h.rest_append hw (mem_documentKinds hr))

/-- Where a name follows, it is taken for another interface. -/
theorem goes (h : ReadInParts m s x r r kind extends? typeName (some l) t) (hw : Behind m w)
    (hr : ahead (r ++ w) = .name) :
    ∃ t' u, (some <$> fieldsDefinition kind extends?) (s ++ w) = some (some t', u) ∧ t' ≠ t := by
  obtain ⟨l', u, hl', hlong⟩ := exists_implementsClause (of_opt h.interfaces) hw hr
  obtain ⟨t', v, ht', himpl'⟩ := exists_afterInterfaces kind extends? typeName (some l') u
  obtain ⟨t'', v', ht'', himpl⟩ := exists_afterInterfaces kind extends? typeName (some l) (r ++ m)
  obtain ⟨rfl, -⟩ := Prod.mk.inj (Option.some.inj (h.rest.symm.trans ht''))
  refine ⟨t', v, h.reads hw (opt_of_some hl') ht', fun heq => ?_⟩
  rw [heq, himpl] at himpl'
  exact absurd (congrArg List.length himpl') (Nat.ne_of_lt hlong)

end ReadInParts

/-- **A type with fields is settled, or it is open**: only a list of interfaces that the text ends
with goes on by what a document starts with. -/
theorem outcome_fieldsDefinition {o : Option TypeDefinition}
    (h : (some <$> fieldsDefinition kind extends?) (s ++ m) = some (o, r ++ m)) :
    Outcome m (some <$> fieldsDefinition kind extends?) s r o := by
  obtain ⟨t, ht, rfl⟩ := exists_of_map h
  obtain ⟨x, y, n, i, hparts⟩ := exists_readInParts ht
  by_cases hry : r = y
  · subst hry
    cases i with
    | none => exact .inl hparts.settled_of_none
    | some l =>
      have hl := of_opt hparts.interfaces
      by_cases hblank : Blank r
      · have hbare := endsInInterfaces_of_afterInterfaces
          (yields_implementsClause_ne_nil _ l _ hl) hparts.rest
        exact .inr ⟨t, rfl, hbare, hblank, fun w hw => hparts.stays hw, fun w hw => hparts.goes hw⟩
      · exact .inl fun w hw hr => hparts.stays hw
          (mem_quietKinds hr (ahead_of_implementsClause hl hw hblank))
  · exact .inl (hparts.settled_of_ne hry)

variable (kind extends?)

theorem definite_fieldsDefinition :
    Definite m (some <$> fieldsDefinition kind extends?) where
  trims := by
    have here : Behind m [] := .nil m
    exact Trims.map ((here.fits_token_name.opens rfl).trims.bind fun n =>
      (here.fits_implementsClause.opt.opens rfl).trims.bind fun i =>
        ((fits_afterInterfaces kind extends? n here i).opens rfl).trims) some
  outcome := outcome_fieldsDefinition

end

/-! ### Definitions -/

theorem definite_definitionOf (keyword : String) (extends? : Bool) :
    Definite m (definitionOf keyword extends?) :=
  .ite (definite_fieldsDefinition _ _) <| .ite (definite_fieldsDefinition _ _) <|
    .ite (definite_fieldsDefinition _ _) <|
    .ite (.of_fits (fun hw => (hw.fits_enumDefinition extends?).map some) (by decide)) <|
    .ite (.of_fits (fun hw => (hw.fits_unionDefinition extends?).map some) (by decide)) <|
    .ite (.of_fits (fun hw => (hw.fits_scalarDefinition extends?).map some) (by decide)) <|
    .ite (.of_fits (fun hw => hw.fits_schemaBlock.map fun _ => none) (by decide)) <|
    .ite (.of_fits (fun hw => hw.fits_directiveDeclaration.map fun _ => none) (by decide)) <|
    .of_fits (fun _ => .failure) (by decide)

/-- Reads a keyword, before which a description may stand. -/
def keyword : Parser String := do
  let _ ← opt (token description)
  token name

theorem definition_eq : definition = (do
    let word ← keyword
    if word = "extend" then
      let extended ← token name
      definitionOf extended true
    else definitionOf word false) :=
  (bind_assoc _ _ _).symm

theorem fits_keyword {w : List Char} (h : Behind m w) :
    Fits m w { first := .mark '"' :: names } keyword :=
  .mono (.bind h.fits_token_description.opt fun _ => h.fits_token_name) (by decide)

theorem definite_afterKeyword (word : String) : Definite m
    (if word = "extend" then do
      let extended ← token name
      definitionOf extended true
    else definitionOf word false) :=
  .ite (.bind (fun hw => hw.fits_token_name) fun _ => definite_definitionOf _ _)
    (definite_definitionOf _ _)

/-- **A definition is settled, or it is open.** -/
theorem definite_definition : Definite m definition := by
  rw [definition_eq]
  exact .bind fits_keyword definite_afterKeyword

/-- The words that what follows them is told by. -/
def keywords : List String :=
  ["extend", "type", "input", "interface", "enum", "union", "scalar", "schema", "directive"]

theorem mem_keywords_of_definitionOf {word : String} {extends? : Bool}
    {x : Option TypeDefinition × List Char} (h : definitionOf word extends? s = some x) :
    word ∈ keywords := by
  refine Decidable.byContradiction fun hword => ?_
  simp only [keywords, List.mem_cons, List.not_mem_nil, or_false, not_or] at hword
  simp only [definitionOf, hword, if_false] at h
  cases h

theorem ahead_keyword {word : String} (h : word ∈ keywords) (r : List Char) :
    ahead (word.toList ++ r) = .name := by
  have told : ∀ word ∈ keywords, word.toList.head?.any isNameStart = true
      ∧ (¬ "implements".toList <+: word.toList ∧ ¬ word.toList <+: "implements".toList)
      ∧ ¬ "repeatable".toList <+: word.toList ∧ ¬ word.toList <+: "repeatable".toList := by decide
  obtain ⟨hstart, himplements, hrepeatable⟩ := told word h
  rw [ahead_word hstart, if_neg (not_prefix_append himplements r),
    if_neg (not_prefix_append hrepeatable r)]

/-- A definition starts with a keyword or a description. -/
theorem opens_definition : Opens [.name, .mark '"'] false definition := by
  intro s o r h
  have here : Behind [] [] := .nil []
  have hopens : Opens (.mark '"' :: names) false definition := by
    rw [definition_eq]
    exact ((fits_keyword here).opens rfl).before fun word =>
      (definite_afterKeyword (m := []) word).trims
  refine .inl ⟨?_, (hopens.cut h).2⟩
  rw [definition_eq] at h
  obtain ⟨word, x, hword, hrest⟩ := exists_of_bind h
  obtain ⟨_, y, hd, hname⟩ := exists_of_bind hword
  rcases here.fits_token_description.opt.opens rfl s _ y hd with ⟨hfirst, -⟩ | ⟨-, rfl⟩
  · exact List.mem_cons_of_mem _ hfirst
  · have hmem : word ∈ keywords := by
      split at hrest
      · next he => exact he ▸ by decide
      · exact mem_keywords_of_definitionOf hrest
    rw [← ahead_skipIgnored, eq_append_of_name hname, ahead_keyword hmem]
    exact List.mem_cons_self

theorem documentKinds_of_definition {x : Option TypeDefinition × List Char}
    (h : definition s = some x) : ahead s ∈ documentKinds :=
  (by decide : ∀ k ∈ [Ahead.name, .mark '"'], k ∈ documentKinds) _ (opens_definition.cut h).1

/-- A definition is read behind separators and comments as it is without. -/
theorem definition_skipIgnored (s : List Char) : definition (skipIgnored s) = definition s := by
  have skips : ∀ {α : Type} (p : Parser α), token p (skipIgnored s) = token p s := fun p => by
    rw [token_apply, token_apply, skipIgnored_skipIgnored]
  refine opt_bind_congr (skips description) ?_
  rw [bind_apply, bind_apply, skips name]

/-! ### Lists of definitions -/

theorem collect_definition_of_some {o : Option TypeDefinition} {x : List Char}
    (h : definition s = some (o, x)) :
    collect definition s = (o :: (collect definition x).1, (collect definition x).2) :=
  collect_of_some h (opens_definition.cut h).2.length_lt

theorem exists_append_of_collect {ds : List (Option TypeDefinition)}
    (h : collect definition s = (ds, r ++ m)) : ∃ x, s = x ++ m := by
  obtain ⟨x, rfl⟩ := (List.suffix_append r m).trans (opens_definition.suffix_of_collect h)
  exact ⟨x, rfl⟩

/-- What is read off `s` with `w` behind it are the definitions `ds` up to `r`, and what is read
there. -/
def GoesOn (w s r : List Char) (ds : List (Option TypeDefinition)) : Prop :=
  collect definition (s ++ w)
    = (ds ++ (collect definition (r ++ w)).1, (collect definition (r ++ w)).2)

/-- The last of the definitions `front` and `t`, which are read off `s` up to `r`, is open. -/
structure OpenEnd (m s r : List Char) (front : List (Option TypeDefinition)) (t : TypeDefinition) :
    Prop where
  bare  : t.EndsInInterfaces
  stays : ∀ w, Behind m w → ahead (r ++ w) ∈ quietKinds → GoesOn w s r (front ++ [some t])
  goes  : ∀ w, Behind m w → ahead (r ++ w) = .name →
    ∃ t' back, (collect definition (s ++ w)).1 = front ++ some t' :: back ∧ t' ≠ t

/-- A definition is read in front of others where what follows it is read. -/
theorem GoesOn.cons {w x : List Char} {o : Option TypeDefinition}
    {ds : List (Option TypeDefinition)} (h : GoesOn w x r ds)
    (ho : definition (s ++ w) = some (o, x ++ w)) : GoesOn w s r (o :: ds) := by
  rw [GoesOn, collect_definition_of_some ho, show collect definition (x ++ w) = _ from h]
  rfl

/-- What follows a definition is another one, or what follows them all. -/
theorem ahead_of_collect {x : List Char} {ds : List (Option TypeDefinition)}
    (h : collect definition (x ++ m) = (ds, r ++ m)) {w : List Char}
    (hr : ahead (r ++ w) ∈ documentKinds)
    (hne : ds ≠ [] → (collect definition (x ++ w)).1 ≠ []) : ahead (x ++ w) ∈ documentKinds := by
  by_cases hnil : ds = []
  · rw [hnil] at h
    rwa [← List.append_cancel_right (eq_of_collect_nil h)]
  · cases hw : definition (x ++ w) with
    | none => exact absurd (by rw [collect_of_none hw]) (hne hnil)
    | some y => exact documentKinds_of_definition hw

theorem GoesOn.ne_nil {w : List Char} {ds : List (Option TypeDefinition)} (h : GoesOn w s r ds)
    (hne : ds ≠ []) : (collect definition (s ++ w)).1 ≠ [] := by
  rw [show collect definition (s ++ w) = _ from h]
  exact List.append_ne_nil_of_left_ne_nil hne _

/-- A settled definition is read in front of others of which the last is open. -/
theorem OpenEnd.cons {x : List Char} {o : Option TypeDefinition}
    {front : List (Option TypeDefinition)} {t : TypeDefinition} (h : OpenEnd m x r front t)
    (hds : collect definition (x ++ m) = (front ++ [some t], r ++ m))
    (ho : Settled m definition s x o) : OpenEnd m s r (o :: front) t where
  bare := h.bare
  stays w hw hr := by
    have hgoes := h.stays w hw hr
    exact hgoes.cons
      (ho w hw (ahead_of_collect hds (mem_documentKinds hr) fun hne => hgoes.ne_nil hne))
  goes w hw hr := by
    obtain ⟨t', back, hback, hne⟩ := h.goes w hw hr
    have hread := ho w hw (ahead_of_collect hds (hr ▸ by decide) fun _ => by
      rw [hback]
      exact List.append_ne_nil_of_right_ne_nil _ (List.cons_ne_nil _ _))
    refine ⟨t', back, ?_, hne⟩
    rw [collect_definition_of_some hread, hback, List.cons_append]

/-- Nothing is read behind an open definition. -/
theorem Open.eq_nil {x : List Char} {t : TypeDefinition}
    (h : Open m definition s x t) {ds : List (Option TypeDefinition)}
    (hds : collect definition (x ++ m) = (ds, r ++ m)) : ds = [] := by
  cases ds with
  | nil => rfl
  | cons o ds =>
    obtain ⟨y, ho, hds'⟩ := exists_of_collect_eq_cons hds
    obtain ⟨y, rfl⟩ := exists_append_of_collect hds'
    rw [← definition_skipIgnored] at ho
    exact absurd h.blank (opens_definition.not_blank (by decide) ho)

/-- An open definition is the end of those that are read. -/
theorem Open.openEnd {t : TypeDefinition} (h : Open m definition s r t) :
    OpenEnd m s r [] t where
  bare := h.bare
  stays w hw hr := collect_definition_of_some (h.stays w hw hr)
  goes w hw hr := by
    obtain ⟨t', y, ht', hne⟩ := h.goes w hw hr
    exact ⟨t', (collect definition y).1, congrArg Prod.fst (collect_definition_of_some ht'), hne⟩

/-- **Only the last definition that is read can be open.** -/
theorem outcome_collect {ds : List (Option TypeDefinition)}
    (h : collect definition (s ++ m) = (ds, r ++ m)) :
    (∀ w, Behind m w → ahead (r ++ w) ∈ documentKinds → GoesOn w s r ds)
      ∨ ∃ front t, ds = front ++ [some t] ∧ OpenEnd m s r front t := by
  -- along the definitions that have been read
  induction ds generalizing s with
  | nil =>
    obtain rfl := List.append_cancel_right (eq_of_collect_nil h)
    exact .inl fun w _ _ => rfl
  | cons o ds ih =>
    obtain ⟨x, ho, hds⟩ := exists_of_collect_eq_cons h
    obtain ⟨x, rfl⟩ := exists_append_of_collect hds
    rcases definite_definition.outcome ho with hsettled | ⟨t, rfl, hopen⟩
    · rcases ih hds with hgoes | ⟨front, t, rfl, hend⟩
      · refine .inl fun w hw hr => (hgoes w hw hr).cons (hsettled w hw ?_)
        exact ahead_of_collect hds hr (hgoes w hw hr).ne_nil
      · exact .inr ⟨o :: front, t, rfl, hend.cons hds hsettled⟩
    · obtain rfl := hopen.eq_nil hds
      obtain rfl := List.append_cancel_right (eq_of_collect_nil hds)
      exact .inr ⟨[], t, rfl, hopen.openEnd⟩

/-! ### Documents -/

theorem document_congr {s t : List Char} (h : skipIgnored s = skipIgnored t) :
    document s = document t := by
  have hd : definition s = definition t := by
    rw [← definition_skipIgnored s, ← definition_skipIgnored t, h]
  cases ht : definition t with
  | none =>
    simp only [document, collect_of_none (hd.trans ht), collect_of_none ht]
    rw [h]
  | some x =>
    simp only [document, collect_definition_of_some (hd.trans ht), collect_definition_of_some ht]

theorem GoesOn.document_eq {w : List Char} {ds : List (Option TypeDefinition)}
    (h : GoesOn w s r ds) {t : List Char} (ht : skipIgnored (r ++ w) = skipIgnored t) :
    document (s ++ w) = (ds.filterMap id ++ (document t).1, (document t).2) := by
  rw [← document_congr ht]
  simp only [document, show collect definition (s ++ w) = _ from h, List.filterMap_append]

/-- An open definition at the end of a text is another one where a name follows. -/
theorem OpenEnd.document_ne {front : List (Option TypeDefinition)} {t : TypeDefinition}
    (h : OpenEnd m s r front t) {w : List Char} (hw : Behind m w) (hr : ahead (r ++ w) = .name)
    (ds : List TypeDefinition) (rest : List Char) :
    document (s ++ w) ≠ ((front ++ [some t]).filterMap id ++ ds, rest) := by
  obtain ⟨t', back, hback, hne⟩ := h.goes w hw hr
  intro h
  have hdefs : (collect definition (s ++ w)).1.filterMap id = _ := congrArg Prod.fst h
  rw [hback] at hdefs
  simp only [List.filterMap_append, List.filterMap_cons, List.filterMap_nil, id, List.append_assoc,
    List.append_cancel_left_eq, List.singleton_append, List.cons.injEq] at hdefs
  exact hne hdefs.1

/-- What a text that is read to its end starts with. -/
theorem ahead_of_document (h : (document s).2 = []) : ahead s ∈ documentKinds := by
  cases hs : definition s with
  | none =>
    simp only [document, collect_of_none hs] at h
    rw [ahead, h]
    decide
  | some x => exact documentKinds_of_definition hs

/-- Where reading has stopped in front of a token on a new line, the new line is left as well. -/
theorem suffix_of_skipIgnored {t rest : List Char}
    (h : Cut (s ++ '\n' :: t) rest ∨ rest = s ++ '\n' :: t) (hskip : skipIgnored rest = t) :
    '\n' :: t <:+ rest := by
  have hrest : rest <:+ s ++ '\n' :: t := by
    rcases h with hcut | rfl
    · exact hcut.suffix
    · exact List.suffix_refl _
  have ht : t <:+ rest := hskip ▸ skipIgnored_suffix rest
  refine List.suffix_of_suffix_length_le (List.suffix_append s _) hrest ?_
  refine Nat.lt_of_le_of_ne ht.length_le fun hlength => ?_
  obtain rfl := ht.eq_of_length hlength
  rcases h with ⟨u, c, hc, heq⟩ | heq
  · rw [List.append_cons, List.append_cons u] at heq
    obtain ⟨-, hlast⟩ := List.append_inj' (List.append_cancel_right heq) rfl
    cases hlast
    cases hc
  · have hlong := congrArg List.length heq
    simp only [List.length_append, List.length_cons] at hlong
    omega

/-- Where reading stops at the end of a text, or in front of quotes on a new line behind it, only
blanks are left of the text. -/
theorem exists_of_document (hm : m = [] ∨ m = '\n' :: blockQuotes) {ds : List TypeDefinition}
    (h : document (s ++ m) = (ds, m.tail)) :
    ∃ defs r, collect definition (s ++ m) = (defs, r ++ m) ∧ Blank r ∧ defs.filterMap id = ds := by
  obtain ⟨hds, hrest⟩ := Prod.mk.inj h
  generalize hcollect : collect definition (s ++ m) = x at hds hrest
  obtain ⟨defs, rest⟩ := x
  have hskip : skipIgnored rest = m.tail := hrest
  obtain ⟨r, rfl⟩ : m <:+ rest := by
    rcases hm with rfl | rfl
    · exact List.nil_suffix
    · have htaken := opens_definition.collect (s := s ++ '\n' :: blockQuotes)
      rw [hcollect] at htaken
      exact suffix_of_skipIgnored (htaken.imp_left And.right) hskip
  refine ⟨defs, r, rfl, (blank_or_exists r).resolve_right ?_, hds⟩
  rintro ⟨c, u, hu⟩
  have hlong := congrArg List.length ((hu m).symm.trans hskip)
  simp only [List.cons_append, List.length_cons, List.length_append, List.length_tail] at hlong
  omega

/-- **A document is read up to its end with any other text behind it, or its last definition is
open.** -/
theorem outcome_document (hm : m = [] ∨ m = '\n' :: blockQuotes) {ds : List TypeDefinition}
    (h : document (s ++ m) = (ds, m.tail)) :
    (∀ u, Behind m ('\n' :: u) → ahead u ∈ documentKinds →
        document (s ++ '\n' :: u) = (ds ++ (document u).1, (document u).2))
      ∨ (∃ t ∈ ds.getLast?, t.EndsInInterfaces)
        ∧ (∀ u, Behind m ('\n' :: u) → ahead u ∈ quietKinds →
            document (s ++ '\n' :: u) = (ds ++ (document u).1, (document u).2))
        ∧ ∀ u, Behind m ('\n' :: u) → ahead u = .name →
            ∀ ds' rest, document (s ++ '\n' :: u) ≠ (ds ++ ds', rest) := by
  obtain ⟨defs, r, hcollect, hblank, rfl⟩ := exists_of_document hm h
  have hahead : ∀ u, ahead (r ++ '\n' :: u) = ahead u := fun u => by
    rw [ahead, hblank.skips, ahead]
  rcases outcome_collect hcollect with hgoes | ⟨front, t, rfl, hopen⟩
  · exact .inl fun u hu hfirst =>
      (hgoes _ hu ((hahead u).symm ▸ hfirst)).document_eq (hblank.skips u)
  · refine .inr ⟨⟨t, ?_, hopen.bare⟩, fun u hu hquiet => ?_, fun u hu hname => ?_⟩
    · rw [List.filterMap_append]
      simp
    · exact (hopen.stays _ hu ((hahead u).symm ▸ hquiet)).document_eq (hblank.skips u)
    · exact hopen.document_ne hu ((hahead u).trans hname)

/-- Reading `text` stops at its end where `next` follows on a new line. -/
def StopsAt (text next : String) : Prop :=
  document (text.toList ++ '\n' :: next.toList) = ((document text.toList).1, next.toList)

instance (text next : String) : Decidable (StopsAt text next) :=
  inferInstanceAs (Decidable (_ = _))

/-- Whether a text starts with a name, behind separators and comments. -/
def StartsWithName (text : String) : Prop := ∃ c ∈ upcoming text.toList, isNameStart c = true

theorem stopsAt_iff {text next : String} {ds : List TypeDefinition}
    (h : document text.toList = (ds, [])) :
    StopsAt text next ↔ document (text.toList ++ '\n' :: next.toList) = (ds, next.toList) := by
  rw [StopsAt, h]

theorem startsWithName_iff {text : String} (h : ahead text.toList ∈ documentKinds) :
    StartsWithName text ↔ ahead text.toList = .name := by
  constructor
  · rintro ⟨c, hc, hstart⟩
    refine (by decide : ∀ k ∈ documentKinds, k ∈ names → k = .name) _ h ?_
    obtain ⟨u, hu⟩ := List.head?_eq_some_iff.1 hc
    rw [← ahead_skipIgnored, hu]
    exact (begins_name hstart).2 u
  · intro hname
    obtain ⟨c, u, hu, hstart⟩ := exists_of_ahead_name hname
    exact ⟨c, by rw [upcoming, hu]; rfl, hstart⟩

end Schema

namespace Document

open Schema

theorem parse_eq_ok_iff {text : String} {d : Document} :
    parse text = .ok d ↔ document text.toList = (d.definitions, []) := by
  rw [parse]
  split
  · next ds hs =>
    rw [hs, Except.ok.injEq, Prod.mk.injEq, and_iff_left rfl]
    exact ⟨congrArg Document.definitions, congrArg Document.mk⟩
  · next ds rest hne hs =>
    rw [hs]
    exact ⟨fun h => (by cases h), fun h => absurd (Prod.mk.inj h).2 hne⟩

/-- Where quotes of a text cannot close a block of another one, what is behind that one may be
replaced by the text, or by a name. -/
theorem exists_behind {t₁ t₂ : String} {ds : List TypeDefinition}
    (h : document t₁.toList = (ds, []))
    (hblocks : StopsAt t₁ "\"\"\"" ∨ ¬ blockQuotes <:+: t₂.toList) :
    ∃ m, (m = [] ∨ m = '\n' :: blockQuotes) ∧ document (t₁.toList ++ m) = (ds, m.tail)
      ∧ Behind m ('\n' :: t₂.toList) ∧ Behind m ('\n' :: "_".toList) := by
  have name : ∀ m, Behind m ('\n' :: "_".toList) := fun m =>
    ⟨onNewLine_cons _, fun h => absurd h (by decide)⟩
  rcases hblocks with hstops | hquotes
  · exact ⟨_, .inr rfl, (stopsAt_iff h).1 hstops, ⟨onNewLine_cons _, fun _ =>
      (List.suffix_cons _ _).isInfix⟩, name _⟩
  · refine ⟨[], .inl rfl, by rwa [List.append_nil], ⟨onNewLine_cons _, fun h => ?_⟩, name []⟩
    rcases List.infix_cons_iff.1 h with ⟨u, hu⟩ | h
    · cases hu
    · exact absurd h hquotes

/-- **Where two texts are read as one**: on lines of their own, they are read as the definitions of
the first and those of the second exactly where a name behind the first changes nothing of it, or
the second does not start with a name. Behind the first, a name changes a type that ends in its
interfaces and is the last definition. The first may have no block of text that quotes of the second
close. -/
theorem parse_append_iff {t₁ t₂ : String} {d₁ d₂ : Document} (h₁ : parse t₁ = .ok d₁)
    (h₂ : parse t₂ = .ok d₂)
    (hblocks : StopsAt t₁ "\"\"\"" ∨ ¬ blockQuotes <:+: t₂.toList) :
    (parse (t₁ ++ "\n" ++ t₂) = .ok ⟨d₁.definitions ++ d₂.definitions⟩
        ↔ StopsAt t₁ "_" ∨ ¬ StartsWithName t₂)
      ∧ (StopsAt t₁ "_" ∨ ∃ t ∈ d₁.definitions.getLast?, t.EndsInInterfaces) := by
  rw [parse_eq_ok_iff] at h₁ h₂ ⊢
  have joined : (t₁ ++ "\n" ++ t₂).toList = t₁.toList ++ '\n' :: t₂.toList := by simp
  have hfirst := ahead_of_document (congrArg Prod.snd h₂)
  rw [joined, stopsAt_iff h₁, startsWithName_iff hfirst]
  obtain ⟨m, hm, hrun, hw, hprobe⟩ := exists_behind h₁ hblocks
  have hname : ahead "_".toList = .name := by decide
  have hnone : document "_".toList = ([], "_".toList) := by decide +kernel
  rcases outcome_document hm hrun with hgoes | ⟨hlast, hstays, hgoes⟩
  · have hread := hgoes _ hw hfirst
    have hstops := hgoes _ hprobe (hname ▸ by decide)
    rw [h₂] at hread
    rw [hnone, List.append_nil] at hstops
    exact ⟨iff_of_true hread (.inl hstops), .inl hstops⟩
  · have hstops : document (t₁.toList ++ '\n' :: "_".toList) ≠ (d₁.definitions, "_".toList) := by
      have hne := hgoes _ hprobe hname [] "_".toList
      rwa [List.append_nil] at hne
    refine ⟨?_, .inr hlast⟩
    rw [or_iff_right hstops]
    by_cases hn : ahead t₂.toList = .name
    · exact iff_of_false (hgoes _ hw hn _ _) (not_not_intro hn)
    · have hread := hstays _ hw (mem_quietKinds hfirst hn)
      rw [h₂] at hread
      exact iff_of_true hread hn

/-- A text with a block of text that ends with the fields of a type. -/
def authorText : String :=
  "\"\"\"Writes posts.\"\"\"\ntype Author implements Node \x7b name: String \x7d # the first"

def authorType : TypeDefinition where
  kind := .object
  name := "Author"
  implements := ["Node"]
  fields := [{ name := "name", type := .named "String" }]

/-- A text with another block of text that starts with a keyword. -/
def noteText : String := "scalar Note @about(text: \"\"\"short\"\"\")"

def noteType : TypeDefinition where
  kind := .scalar
  name := "Note"
  directives := [⟨"about", [("text", .string "short")]⟩]

/-- Two texts that are read as both of them. -/
theorem parse_append_iff_authorText :
    parse authorText = .ok ⟨[authorType]⟩ ∧ parse noteText = .ok ⟨[noteType]⟩
      ∧ StopsAt authorText "\"\"\"" ∧ StopsAt authorText "_"
      ∧ parse (authorText ++ "\n" ++ noteText) = .ok ⟨[authorType, noteType]⟩ := by
  have hauthor : parse authorText = .ok ⟨[authorType]⟩ := parse_eq_ok_iff.2 (by decide +kernel)
  have hnote : parse noteText = .ok ⟨[noteType]⟩ := parse_eq_ok_iff.2 (by decide +kernel)
  have hblocks : StopsAt authorText "\"\"\"" := by decide +kernel
  have hstops : StopsAt authorText "_" := by decide +kernel
  exact ⟨hauthor, hnote, hblocks, hstops,
    (parse_append_iff hauthor hnote (.inl hblocks)).1.2 (.inl hstops)⟩

/-- A type that ends in its interfaces takes in the keyword and the name of a type that follows, and
a text that is read for a block of text that is not closed takes in quotes that follow. -/
theorem not_parse_append_openTexts :
    ¬ (∀ t₁ t₂ d₁ d₂, parse t₁ = .ok d₁ → parse t₂ = .ok d₂ →
        parse (t₁ ++ "\n" ++ t₂) = .ok ⟨d₁.definitions ++ d₂.definitions⟩)
      ∧ parse ("type A implements B" ++ "\n" ++ "type C \x7b x: Int \x7d")
        = .ok ⟨[{ kind := .object, name := "A", implements := ["B", "type", "C"],
                  fields := [{ name := "x", type := .named "Int" }] }]⟩
      ∧ (parse "type A @x(a: [\"\"\"b\"])").isOk = true
      ∧ (parse "\"\"\"c\"\"\" scalar C").isOk = true
      ∧ (parse ("type A @x(a: [\"\"\"b\"])" ++ "\n" ++ "\"\"\"c\"\"\" scalar C")).isOk
        = false := by
  have joined : parse ("type A implements B" ++ "\n" ++ "type C \x7b x: Int \x7d")
      = .ok ⟨[{ kind := .object, name := "A", implements := ["B", "type", "C"],
                fields := [{ name := "x", type := .named "Int" }] }]⟩ :=
    parse_eq_ok_iff.2 (by decide +kernel)
  refine ⟨fun h => ?_, joined, by decide +kernel, by decide +kernel, by decide +kernel⟩
  have both := h "type A implements B" "type C \x7b x: Int \x7d"
    ⟨[{ kind := .object, name := "A", implements := ["B"] }]⟩
    ⟨[{ kind := .object, name := "C", fields := [{ name := "x", type := .named "Int" }] }]⟩
    (parse_eq_ok_iff.2 (by decide +kernel)) (parse_eq_ok_iff.2 (by decide +kernel))
  rw [joined] at both
  cases both

end Document

end ApiCompiler
