import ApiCompiler.Proofs.Schema.Fragments
import Mathlib.Data.List.TakeWhile

/-!
# Schema — texts that are refused

A text is refused where its definitions do not go on, at something that is neither a separator nor a
comment. Whatever has been read up to there is read just as well where the text is cut: a rule that
has looked further ahead has taken nothing of what it saw there.

* `Stalls`, `not_stalls_of_repeats`: each item of a repetition takes a part of the text, so that no
  repetition of the grammar comes to a stop in front of one.
* `exists_accepted`: what stands in front of the place where reading stops is a document.
* `IsFirstLine`: the first line of a text.
* `Document.parse_eq_error`: which text is refused at which place, and in which words.
-/

namespace ApiCompiler

namespace Parser

variable {α : Type}

/-- A repetition of `p` comes to an item that takes no part of the text. It would never end, and has
no result. -/
inductive Stalls (p : Parser α) : List Char → Prop
  | here {s r : List Char} {a : α} (h : p s = some (a, r)) (hr : ¬ r.length < s.length) : Stalls p s
  | later {s r : List Char} {a : α} (h : p s = some (a, r)) (hr : Stalls p r) : Stalls p s

end Parser

namespace Schema

open ApiCompiler.Parser

variable {α : Type} {m s r : List Char}

/-! ### Repetitions -/

/-- The rules that the grammar repeats. -/
inductive Repeats : {α : Type} → Parser α → Prop
  | definition : Repeats definition
  | directive : Repeats (token directive)
  | item (depth : Nat) : Repeats (token (valueWithin depth))
  | entry (depth : Nat) : Repeats (argument (valueWithin depth))
  | argument : Repeats (argument value)
  | argumentDefinition : Repeats argumentDefinition
  | fieldDefinition : Repeats fieldDefinition
  | interface : Repeats interfaceItem
  | enumMember : Repeats enumMember
  | unionMember : Repeats (do let _ ← symbol '|'; token name)
  | operation : Repeats (do let _ ← token name; symbol ':'; token name)
  | location : Repeats (do
      let _ ← symbol '|'
      token (chars1 fun c => !(isSeparator c || c = '|' || c = '#')))

theorem Opens.not_stalls {first : List Ahead} {p : Parser α} (h : Opens first false p)
    (s : List Char) : ¬ Stalls p s := by
  intro hs
  induction hs with
  | here hp hr => exact hr (h.cut hp).2.length_lt
  | later _ _ ih => exact ih

/-- **No repetition of the grammar stalls.** -/
theorem not_stalls_of_repeats {p : Parser α} (h : Repeats p) (s : List Char) : ¬ Stalls p s := by
  have here : Behind [] [] := .nil []
  have bar : Opens [.mark '|'] false (symbol '|') := (opens_char (begins_mark (by decide))).token
  have location := (opens_chars1 fun _ => begins_location).token
  cases h with
  | definition => exact opens_definition.not_stalls s
  | directive => exact (here.fits_directive.token.opens rfl).not_stalls s
  | item depth => exact ((here.fits_valueWithin depth).token.opens rfl).not_stalls s
  | entry depth =>
    exact ((here.fits_argument (here.fits_valueWithin depth)).opens rfl).not_stalls s
  | argument => exact ((here.fits_argument here.fits_value).opens rfl).not_stalls s
  | argumentDefinition => exact (here.fits_argumentDefinition.opens rfl).not_stalls s
  | fieldDefinition => exact (here.fits_fieldDefinition.opens rfl).not_stalls s
  | interface => exact (here.fits_interfaceItem.opens rfl).not_stalls s
  | enumMember => exact (here.fits_enumMember.opens rfl).not_stalls s
  | unionMember => exact (bar.before fun _ => opens_name.token.trims).not_stalls s
  | operation =>
    exact (opens_name.token.before fun _ =>
      (Fits.symbol (m := []) (w := []) (c := ':')).opens rfl |>.trims.bind fun _ =>
        opens_name.token.trims).not_stalls s
  | location => exact (bar.before fun _ => location.trims).not_stalls s

/-! ### Where reading stops -/

/-- Of separators and comments in front of a text, nothing is left without it. -/
theorem skipFrom_eq_nil {inComment : Bool} (hm : skipIgnored m = m)
    (h : skipFrom inComment (r ++ m) = m) : skipFrom inComment r = [] := by
  have long : ∀ {c : Char} {u : List Char}, c :: (u ++ m) ≠ m := fun {c u} he => by
    have hlength := congrArg List.length he
    rw [List.length_cons, List.length_append] at hlength
    omega
  fun_induction skipFrom inComment r with
  | case1 => rfl
  | case2 c r ih =>
    rw [List.cons_append, skipFrom, if_pos rfl] at h
    exact ih h
  | case3 inComment c r hin hsep ih =>
    rw [List.cons_append, skipFrom, if_neg hin, if_pos hsep] at h
    exact ih h
  | case4 inComment c r hin hsep hc ih =>
    rw [List.cons_append, skipFrom, if_neg hin, if_neg hsep] at h
    split at h
    · exact ih h
    · exact absurd h long
  | case5 inComment c r hin hsep hc =>
    rw [List.cons_append, skipFrom, if_neg hin, if_neg hsep] at h
    split at h
    · next hgoes =>
      rw [Bool.and_eq_true, decide_eq_true_eq] at hc hgoes
      rw [and_iff_right hgoes.1] at hc
      rcases endsLine_append r with hr | hr
      · exact absurd ((hr m).symm.trans hgoes.2) hc
      -- what follows is no line feed, which would be skipped
      · obtain ⟨u, rfl⟩ := hr.eq_cons_of_endsLine hc hgoes.2
        have hshort := (skipIgnored_suffix u).length_le
        rw [← skipIgnored_ignored (c := '\n') rfl u, hm] at hshort
        exact absurd hshort (Nat.not_succ_le_self _)
    · exact absurd h long

/-- **What has been read in front of a text is read without it**, where nothing but separators and
comments stands between. -/
theorem document_of_collect {ds : List (Option TypeDefinition)}
    (h : collect definition (s ++ m) = (ds, r ++ m)) (hr : skipIgnored r = []) :
    document s = (ds.filterMap id, []) := by
  have hending : ahead (r ++ []) = .ending := by
    rw [List.append_nil, ahead, hr]
    rfl
  have hgoes : GoesOn [] s r ds := by
    rcases outcome_collect h with hgoes | ⟨front, t, rfl, hopen⟩
    · exact hgoes [] (.nil m) (hending ▸ by decide)
    · exact hopen.stays [] (.nil m) (hending ▸ by decide)
  have hdocument := hgoes.document_eq (t := []) (by rw [List.append_nil, hr, skipIgnored_nil])
  have hnil : document [] = ([], []) := by decide +kernel
  rw [List.append_nil, hnil, List.append_nil] at hdocument
  exact hdocument

/-- **A text is a document up to the place where reading stops.** -/
theorem exists_accepted (s : List Char) :
    ∃ p, s = p ++ (document s).2 ∧ document p = ((document s).1, []) := by
  generalize hcollect : collect definition s = x
  obtain ⟨ds, rest⟩ := x
  have hread : document s = (ds.filterMap id, skipIgnored rest) := by rw [document, hcollect]
  obtain ⟨r, hrest⟩ := skipIgnored_suffix rest
  obtain ⟨q, rfl⟩ := opens_definition.suffix_of_collect hcollect
  rw [hread]
  have hnil : skipIgnored r = [] :=
    skipFrom_eq_nil (m := skipIgnored rest) (skipIgnored_skipIgnored rest) (by
      rw [hrest]
      rfl)
  refine ⟨q ++ r, by rw [List.append_assoc, hrest], document_of_collect (m := skipIgnored rest) ?_
    hnil⟩
  rw [List.append_assoc, hrest, hcollect]

/-! ### What is said of it -/

/-- The first line of a text, without the line feed that ends it, or the carriage return and the
line feed. -/
inductive IsFirstLine (line : List Char) : List Char → Prop
  | all (h : '\n' ∉ line) : IsFirstLine line line
  | feed (h : '\n' ∉ line) (hr : line.getLast? ≠ some '\r') (u : List Char) :
      IsFirstLine line (line ++ '\n' :: u)
  | returnFeed (h : '\n' ∉ line) (u : List Char) : IsFirstLine line (line ++ '\r' :: '\n' :: u)

/-- The line that is shown is the first one. -/
theorem isFirstLine_firstLine (s : List Char) : IsFirstLine (firstLine s) s := by
  have run : ∀ {line : List Char}, '\n' ∉ line → ∀ c ∈ line, (c != '\n') = true := by
    intro line h c hc
    rw [bne_iff_ne]
    rintro rfl
    exact h hc
  unfold firstLine
  by_cases hs : '\n' ∈ s
  · obtain ⟨line, u, rfl, hline⟩ := List.eq_append_cons_of_mem hs
    have htake : (line ++ '\n' :: u).takeWhile (· != '\n') = line := by
      rw [List.takeWhile_append_of_pos (run hline)]
      exact List.append_nil line
    dsimp only
    rw [htake]
    split
    · next h =>
      obtain ⟨front, rfl⟩ := List.getLast?_eq_some_iff.1 h.2
      rw [List.dropLast_concat, List.append_assoc]
      exact .returnFeed (fun hm => hline (List.mem_append_left _ hm)) u
    · next h =>
      refine .feed hline (fun hr => h ⟨?_, hr⟩) u
      simp
  · have htake : s.takeWhile (· != '\n') = s := List.takeWhile_eq_self_iff.2 (run hs)
    dsimp only
    rw [htake, if_neg fun h => Nat.lt_irrefl _ h.1]
    exact .all hs

theorem lineOf_append (p rest : List Char) : lineOf (p ++ rest) rest = p.count '\n' + 1 := by
  rw [lineOf, List.length_append, Nat.add_sub_cancel, List.take_left]

theorem unexpected_append (p rest : List Char) : unexpected (p ++ rest) rest
    = "unexpected input at line " ++ toString (p.count '\n' + 1) ++ ": "
      ++ String.ofList (firstLine (rest.take 40)) := by
  unfold unexpected
  rw [lineOf_append]
  rfl

end Schema

namespace Document

open Schema ApiCompiler.Parser

/-- **Where a text is refused**: a text that is refused is a document up to a place, and goes on
there. What is said of it is the number of the line on which that place is, and the first line of
the forty characters there. No repetition that reads the definitions stalls, so nothing else can be
said. -/
theorem parse_eq_error {text : String} {e : Fault} (h : parse text = .error e) :
    ¬ Stalls definition text.toList ∧ ∃ p r : String, text = p ++ r ∧ r ≠ ""
      ∧ (∃ d, parse p = .ok d) ∧ ∃ line, IsFirstLine line (r.toList.take 40)
        ∧ e = .schemaParse ("unexpected input at line "
          ++ toString (p.toList.count '\n' + 1) ++ ": " ++ String.ofList line) := by
  refine ⟨not_stalls_of_repeats .definition _, ?_⟩
  obtain ⟨p, htext, hp⟩ := exists_accepted text.toList
  rw [parse] at h
  split at h
  · cases h
  · next ds rest hne hread =>
    cases h
    rw [hread] at htext hp
    have hjoin : text = String.ofList p ++ String.ofList rest := by
      rw [← String.ofList_append, ← htext, String.ofList_toList]
    refine ⟨String.ofList p, String.ofList rest, hjoin, ?_, ⟨⟨ds⟩, ?_⟩, firstLine (rest.take 40),
      ?_, ?_⟩
    · intro hempty
      have hnil := congrArg String.toList hempty
      rw [String.toList_ofList, String.toList_empty] at hnil
      subst hnil
      exact hne rfl
    · rw [parse_eq_ok_iff, String.toList_ofList, hp]
    · rw [String.toList_ofList]
      exact isFirstLine_firstLine _
    · rw [htext, unexpected_append, String.toList_ofList]

/-- A text of which the last type has no closing brace. -/
def unclosedText : String := "type A \x7b id: ID! \x7d\n\ntype B \x7b id: ID!"

theorem parse_eq_error_unclosedText :
    parse unclosedText = .error (.schemaParse "unexpected input at line 3: \x7b id: ID!")
      ∧ ¬ Stalls definition unclosedText.toList
      ∧ ∃ p r : String, unclosedText = p ++ r ∧ r ≠ "" ∧ (∃ d, parse p = .ok d)
        ∧ ∃ line, IsFirstLine line (r.toList.take 40)
          ∧ Fault.schemaParse "unexpected input at line 3: \x7b id: ID!"
            = .schemaParse ("unexpected input at line "
              ++ toString (p.toList.count '\n' + 1) ++ ": " ++ String.ofList line) := by
  have refused : parse unclosedText
      = .error (.schemaParse "unexpected input at line 3: \x7b id: ID!") := by
    decide +kernel
  exact ⟨refused, parse_eq_error refused⟩

end Document

end ApiCompiler
