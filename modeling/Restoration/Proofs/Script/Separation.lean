import Mathlib.Algebra.Group.Nat.Even
import Restoration.Proofs.Script.Quotes

/-!
# What is found and what is cut outside quotes

A place of a text is outside quotes if an even number of quotes stands ahead of it. A search finds the
first such place where its pattern stands, as a byte of the text, and arguments are cut at the commas at
such places:

    cutAtCommas q (a ++ ',' :: b) = cutAtCommas q a ++ cutAtCommas false b
                                             for a comma outside quotes, whichever it is
-/

namespace Restoration

namespace Script

open Text (IsBlank isBlank)

variable {pattern t : List Char} {q : Bool}

theorem quotedBehind_eq_false_iff : quotedBehind false t = false ↔ Even (t.count '"') := by
  rw [quotedBehind_eq_parity, Nat.even_iff, Bool.false_xor, beq_eq_false_iff_ne]
  omega

/-! ## Places of a pattern -/

/-- Behind this beginning of the text the pattern stands outside quotes. -/
def Stands (pattern t ahead : List Char) : Prop := ahead ++ pattern <+: t ∧ Even (ahead.count '"')

theorem standsBehind_iff {ahead : List Char} :
    StandsBehind pattern false t ahead ↔ Stands pattern t ahead := by
  rw [StandsBehind, Stands, quotedBehind_eq_false_iff]

/-- The byte that is found is the one behind the shortest beginning behind which the pattern stands. -/
theorem findUnquoted?_iff (hne : pattern ≠ []) (hquote : pattern.head? ≠ some '"') (i : Nat) :
    findUnquoted? pattern t = some i ↔ ∃ ahead, Text.byteSize ahead = i ∧ Stands pattern t ahead ∧
      ∀ other, Stands pattern t other → ahead <+: other := by
  rw [findUnquoted?_eq_some_iff hne hquote]
  simp only [standsBehind_iff]

theorem findUnquoted?_none_iff (hne : pattern ≠ []) (hquote : pattern.head? ≠ some '"') :
    findUnquoted? pattern t = none ↔ ∀ ahead, ¬ Stands pattern t ahead := by
  rw [findUnquoted?_eq_none_iff hne hquote]
  simp only [standsBehind_iff]

/-! ## Pieces of a text -/

theorem quotedBehind_of_quotedAfter {q' : Bool} {a : List Char} (h : quotedAfter q a = some q') :
    quotedBehind q a = q' := by
  induction a generalizing q with
  | nil => exact Option.some.inj h
  | cons c r ih =>
    rw [quotedAfter] at h
    split at h
    · cases h
    · exact ih h

/-- A comma outside quotes separates what is ahead of it from what is behind. -/
theorem cutAtCommas_comma {a : List Char} (h : quotedBehind q a = false) (b : List Char) :
    cutAtCommas q (a ++ ',' :: b) = cutAtCommas q a ++ cutAtCommas false b := by
  induction a generalizing q with
  | nil =>
    obtain rfl : q = false := h
    rw [List.nil_append, cutAtCommas.eq_2, if_pos ⟨rfl, rfl⟩]
    rfl
  | cons c r ih =>
    have hr := ih h
    by_cases hc : c = ',' ∧ q = false
    · obtain ⟨rfl, rfl⟩ := hc
      rw [List.cons_append, cutAtCommas, if_pos ⟨rfl, rfl⟩, cutAtCommas, if_pos ⟨rfl, rfl⟩,
        List.cons_append]
      exact congrArg ([] :: ·) hr
    · obtain ⟨piece, rest, hcut⟩ :=
        List.exists_cons_of_ne_nil (cutAtCommas_ne_nil (if c = '"' then !q else q) r)
      rw [List.cons_append, cutAtCommas, if_neg hc, hr, cutAtCommas, if_neg hc, hcut]
      rfl

/-- Between any two pieces stands a comma outside quotes. -/
theorem comma_of_cutAtCommas {front back : List (List Char)} (hfront : front ≠ []) (hback : back ≠ [])
    (h : cutAtCommas q t = front ++ back) :
    t = [','].intercalate front ++ ',' :: [','].intercalate back ∧
      quotedBehind q ([','].intercalate front) = false := by
  induction front generalizing q t with
  | nil => exact absurd rfl hfront
  | cons a front ih =>
    obtain ⟨b, back, rfl⟩ := List.exists_cons_of_ne_nil hback
    cases front with
    | nil =>
      obtain ⟨u, rfl, hafter, hcut⟩ := cutAtCommas_eq_cons h
      rw [List.intercalate_singleton, ← hcut, intercalate_cutAtCommas]
      exact ⟨rfl, quotedBehind_of_quotedAfter hafter⟩
    | cons a' front =>
      obtain ⟨u, rfl, hafter, hcut⟩ := cutAtCommas_eq_cons h
      obtain ⟨hu, hquoted⟩ := ih (List.cons_ne_nil _ _) hcut
      have hahead : quotedBehind q (a ++ [',']) = false := by
        rw [quotedBehind_append, quotedBehind_of_quotedAfter hafter]
        rfl
      rw [List.intercalate_cons_cons, quotedBehind_append, hahead]
      refine ⟨?_, hquoted⟩
      conv_lhs => rw [hu]
      simp

/-- The text is these pieces with commas between them, and those are all the commas outside quotes. -/
structure CutOutside (t : List Char) (pieces : List (List Char)) : Prop where
  ne_nil : pieces ≠ []
  joined : [','].intercalate pieces = t
  comma_iff : ∀ ahead behind, t = ahead ++ ',' :: behind ∧ Even (ahead.count '"') ↔
    ∃ front back, front ≠ [] ∧ back ≠ [] ∧ pieces = front ++ back ∧
      [','].intercalate front = ahead ∧ [','].intercalate back = behind

theorem cutOutside_cutAtCommas (t : List Char) : CutOutside t (cutAtCommas false t) where
  ne_nil := cutAtCommas_ne_nil false t
  joined := intercalate_cutAtCommas false t
  comma_iff := by
    intro ahead behind
    constructor
    · rintro ⟨rfl, heven⟩
      exact ⟨cutAtCommas false ahead, cutAtCommas false behind, cutAtCommas_ne_nil _ _,
        cutAtCommas_ne_nil _ _, cutAtCommas_comma (quotedBehind_eq_false_iff.2 heven) behind,
        intercalate_cutAtCommas _ _, intercalate_cutAtCommas _ _⟩
    · rintro ⟨front, back, hfront, hback, hcut, rfl, rfl⟩
      obtain ⟨ht, hquoted⟩ := comma_of_cutAtCommas hfront hback hcut
      exact ⟨ht, quotedBehind_eq_false_iff.1 hquoted⟩

/-! ## Parts of a text -/

/-- The part is the piece without the white space at its edges. -/
structure IsTrimmed (piece part : List Char) : Prop where
  around : ∃ a b, IsBlank a ∧ IsBlank b ∧ piece = a ++ (part ++ b)
  head : part.head?.all (!isBlank ·) = true
  last : part.getLast?.all (!isBlank ·) = true

theorem isTrimmed_trim (piece : List Char) : IsTrimmed piece (Text.trim piece) := by
  refine ⟨trim_spec piece, ?_, Text.getLast?_trimEnd _⟩
  rcases trim_eq_nil_or_isEdged piece with hnil | hedged
  · rw [hnil]
    rfl
  · exact (isEdged_iff.1 hedged).2.1

/-- White space alone holds no part. -/
theorem splitArguments_eq_nil (h : IsBlank t) : splitArguments t = [] := by
  rw [splitArguments_eq, cutAtCommas_unseparated (quotedAfter_plain (plain_of_isBlank h) false),
    List.map_singleton, trim_eq_nil_iff.2 h]

theorem splitArguments_of_not_isBlank (h : ¬ IsBlank t) :
    splitArguments t = (cutAtCommas false t).map Text.trim := by
  refine splitArguments_of_ne fun hone => h ?_
  obtain ⟨piece, hcut, hpiece⟩ := List.map_eq_singleton_iff.1 hone
  obtain ⟨rfl, -⟩ := cutAtCommas_eq_singleton hcut
  exact trim_eq_nil_iff.1 hpiece

/-- **Quotes decide what is found and where arguments end.** A pattern is found at the byte behind the
shortest beginning of the text behind which it stands outside quotes, if there is one. The spans of the
arguments are those of the pieces that the commas outside quotes leave between them; the arguments are
these pieces, trimmed, and only white space has none. -/
theorem quotes_separate (t : List Char) :
    (∀ pattern, pattern ≠ [] → pattern.head? ≠ some '"' →
      (∀ i, findUnquoted? pattern t = some i ↔ ∃ ahead, Text.byteSize ahead = i ∧
        Stands pattern t ahead ∧ ∀ other, Stands pattern t other → ahead <+: other) ∧
      (findUnquoted? pattern t = none ↔ ∀ ahead, ¬ Stands pattern t ahead)) ∧
    ∃ pieces, CutOutside t pieces ∧ List.Forall₂ (Lies t) (argumentSpans t) pieces ∧
      (IsBlank t → splitArguments t = []) ∧
      (¬ IsBlank t → List.Forall₂ IsTrimmed pieces (splitArguments t)) := by
  refine ⟨fun pattern hne hquote => ⟨findUnquoted?_iff hne hquote, findUnquoted?_none_iff hne hquote⟩,
    cutAtCommas false t, cutOutside_cutAtCommas t, argumentSpans_lie t, splitArguments_eq_nil,
    fun h => ?_⟩
  rw [splitArguments_of_not_isBlank h, List.forall₂_map_right_iff, List.forall₂_same]
  exact fun piece _ => isTrimmed_trim piece

/-- The mark between the quotes is passed over, and the one behind them is found; the letter between
them takes two bytes. -/
theorem quotes_separate_comment :
    " # ".toList ≠ [] ∧ " # ".toList.head? ≠ some '"' ∧
      findUnquoted? " # ".toList "\"é # b\" # c".toList = some 8 ∧
      ∃ ahead, Text.byteSize ahead = 8 ∧ Stands " # ".toList "\"é # b\" # c".toList ahead ∧
        ∀ other, Stands " # ".toList "\"é # b\" # c".toList other → ahead <+: other :=
  have hfound : findUnquoted? " # ".toList "\"é # b\" # c".toList = some 8 := by decide
  ⟨by decide, by decide, hfound,
    (((quotes_separate _).1 _ (by decide) (by decide)).1 8).1 hfound⟩

example : argumentSpans "\"1, é\" , é,".toList = [(0, 8), (9, 12), (13, 13)] ∧
    splitArguments "\"1, é\" , é,".toList = ["\"1, é\"".toList, ['é'], []] := by decide

end Script

end Restoration
