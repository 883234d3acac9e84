import Mathlib.Data.List.Forall2
import Restoration.Script.Quotes

/-!
# Pieces between commas

The spans of the arguments, in bytes, are those of the pieces that the commas outside quotes leave of a
text. So arguments can be read off the text without counting bytes:

    splitArguments t = (cutAtCommas false t).map trim      but for blank text
-/

namespace Restoration.Script

/-- The pieces between the commas outside quotes, as they stand; never empty. -/
def cutAtCommas (quoted : Bool) : List Char → List (List Char)
  | [] => [[]]
  | c :: r =>
    if c = ',' ∧ quoted = false then [] :: cutAtCommas quoted r
    else match cutAtCommas (if c = '"' then !quoted else quoted) r with
      | [] => [[c]]
      | piece :: rest => (c :: piece) :: rest

theorem cutAtCommas_ne_nil (q : Bool) (t : List Char) : cutAtCommas q t ≠ [] := by
  cases t with
  | nil => simp [cutAtCommas]
  | cons c r =>
    rw [cutAtCommas]
    split
    · simp
    · split <;> simp

theorem cutAtCommas_cons {c : Char} {r piece : List Char} {q : Bool} {rest : List (List Char)}
    (hc : ¬ (c = ',' ∧ q = false))
    (hcut : cutAtCommas (if c = '"' then !q else q) r = piece :: rest) :
    cutAtCommas q (c :: r) = (c :: piece) :: rest := by
  rw [cutAtCommas, if_neg hc, hcut]

/-- The piece stands in the text from the one byte to the other. -/
def Lies (t : List Char) (span : Nat × Nat) (piece : List Char) : Prop :=
  ∃ ahead behind, t = ahead ++ (piece ++ behind) ∧ Text.byteSize ahead = span.1 ∧
    Text.byteSize (ahead ++ piece) = span.2

theorem Lies.slice_eq {t piece : List Char} {span : Nat × Nat} (h : Lies t span piece) :
    Text.slice t span.1 span.2 = piece := by
  obtain ⟨ahead, behind, rfl, hstart, hstop⟩ := h
  rw [← hstart, ← hstop, Text.slice_append]

/-- The scan is inside a piece: `piece` is what it has passed of it, `ahead` is ahead of that, and the
rest of the text is to be cut. -/
theorem spansFrom_lies {t ahead piece r first : List Char} {rest : List (List Char)} {q : Bool}
    (ht : t = ahead ++ (piece ++ r)) (hcut : cutAtCommas q r = first :: rest) :
    List.Forall₂ (Lies t) (spansFrom q (Text.byteSize ahead) (Text.byteSize (ahead ++ piece)) r)
      ((piece ++ first) :: rest) := by
  induction r generalizing ahead piece q first rest with
  | nil =>
    cases hcut
    exact .cons ⟨ahead, [], by simp [ht], rfl, by rw [List.append_nil]⟩ .nil
  | cons c r ih =>
    by_cases hcomma : c = ',' ∧ q = false
    · obtain ⟨rfl, rfl⟩ := hcomma
      obtain ⟨next, others, hnext⟩ := List.exists_cons_of_ne_nil (cutAtCommas_ne_nil false r)
      rw [cutAtCommas, if_pos ⟨rfl, rfl⟩, hnext] at hcut
      cases hcut
      have hnow : t = (ahead ++ (piece ++ [','])) ++ ([] ++ r) := by simp [ht]
      have hbehind := ih hnow hnext
      rw [spansFrom, if_neg (by decide), if_pos ⟨rfl, rfl⟩]
      refine .cons ⟨ahead, ',' :: r, by rw [ht, List.append_nil], rfl, by rw [List.append_nil]⟩ ?_
      rwa [List.append_nil, ← List.append_assoc, Text.byteSize_append, List.nil_append] at hbehind
    · obtain ⟨next, others, hnext⟩ :=
        List.exists_cons_of_ne_nil (cutAtCommas_ne_nil (if c = '"' then !q else q) r)
      rw [cutAtCommas_cons hcomma hnext] at hcut
      cases hcut
      have hnow : t = ahead ++ ((piece ++ [c]) ++ r) := by simp [ht]
      have hbehind := ih hnow hnext
      rw [← List.append_assoc, Text.byteSize_append, List.append_assoc] at hbehind
      rw [spansFrom]
      by_cases hquote : c = '"'
      · rw [if_pos hquote] at hbehind ⊢
        exact hbehind
      · rw [if_neg hquote] at hbehind ⊢
        rw [if_neg hcomma]
        exact hbehind

/-- **The spans of the arguments are those of the pieces**, byte by byte. -/
theorem argumentSpans_lie (t : List Char) :
    List.Forall₂ (Lies t) (argumentSpans t) (cutAtCommas false t) := by
  obtain ⟨first, rest, hcut⟩ := List.exists_cons_of_ne_nil (cutAtCommas_ne_nil false t)
  rw [hcut]
  have ht : t = [] ++ ([] ++ t) := rfl
  exact spansFrom_lies ht hcut

theorem splitArguments_eq (t : List Char) : splitArguments t =
    match (cutAtCommas false t).map Text.trim with
    | [[]] => []
    | parts => parts := by
  have hparts : (argumentSpans t).map (fun s => Text.trim (Text.slice t s.1 s.2)) =
      (cutAtCommas false t).map Text.trim := by
    have hlie := argumentSpans_lie t
    generalize argumentSpans t = spans, cutAtCommas false t = pieces at hlie
    induction hlie with
    | nil => rfl
    | cons h _ ih => rw [List.map_cons, List.map_cons, h.slice_eq, ih]
  rw [← hparts]
  rfl

end Restoration.Script
