import Restoration.Script.Restriction
import Mathlib.Data.List.TakeWhile

/-!
# Restrictions come and go

Restricting a script adds one marked line, ahead of the last prefetch, and takes every other marked
line away; lifting the restriction leaves the script as it was without any:

    (s.restrict r).unrestrict = s.unrestrict        (s.restrict a).restrict b = s.restrict b
-/

namespace Restoration

namespace Script

variable {s : Script} {marker : String} {line : Line}

/-- The line stands ahead of the last line with the marker, or at the end if there is none. -/
theorem insertBeforeLast_cases (s : Script) (marker : String) (line : Line) :
    (∀ l ∈ s.lines, l.contains marker = false) ∧
        (s.insertBeforeLast marker line).lines = s.lines ++ [line] ∨
      ∃ front found back, s.lines = front ++ found :: back ∧ found.contains marker = true ∧
        (∀ l ∈ back, l.contains marker = false) ∧
        (s.insertBeforeLast marker line).lines = front ++ line :: found :: back := by
  have hafter : ∀ l ∈ s.lines.reverse.takeWhile (!·.contains marker), l.contains marker = false :=
    fun l hl => by simpa using List.mem_takeWhile_imp hl
  have hsplit := List.takeWhile_append_dropWhile (p := (!·.contains marker)) (l := s.lines.reverse)
  unfold insertBeforeLast
  generalize s.lines.reverse.takeWhile (!·.contains marker) = after at hafter hsplit ⊢
  cases hdrop : s.lines.reverse.dropWhile (!·.contains marker) with
  | nil =>
    left
    rw [hdrop, List.append_nil] at hsplit
    refine ⟨fun l hl => hafter l ?_, rfl⟩
    rw [hsplit]
    exact List.mem_reverse.2 hl
  | cons found before =>
    right
    rw [hdrop] at hsplit
    refine ⟨before.reverse, found, _, ?_, ?_, fun l hl => hafter l (List.mem_reverse.1 hl), rfl⟩
    · rw [← List.reverse_reverse s.lines, ← hsplit]
      simp
    · have hhead := List.head?_dropWhile_not (!·.contains marker) s.lines.reverse
      rw [hdrop] at hhead
      simpa using hhead

theorem insertBeforeLast_of_forall (h : ∀ l ∈ s.lines, l.contains marker = false) (line : Line) :
    (s.insertBeforeLast marker line).lines = s.lines ++ [line] := by
  rcases insertBeforeLast_cases s marker line with ⟨-, hend⟩ | ⟨front, found, back, hlines, hfound, -, -⟩
  · exact hend
  · rw [h found (by simp [hlines])] at hfound
    cases hfound

theorem forall_of_insertBeforeLast (hline : line ∉ s.lines)
    (h : (s.insertBeforeLast marker line).lines = s.lines ++ [line]) :
    ∀ l ∈ s.lines, l.contains marker = false := by
  rcases insertBeforeLast_cases s marker line with
    ⟨hnone, -⟩ | ⟨front, found, back, hlines, -, -, hmid⟩
  · exact hnone
  · -- were it the last line, the line that it stands ahead of would be the same
    rw [hmid, hlines, List.append_assoc, List.append_cancel_left_eq] at h
    obtain rfl : line = found := (List.cons.inj h).1
    exact absurd (by simp [hlines]) hline

/-- A last line with the marker is the one that the line stands ahead of. -/
theorem insertBeforeLast_of_last {ls : List Line} {last : Line} (h : last.contains marker = true)
    (line : Line) : (insertBeforeLast ⟨ls ++ [last]⟩ marker line).lines = ls ++ [line, last] := by
  simp [insertBeforeLast, h]

theorem filter_insertBeforeLast {keep : Line → Bool} (h : keep line = false) :
    (s.insertBeforeLast marker line).lines.filter keep = s.lines.filter keep := by
  rcases insertBeforeLast_cases s marker line with ⟨-, hend⟩ | ⟨front, found, back, hlines, -, -, hmid⟩
  · rw [hend, List.filter_append, List.filter_cons_of_neg (by simp [h])]
    simp
  · rw [hmid, hlines, List.filter_append, List.filter_append, List.filter_cons_of_neg (by simp [h])]

theorem mem_insertBeforeLast {l : Line} (h : l ∈ (s.insertBeforeLast marker line).lines) :
    l ∈ s.lines ∨ l = line := by
  rcases insertBeforeLast_cases s marker line with ⟨-, hend⟩ | ⟨front, found, back, hlines, -, -, hmid⟩
  · rw [hend, List.mem_append, List.mem_singleton] at h
    exact h
  · rw [hmid, List.mem_append, List.mem_cons] at h
    rw [hlines, List.mem_append]
    rcases h with h | rfl | h
    · exact .inl (.inl h)
    · exact .inr rfl
    · exact .inl (.inr h)

/-! ## Restrictions -/

theorem contains_restrictingLine (r : FrameRange) :
    (restrictingLine r).contains restrictionMark = true := by
  have htext : (restrictingLine r).text = FrameCut.callText
      { first := r.start, last := some r.stop, marked := true } ++ " " ++ restrictionMark := by
    show _ ++ Line.commentMark ++ FrameCut.mark = _
    rw [String.append_assoc, String.append_assoc]
    rfl
  rw [Line.contains, hasText, Text.occursIn_iff, htext, String.toList_append]
  exact (List.suffix_append _ _).isInfix

theorem mem_restrict {r : FrameRange} {l : Line} (h : l ∈ (s.restrict r).lines) :
    l ∈ s.lines ∨ l = restrictingLine r :=
  (mem_insertBeforeLast h).imp_left fun hl => (List.mem_filter.1 hl).1

theorem unrestrict_unrestrict (s : Script) : s.unrestrict.unrestrict = s.unrestrict := by
  simp only [unrestrict, dropContaining, List.filter_filter, Bool.and_self]

/-- **Lifting a restriction undoes it**, and all restrictions before. -/
theorem unrestrict_restrict (s : Script) (r : FrameRange) :
    (s.restrict r).unrestrict = s.unrestrict := by
  have hmarked : (!(restrictingLine r).contains restrictionMark) = false := by
    rw [contains_restrictingLine]
    rfl
  have h : (s.restrict r).lines.filter (!·.contains restrictionMark) =
      s.unrestrict.lines.filter (!·.contains restrictionMark) := filter_insertBeforeLast hmarked
  exact (congrArg Script.mk h).trans (unrestrict_unrestrict s)

/-- **One restriction replaces another.** -/
theorem restrict_restrict (s : Script) (a b : FrameRange) :
    (s.restrict a).restrict b = s.restrict b := by
  rw [restrict, unrestrict_restrict, ← restrict]

theorem restrictions_unrestrict (s : Script) : s.unrestrict.restrictions = 0 := by
  rw [restrictions, countContaining, List.countP_eq_zero]
  intro l hl
  simpa using (List.mem_filter.1 hl).2

/-- The marked line of a restricted script is the one that restricts it. -/
theorem filter_restrict (s : Script) (r : FrameRange) :
    (s.restrict r).lines.filter (·.contains restrictionMark) = [restrictingLine r] := by
  have hnone : s.unrestrict.lines.filter (·.contains restrictionMark) = [] := by
    refine List.filter_eq_nil_iff.2 fun l hl => ?_
    simpa using (List.mem_filter.1 hl).2
  have hline := contains_restrictingLine r
  rw [restrict]
  rcases insertBeforeLast_cases s.unrestrict prefetchMark (restrictingLine r) with
    ⟨-, hend⟩ | ⟨front, found, back, hlines, -, -, hmid⟩
  · rw [hend, List.filter_append, hnone, List.nil_append, List.filter_cons, if_pos hline]
    rfl
  · rw [hlines, List.filter_append, List.append_eq_nil_iff] at hnone
    rw [hmid, List.filter_append, hnone.1, List.nil_append, List.filter_cons, if_pos hline,
      hnone.2]

/-- **A restricted script is restricted once.** -/
theorem restrictions_restrict (s : Script) (r : FrameRange) : (s.restrict r).restrictions = 1 := by
  rw [restrictions, countContaining, List.countP_eq_length_filter, filter_restrict]
  rfl

/-- A script without marked lines has no restriction to lift. -/
theorem unrestrict_eq_self_iff : s.unrestrict = s ↔ ∀ l ∈ s.lines, l.contains restrictionMark = false := by
  cases s with
  | mk ls =>
    rw [unrestrict, dropContaining, Script.mk.injEq, List.filter_eq_self]
    simp

/-! ## Unmarked lines -/

/-- The lines that restrict nothing. -/
def unmarked (s : Script) : List Line := s.lines.filter (!·.contains restrictionMark)

theorem unmarked_restrict (s : Script) (r : FrameRange) : (s.restrict r).unmarked = s.unmarked :=
  congrArg Script.lines (unrestrict_restrict s r)

/-- A restriction adds its line to the unmarked ones, and nothing else. -/
theorem restrict_split (s : Script) (r : FrameRange) : ∃ front back,
    s.unmarked = front ++ back ∧ (s.restrict r).lines = front ++ restrictingLine r :: back := by
  rcases insertBeforeLast_cases s.unrestrict prefetchMark (restrictingLine r) with
    ⟨-, hend⟩ | ⟨front, found, back, hlines, -, -, hmid⟩
  · exact ⟨s.unmarked, [], (List.append_nil _).symm, hend⟩
  · exact ⟨front, found :: back, hlines, hmid⟩

/-- **Restrictions replace each other**, whatever script they are put on: only the last one counts,
lifting leaves the script without any, and the unmarked lines stay as they are throughout. -/
theorem restrictions_replace (s : Script) (a b : FrameRange) :
    (s.restrict a).restrict b = s.restrict b ∧
      (s.restrict a).unrestrict = s.unrestrict ∧
      s.unrestrict.unrestrict = s.unrestrict ∧
      s.unrestrict.lines = s.unmarked ∧
      (s.restrict a).unmarked = s.unmarked ∧
      ∃ front back, s.unmarked = front ++ back ∧
        (s.restrict a).lines = front ++ restrictingLine a :: back :=
  ⟨restrict_restrict s a b, unrestrict_restrict s a, unrestrict_unrestrict s, rfl,
    unmarked_restrict s a, restrict_split s a⟩

end Script

end Restoration
