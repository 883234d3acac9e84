import Restoration.Proofs.Frames.Layout
import Restoration.Proofs.Job.FileName
import Restoration.Tools.Arguments

/-!
# Layouts in words

First frames and lengths of fragments come from outside, so any word can be among them. A layout that
is computed in words is the exact one, or there is none: the only number that can outgrow a word is
the end of a fragment that is laid, which is computed before it is clamped to the end of the source.

    ofFragments? fragments total = some (ofFragments fragments total)
      unless an accepted fragment has   2 ^ 64 ≤ start + frames
-/

namespace Restoration

namespace Layout

variable {total free : Nat} {f : Fragment} {rest : List Fragment}

/-! ## Steps -/

theorem add?_of_lt {a b : Nat} (h : a + b < Numeral.word) : add? a b = some (a + b) := if_pos h

theorem sub?_of_le {a b : Nat} (h : b ≤ a) : sub? a b = some (a - b) := if_pos h

theorem range?_of_le {start stop : Nat} (h : start ≤ stop) : range? start stop = some ⟨start, stop⟩ :=
  if_pos h

/-- A gap is computed from smaller numbers only. -/
theorem gap?_eq (first bound : Nat) : gap? first bound = some (gap first bound) := by
  unfold gap? gap
  split
  · rename_i h
    rw [sub?_of_le (by omega)]
    simp only [Option.bind_eq_bind, Option.bind_some, range?_of_le (Nat.le_sub_one_of_lt h)]
    rfl
  · rfl

theorem layFrom?_of_turnsAway (h : turnsAway total free f = true) :
    layFrom? total free (f :: rest) = (layFrom? total free rest).map fun l =>
      { l with rejected := f :: l.rejected } := by
  rw [layFrom?, if_pos h]
  cases layFrom? total free rest <;> rfl

/-- A fragment whose end outgrows a word cannot be laid. -/
theorem layFrom?_of_outgrown (h : ¬ turnsAway total free f = true)
    (hlong : ¬ f.start + f.frames < Numeral.word) : layFrom? total free (f :: rest) = none := by
  rw [layFrom?, if_neg h, add?, if_neg hlong]
  rfl

/-- Any other one is clamped to the source, and no number on the way is beyond the end of it. -/
theorem layFrom?_of_laid (h : ¬ turnsAway total free f = true)
    (hshort : f.start + f.frames < Numeral.word) :
    layFrom? total free (f :: rest) =
      (layFrom? total (lastFrame total f + 1) rest).map fun l =>
        { l with
          done := f.range total :: l.done
          left := gap free f.start ++ l.left
          accepted := f :: l.accepted } := by
  obtain ⟨hframes, hfree, hstart, hlast⟩ := range_of_laid h
  have hend : sub? (f.start + f.frames) 1 = some (f.start + f.frames - 1) := sub?_of_le (by omega)
  have hbound : sub? total 1 = some (total - 1) := sub?_of_le (by omega)
  have hrange : range? f.start (lastFrame total f) = some (f.range total) := range?_of_le hstart
  have hclamped : lastFrame total f ≤ f.start + f.frames - 1 := Nat.min_le_left _ _
  have hnext : add? (lastFrame total f) 1 = some (lastFrame total f + 1) := add?_of_lt (by omega)
  rw [lastFrame] at hrange hnext
  simp only [layFrom?, if_neg h, add?_of_lt hshort, hend, hbound, gap?_eq, hrange, hnext,
    Option.bind_eq_bind, Option.bind_some]
  rw [← lastFrame]
  cases layFrom? total (lastFrame total f + 1) rest <;> rfl

/-! ## A whole layout -/

/-- No end of an accepted fragment outgrows a word. -/
def Fits (l : Layout) : Prop := ∀ f ∈ l.accepted, f.start + f.frames < Numeral.word

instance (l : Layout) : Decidable l.Fits :=
  inferInstanceAs (Decidable (∀ f ∈ l.accepted, f.start + f.frames < Numeral.word))

theorem fits_of_turnsAway (h : turnsAway total free f = true) :
    (layFrom total free (f :: rest)).Fits ↔ (layFrom total free rest).Fits := by
  rw [layFrom_of_turnsAway h]
  rfl

theorem fits_of_laid (h : ¬ turnsAway total free f = true) :
    (layFrom total free (f :: rest)).Fits ↔
      f.start + f.frames < Numeral.word ∧ (layFrom total (lastFrame total f + 1) rest).Fits := by
  rw [layFrom_of_laid h]
  exact List.forall_mem_cons

theorem layFrom?_eq (total free : Nat) (fs : List Fragment) :
    layFrom? total free fs =
      if (layFrom total free fs).Fits then some (layFrom total free fs) else none := by
  induction fs generalizing free with
  | nil =>
    rw [layFrom?, gap?_eq, if_pos (by simp [Fits, layFrom])]
    rfl
  | cons f rest ih =>
    by_cases h : turnsAway total free f = true
    · rw [layFrom?_of_turnsAway h, ih, apply_ite (Option.map _)]
      simp only [fits_of_turnsAway h]
      rw [layFrom_of_turnsAway h]
      rfl
    · by_cases hshort : f.start + f.frames < Numeral.word
      · rw [layFrom?_of_laid h hshort, ih, apply_ite (Option.map _)]
        simp only [fits_of_laid h, hshort, true_and]
        rw [layFrom_of_laid h]
        rfl
      · rw [layFrom?_of_outgrown h hshort, if_neg fun hfits => hshort ((fits_of_laid h).1 hfits).1]

theorem ofFragments?_eq (fragments : List Fragment) (total : Nat) : ofFragments? fragments total =
    if (ofFragments fragments total).Fits then some (ofFragments fragments total) else none :=
  layFrom?_eq total 0 (sorted fragments)

/-- **Fragments that run past the end are clamped**, unless the end of one that is laid outgrows a
word before it is; nothing else can. -/
theorem clamps_unless_outgrown (fragments : List Fragment) (total : Nat) :
    ofFragments? fragments total =
        (if (ofFragments fragments total).Fits then some (ofFragments fragments total) else none) ∧
      ∀ l, ofFragments? fragments total = some l →
        l.done = l.accepted.map fun f => ⟨f.start, min (f.start + f.frames - 1) (total - 1)⟩ := by
  refine ⟨ofFragments?_eq fragments total, fun l hl => ?_⟩
  rw [ofFragments?_eq] at hl
  split at hl
  · cases hl
    exact ofFragments_done_eq fragments total
  · cases hl

/-- The second fragment is reported longer than any source, and the third starts inside it. -/
theorem clamps_unless_outgrown_overlong :
    let fragments : List Fragment := [⟨⟨"a"⟩, 0, 3⟩, ⟨⟨"b"⟩, 5, Numeral.word - 6⟩,
      ⟨⟨"c"⟩, 6, Numeral.word - 1⟩]
    ofFragments? fragments 10 = some (ofFragments fragments 10) ∧
      (ofFragments fragments 10).done = [⟨0, 2⟩, ⟨5, 9⟩] := by
  intro fragments
  have hsorted : sorted fragments = fragments := List.mergeSort_of_pairwise (by decide)
  have hlayout : ofFragments fragments 10 = {
      done := [⟨0, 2⟩, ⟨5, 9⟩], left := [⟨3, 4⟩]
      accepted := [⟨⟨"a"⟩, 0, 3⟩, ⟨⟨"b"⟩, 5, Numeral.word - 6⟩]
      rejected := [⟨⟨"c"⟩, 6, Numeral.word - 1⟩] } := by
    rw [ofFragments, hsorted]
    rfl
  have hfits : (ofFragments fragments 10).Fits := by
    rw [hlayout]
    decide
  refine ⟨?_, by rw [hlayout]⟩
  rw [(clamps_unless_outgrown fragments 10).1, if_pos hfits]

/-- A fragment whose name and report say so starts in a source of ten frames and cannot be clamped to
it: its end is computed first. -/
theorem end_outgrows_word :
    let job : Job := { source := ⟨"/media/clip.mkv"⟩, directory := ⟨"/jobs"⟩, index := 1 }
    let report := "25.000,18446744073709551615"
    job.classify (job.fileName (.fragment 5)) = .start 5 ∧
      frameCountOf report = Numeral.word - 1 ∧
      ofFragments? [⟨job.path (.fragment 5), 5, frameCountOf report⟩] 10 = none := by
  intro job report
  have hreport : frameCountOf report = Numeral.word - 1 := by decide +kernel
  refine ⟨job.classify_fragment (by decide), hreport, ?_⟩
  rw [hreport, ofFragments?, sorted, List.mergeSort_singleton]
  exact layFrom?_of_outgrown (by decide) (by decide)

end Layout

end Restoration
