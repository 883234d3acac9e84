import Restoration.Frames.Layout
import Restoration.Proofs.Frames.Range
import Mathlib.Data.List.Perm.Basic
import Mathlib.Order.Bounds.Defs

/-!
# What a layout covers

Fragments are laid from frame `free` on; the frames below it are already given away. One step lays
or turns away the first fragment, and by induction over the sorted fragments

    framesOf done ++ framesOf left   is a permutation of   free, …, total - 1

so that nothing is covered twice and nothing is missed (`ofFragments_lays`).
-/

namespace Restoration

/-- The frames of a source of `total` frames that the fragment counts for. -/
def Fragment.range (total : Nat) (f : Fragment) : FrameRange :=
  ⟨f.start, min (f.start + f.frames - 1) (total - 1)⟩

namespace Layout

open FrameRange

/-- Given the accepted fragments, is `f` of no use in place `i` of the list that they start? -/
def IsUseless (total : Nat) (accepted : List Fragment) (i : Nat) (f : Fragment) : Prop :=
  f.frames = 0 ∨ total ≤ f.start ∨
    ∃ j, ∃ hj : j < accepted.length, j ≠ i ∧ (accepted[j].range total).holds f.start

/-- The layout is exact for these fragments and a source of `total` frames. -/
structure Lays (fragments : List Fragment) (total : Nat) (l : Layout) : Prop where
  done_sorted : l.done.Pairwise fun r s => r.start < s.start
  left_sorted : l.left.Pairwise fun r s => r.start < s.start
  valid : ∀ r ∈ l.done ++ l.left, r.start ≤ r.stop
  disjoint : (l.done ++ l.left).Pairwise Apart
  union : ∀ n, (∃ r ∈ l.done ++ l.left, r.holds n) ↔ n < total
  /-- Gaps are maximal. -/
  left_not_adjacent : ∀ r ∈ l.left, ∀ s ∈ l.left, s.start ≠ r.stop + 1
  done_eq : l.done = l.accepted.map (Fragment.range total)
  perm : (l.accepted ++ l.rejected).Perm fragments
  /-- Of all fragments, the accepted ones first, those behind them are exactly the ones that are
  empty, start behind the source, or start inside another fragment that is accepted. -/
  rejected_iff : ∀ i (hi : i < (l.accepted ++ l.rejected).length),
    l.accepted.length ≤ i ↔ IsUseless total l.accepted i (l.accepted ++ l.rejected)[i]

/-! ## Sorting -/

theorem sorted_perm (fragments : List Fragment) : (sorted fragments).Perm fragments :=
  List.mergeSort_perm _ _

theorem start_le_trans (f g k : Fragment) (hfg : decide (f.start ≤ g.start) = true)
    (hgk : decide (g.start ≤ k.start) = true) : decide (f.start ≤ k.start) = true := by
  rw [decide_eq_true_eq] at hfg hgk ⊢
  omega

theorem start_le_total (f g : Fragment) :
    (decide (f.start ≤ g.start) || decide (g.start ≤ f.start)) = true := by
  rw [Bool.or_eq_true, decide_eq_true_eq, decide_eq_true_eq]
  omega

theorem sorted_pairwise (fragments : List Fragment) :
    (sorted fragments).Pairwise fun f g => f.start ≤ g.start :=
  (List.pairwise_mergeSort start_le_trans start_le_total fragments).imp fun h => of_decide_eq_true h

/-! ## One step -/

section step

variable {total free : Nat} {f : Fragment} {rest : List Fragment}

theorem turnsAway_iff :
    turnsAway total free f = true ↔ f.frames = 0 ∨ total ≤ f.start ∨ f.start < free := by
  simp only [turnsAway, Bool.or_eq_true, decide_eq_true_eq, or_assoc]

/-- A fragment that is laid counts for a range of its own among the frames from `free` on. -/
theorem range_of_laid (h : ¬ turnsAway total free f = true) :
    0 < f.frames ∧ free ≤ f.start ∧ f.start ≤ lastFrame total f ∧ lastFrame total f < total := by
  rw [turnsAway_iff] at h
  unfold lastFrame
  omega

theorem layFrom_of_turnsAway (h : turnsAway total free f = true) :
    layFrom total free (f :: rest) =
      { layFrom total free rest with rejected := f :: (layFrom total free rest).rejected } := by
  rw [layFrom, if_pos h]

theorem layFrom_of_laid (h : ¬ turnsAway total free f = true) :
    layFrom total free (f :: rest) =
      { layFrom total (lastFrame total f + 1) rest with
        done := f.range total :: (layFrom total (lastFrame total f + 1) rest).done
        left := gap free f.start ++ (layFrom total (lastFrame total f + 1) rest).left
        accepted := f :: (layFrom total (lastFrame total f + 1) rest).accepted } := by
  rw [layFrom, if_neg h]
  rfl

end step

theorem mem_gap {first bound : Nat} {r : FrameRange} (h : r ∈ gap first bound) :
    first < bound ∧ r = ⟨first, bound - 1⟩ := by
  unfold gap at h
  split at h
  · exact ⟨by assumption, List.mem_singleton.1 h⟩
  · cases h

theorem framesOf_gap (first bound : Nat) : framesOf (gap first bound) = List.range' first (bound - first) := by
  unfold gap
  split
  · simp only [framesOf_cons, framesOf_nil, List.append_nil, frames, length]
    congr 1
    omega
  · rw [show bound - first = 0 by omega]
    rfl

/-! ## A whole layout -/

section run

variable (total : Nat) (fs : List Fragment)

theorem layFrom_done (free : Nat) :
    (layFrom total free fs).done = (layFrom total free fs).accepted.map (Fragment.range total) := by
  induction fs generalizing free with
  | nil => rfl
  | cons f rest ih =>
    by_cases h : turnsAway total free f = true
    · rw [layFrom_of_turnsAway h]
      exact ih free
    · rw [layFrom_of_laid h]
      simp only [List.map_cons, ih]

theorem layFrom_perm (free : Nat) :
    ((layFrom total free fs).accepted ++ (layFrom total free fs).rejected).Perm fs := by
  induction fs generalizing free with
  | nil => exact List.Perm.refl _
  | cons f rest ih =>
    by_cases h : turnsAway total free f = true
    · rw [layFrom_of_turnsAway h]
      exact List.perm_middle.trans ((ih free).cons f)
    · rw [layFrom_of_laid h]
      exact (ih _).cons f

theorem layFrom_accepted (free : Nat) : ∀ f ∈ (layFrom total free fs).accepted,
    0 < f.frames ∧ free ≤ f.start ∧ f.start < total := by
  induction fs generalizing free with
  | nil => simp [layFrom]
  | cons f rest ih =>
    by_cases h : turnsAway total free f = true
    · rw [layFrom_of_turnsAway h]
      exact ih free
    · rw [layFrom_of_laid h]
      have hf := range_of_laid h
      intro g hg
      rcases List.mem_cons.1 hg with rfl | hg
      · omega
      · have := ih _ g hg
        omega

/-- The reason to reject a fragment is `free` only if the frames below it are given away from the
start; otherwise an accepted fragment is there. -/
theorem layFrom_rejected (free : Nat) (hs : fs.Pairwise fun f g => f.start ≤ g.start) :
    ∀ f ∈ (layFrom total free fs).rejected, f.frames = 0 ∨ total ≤ f.start ∨ f.start < free ∨
      ∃ g ∈ (layFrom total free fs).accepted, (g.range total).holds f.start := by
  induction fs generalizing free with
  | nil => simp [layFrom]
  | cons f rest ih =>
    have hle := (List.pairwise_cons.1 hs).1
    by_cases h : turnsAway total free f = true
    · rw [layFrom_of_turnsAway h]
      intro g hg
      rcases List.mem_cons.1 hg with rfl | hg
      · rcases turnsAway_iff.1 h with h | h | h
        · exact .inl h
        · exact .inr (.inl h)
        · exact .inr (.inr (.inl h))
      · exact ih free hs.of_cons g hg
    · rw [layFrom_of_laid h]
      intro g hg
      have hmem : g ∈ rest := (layFrom_perm total rest _).mem_iff.1 (List.mem_append_right _ hg)
      rcases ih _ hs.of_cons g hg with h1 | h1 | h1 | ⟨k, hk, h1⟩
      · exact .inl h1
      · exact .inr (.inl h1)
      · -- behind `f` only `f` itself can be in the way
        refine .inr (.inr (.inr ⟨f, List.mem_cons_self, hle g hmem, ?_⟩))
        exact Nat.le_of_lt_succ h1
      · exact .inr (.inr (.inr ⟨k, List.mem_cons_of_mem _ hk, h1⟩))

theorem layFrom_done_mem (free : Nat) : ∀ r ∈ (layFrom total free fs).done,
    free ≤ r.start ∧ r.start ≤ r.stop ∧ r.stop < total := by
  intro r hr
  rw [layFrom_done] at hr
  obtain ⟨f, hf, rfl⟩ := List.mem_map.1 hr
  have := layFrom_accepted total fs free f hf
  simp only [Fragment.range]
  omega

theorem layFrom_left_mem (free : Nat) : ∀ r ∈ (layFrom total free fs).left,
    free ≤ r.start ∧ r.start ≤ r.stop ∧ r.stop < total := by
  induction fs generalizing free with
  | nil =>
    intro r hr
    obtain ⟨h, rfl⟩ := mem_gap hr
    simp only
    omega
  | cons f rest ih =>
    by_cases h : turnsAway total free f = true
    · rw [layFrom_of_turnsAway h]
      exact ih free
    · rw [layFrom_of_laid h]
      have hf := range_of_laid h
      intro r hr
      rcases List.mem_append.1 hr with hr | hr
      · obtain ⟨h, rfl⟩ := mem_gap hr
        simp only
        omega
      · have := ih _ r hr
        omega

theorem layFrom_done_ordered (free : Nat) : Ordered (layFrom total free fs).done := by
  induction fs generalizing free with
  | nil => exact Ordered.nil
  | cons f rest ih =>
    by_cases h : turnsAway total free f = true
    · rw [layFrom_of_turnsAway h]
      exact ih free
    · rw [layFrom_of_laid h]
      have hf := range_of_laid h
      refine Ordered.cons hf.2.2.1 (fun r hr => ?_) (ih _)
      exact Nat.lt_of_succ_le (layFrom_done_mem total rest _ r hr).1

/-- Between two gaps lies at least one frame. -/
theorem layFrom_left_spaced (free : Nat) :
    (layFrom total free fs).left.Pairwise fun r s => r.stop + 1 < s.start := by
  induction fs generalizing free with
  | nil =>
    rw [layFrom]
    unfold gap
    split <;> simp
  | cons f rest ih =>
    by_cases h : turnsAway total free f = true
    · rw [layFrom_of_turnsAway h]
      exact ih free
    · rw [layFrom_of_laid h]
      have hf := range_of_laid h
      refine List.pairwise_append.2 ⟨?_, ih _, fun r hr s hs => ?_⟩
      · unfold gap
        split <;> simp
      · obtain ⟨h, rfl⟩ := mem_gap hr
        have := (layFrom_left_mem total rest _ s hs).1
        simp only
        omega

theorem layFrom_left_ordered (free : Nat) : Ordered (layFrom total free fs).left where
  valid r hr := (layFrom_left_mem total fs free r hr).2.1
  rising := (layFrom_left_spaced total fs free).imp fun h => by omega

/-- **Nothing twice, nothing missed.** The laid ranges and the gaps are the frames from `free` on. -/
theorem layFrom_frames (free : Nat) (hfree : free ≤ total) :
    (framesOf (layFrom total free fs).done ++ framesOf (layFrom total free fs).left).Perm
      (List.range' free (total - free)) := by
  induction fs generalizing free with
  | nil =>
    rw [layFrom, framesOf_gap]
    exact List.Perm.refl _
  | cons f rest ih =>
    by_cases h : turnsAway total free f = true
    · rw [layFrom_of_turnsAway h]
      exact ih free hfree
    · rw [layFrom_of_laid h]
      have hf := range_of_laid h
      have hrest := ih (lastFrame total f + 1) hf.2.2.2
      generalize layFrom total (lastFrame total f + 1) rest = l at hrest
      simp only [framesOf_cons, framesOf_append, framesOf_gap, List.append_assoc]
      -- the gap ahead of the fragment, the fragment, and the rest follow each other
      have hjoin : List.range' free (total - free) =
          List.range' free (f.start - free) ++ ((f.range total).frames ++
            List.range' (lastFrame total f + 1) (total - (lastFrame total f + 1))) := by
        have hl : (f.range total).length = lastFrame total f + 1 - f.start := by
          simp only [length, Fragment.range, lastFrame] at hf ⊢
          omega
        have h1 : lastFrame total f + 1 = f.start + (f.range total).length := by omega
        have h2 : f.start = free + (f.start - free) := by omega
        have h3 : (f.range total).frames = List.range' f.start (f.range total).length := rfl
        rw [h3, h1, List.range'_append_1]
        conv => rhs; rhs; rw [h2]
        rw [List.range'_append_1]
        congr 1
        omega
      rw [hjoin]
      calc (f.range total).frames ++ (framesOf l.done ++
              (List.range' free (f.start - free) ++ framesOf l.left))
          _ |>.Perm ((f.range total).frames ++ (List.range' free (f.start - free) ++
              (framesOf l.done ++ framesOf l.left))) :=
            (List.perm_append_comm_assoc _ _ _).append_left _
          _ |>.Perm (List.range' free (f.start - free) ++ ((f.range total).frames ++
              (framesOf l.done ++ framesOf l.left))) := List.perm_append_comm_assoc _ _ _
          _ |>.Perm _ := (hrest.append_left _).append_left _

/-- An accepted fragment ends ahead of all that are accepted after it. -/
theorem layFrom_accepted_rising (free : Nat) :
    (layFrom total free fs).accepted.Pairwise fun f g => (f.range total).stop < g.start := by
  have h := (layFrom_done_ordered total fs free).rising
  rw [layFrom_done, List.pairwise_map] at h
  exact h

/-- Laid alone, the accepted fragments are laid as they were. -/
theorem layFrom_layFrom_accepted (free : Nat) :
    layFrom total free (layFrom total free fs).accepted =
      { layFrom total free fs with rejected := [] } := by
  induction fs generalizing free with
  | nil => rfl
  | cons f rest ih =>
    by_cases h : turnsAway total free f = true
    · rw [layFrom_of_turnsAway h]
      exact ih free
    · rw [layFrom_of_laid h]
      dsimp only
      rw [layFrom_of_laid h, ih]

end run

/-! ## The layout of a list of fragments -/

section fragments

variable (fragments : List Fragment) (total : Nat)

theorem ofFragments_done_eq : (ofFragments fragments total).done =
    (ofFragments fragments total).accepted.map (Fragment.range total) := layFrom_done total _ 0

theorem ofFragments_accepted : ∀ f ∈ (ofFragments fragments total).accepted,
    0 < f.frames ∧ f.start < total := fun f hf =>
  have h := layFrom_accepted total _ 0 f hf
  ⟨h.1, h.2.2⟩

theorem ofFragments_done_mem : ∀ r ∈ (ofFragments fragments total).done,
    r.start ≤ r.stop ∧ r.stop < total := fun r hr => (layFrom_done_mem total _ 0 r hr).2

theorem ofFragments_left_mem : ∀ r ∈ (ofFragments fragments total).left,
    r.start ≤ r.stop ∧ r.stop < total := fun r hr => (layFrom_left_mem total _ 0 r hr).2

theorem ofFragments_perm :
    ((ofFragments fragments total).accepted ++ (ofFragments fragments total).rejected).Perm
      fragments :=
  (layFrom_perm total _ 0).trans (sorted_perm fragments)

theorem ofFragments_frames :
    (framesOf (ofFragments fragments total).done ++ framesOf (ofFragments fragments total).left).Perm
      (List.range' 0 total) :=
  layFrom_frames total _ 0 (Nat.zero_le total)

theorem ofFragments_rejected : ∀ f ∈ (ofFragments fragments total).rejected,
    f.frames = 0 ∨ total ≤ f.start ∨
      ∃ g ∈ (ofFragments fragments total).accepted, (g.range total).holds f.start := by
  intro f hf
  rcases layFrom_rejected total _ 0 (sorted_pairwise fragments) f hf with h | h | h | h
  · exact .inl h
  · exact .inr (.inl h)
  · omega
  · exact .inr (.inr h)

theorem ofFragments_valid : ∀ r ∈ (ofFragments fragments total).done ++
    (ofFragments fragments total).left, r.start ≤ r.stop := by
  intro r hr
  rcases List.mem_append.1 hr with hr | hr
  · exact (ofFragments_done_mem fragments total r hr).1
  · exact (ofFragments_left_mem fragments total r hr).1

theorem ofFragments_disjoint :
    ((ofFragments fragments total).done ++ (ofFragments fragments total).left).Pairwise Apart := by
  refine apart_of_nodup (ofFragments_valid fragments total) ?_
  rw [framesOf_append]
  exact (ofFragments_frames fragments total).nodup_iff.2 List.nodup_range'

theorem ofFragments_union (n : Nat) :
    (∃ r ∈ (ofFragments fragments total).done ++ (ofFragments fragments total).left, r.holds n) ↔
      n < total := by
  rw [← mem_framesOf (ofFragments_valid fragments total), framesOf_append,
    (ofFragments_frames fragments total).mem_iff, List.mem_range'_1]
  omega

/-- A frame below the end of the source is in a laid range or in a gap, and never in both. -/
theorem not_done_iff (n : Nat) :
    (∀ r ∈ (ofFragments fragments total).done, ¬ r.holds n) ↔
      total ≤ n ∨ ∃ r ∈ (ofFragments fragments total).left, r.holds n := by
  have hu := ofFragments_union fragments total n
  have hd := (List.pairwise_append.1 (ofFragments_disjoint fragments total)).2.2
  simp only [List.mem_append] at hu
  constructor
  · intro h
    rcases Nat.lt_or_ge n total with hn | hn
    · obtain ⟨r, hr | hr, hrn⟩ := hu.2 hn
      · exact absurd hrn (h r hr)
      · exact .inr ⟨r, hr, hrn⟩
    · exact .inl hn
  · rintro (hn | ⟨s, hs, hsn⟩) r hr hrn
    · have := hu.1 ⟨r, .inl hr, hrn⟩
      omega
    · exact hd r hr s hs n ⟨hrn, hsn⟩

theorem rejected_iff (i : Nat) (hi : i < ((ofFragments fragments total).accepted ++
      (ofFragments fragments total).rejected).length) :
    (ofFragments fragments total).accepted.length ≤ i ↔
      IsUseless total (ofFragments fragments total).accepted i
        ((ofFragments fragments total).accepted ++ (ofFragments fragments total).rejected)[i] := by
  have hacc := ofFragments_accepted fragments total
  have hrise : (ofFragments fragments total).accepted.Pairwise
      fun f g => (f.range total).stop < g.start := layFrom_accepted_rising total _ 0
  have hrej := ofFragments_rejected fragments total
  generalize ofFragments fragments total = l at *
  rcases Nat.lt_or_ge i l.accepted.length with h | h
  · -- an accepted fragment is of use, and in the way of none that is accepted
    simp only [List.getElem_append_left h]
    have hi := hacc _ (List.getElem_mem h)
    have hout : ∀ j (hj : j < l.accepted.length), j ≠ i →
        ¬ (l.accepted[j].range total).holds l.accepted[i].start := by
      rintro j hj hne ⟨h1, h2⟩
      rcases Nat.lt_or_gt_of_ne hne with hji | hij
      · have := List.pairwise_iff_getElem.1 hrise j i hj h hji
        omega
      · have := List.pairwise_iff_getElem.1 hrise i j h hj hij
        have := hacc _ (List.getElem_mem hj)
        simp only [Fragment.range] at *
        omega
    constructor
    · intro hle
      omega
    · rintro (h0 | h0 | ⟨j, hj, hne, h0⟩)
      · omega
      · omega
      · exact absurd h0 (hout j hj hne)
  · simp only [List.getElem_append_right h]
    have hlen : i - l.accepted.length < l.rejected.length := by
      rw [List.length_append] at hi
      omega
    refine ⟨fun _ => ?_, fun _ => h⟩
    rcases hrej _ (List.getElem_mem hlen) with h0 | h0 | ⟨g, hg, h0⟩
    · exact .inl h0
    · exact .inr (.inl h0)
    · obtain ⟨j, hj, rfl⟩ := List.getElem_of_mem hg
      exact .inr (.inr ⟨j, hj, by omega, h0⟩)

theorem lays_ofFragments : Lays fragments total (ofFragments fragments total) where
  done_sorted := (layFrom_done_ordered total _ 0).starts_rising
  left_sorted := (layFrom_left_ordered total _ 0).starts_rising
  valid := ofFragments_valid fragments total
  disjoint := ofFragments_disjoint fragments total
  union := ofFragments_union fragments total
  left_not_adjacent := by
    intro r hr s hs heq
    have hspaced : (ofFragments fragments total).left.Pairwise fun r s => r.stop + 1 < s.start :=
      layFrom_left_spaced total _ 0
    have hr' := (ofFragments_left_mem fragments total r hr).1
    have hs' := (ofFragments_left_mem fragments total s hs).1
    obtain ⟨i, hi, rfl⟩ := List.getElem_of_mem hr
    obtain ⟨j, hj, rfl⟩ := List.getElem_of_mem hs
    rcases Nat.lt_trichotomy i j with hij | rfl | hij
    · have := List.pairwise_iff_getElem.1 hspaced i j hi hj hij
      omega
    · omega
    · have := List.pairwise_iff_getElem.1 hspaced j i hj hi hij
      omega
  done_eq := ofFragments_done_eq fragments total
  perm := ofFragments_perm fragments total
  rejected_iff := rejected_iff fragments total

theorem accepted_starts_rising :
    (ofFragments fragments total).accepted.Pairwise fun f g => f.start < g.start := by
  have h : Ordered (ofFragments fragments total).done := layFrom_done_ordered total _ 0
  have hstarts := h.starts_rising
  rw [ofFragments_done_eq, List.pairwise_map] at hstarts
  exact hstarts

theorem nodup_accepted_starts :
    ((ofFragments fragments total).accepted.map Fragment.start).Nodup :=
  List.pairwise_map.2 ((accepted_starts_rising fragments total).imp Nat.ne_of_lt)

theorem framesDone_add_framesLeft :
    (Progress.ofLayout total (ofFragments fragments total)).framesDone +
      (Progress.ofLayout total (ofFragments fragments total)).framesLeft = total := by
  have h := (ofFragments_frames fragments total).length_eq
  rw [List.length_append, length_framesOf, length_framesOf, List.length_range'] at h
  exact h

theorem isComplete_iff :
    (Progress.ofLayout total (ofFragments fragments total)).isComplete = true ↔
      0 < total ∧ ∀ n < total, ∃ r ∈ (ofFragments fragments total).done, r.holds n := by
  have hiff := not_done_iff fragments total
  have hleft := ofFragments_left_mem fragments total
  show (decide (0 < total) && (ofFragments fragments total).left.isEmpty) = true ↔ _
  rw [Bool.and_eq_true, decide_eq_true_eq, List.isEmpty_iff]
  refine and_congr_right fun _ => ⟨fun h n hn => ?_, fun h => ?_⟩
  · by_contra hno
    have hno' : ∀ r ∈ (ofFragments fragments total).done, ¬ r.holds n :=
      fun r hr hrn => hno ⟨r, hr, hrn⟩
    rcases (hiff n).1 hno' with h1 | ⟨r, hr, -⟩
    · omega
    · rw [h] at hr
      cases hr
  · refine List.eq_nil_iff_forall_not_mem.2 fun r hr => ?_
    have hr' := hleft r hr
    obtain ⟨s, hs, hsn⟩ := h r.start (by omega)
    exact (hiff r.start).2 (.inr ⟨r, hr, Nat.le_refl _, hr'.1⟩) s hs hsn

theorem isLeast_resumePosition :
    IsLeast {n | ∀ r ∈ (ofFragments fragments total).done, ¬ r.holds n}
      (Progress.ofLayout total (ofFragments fragments total)).resumePosition := by
  have hiff := not_done_iff fragments total
  have hleft : Ordered (ofFragments fragments total).left := layFrom_left_ordered total _ 0
  have hbound := ofFragments_left_mem fragments total
  simp only [Progress.resumePosition, Progress.ofLayout]
  cases hl : (ofFragments fragments total).left with
  | nil =>
    refine ⟨(hiff total).2 (.inl (Nat.le_refl _)), fun n hn => ?_⟩
    rcases (hiff n).1 hn with h | ⟨r, hr, -⟩
    · exact h
    · rw [hl] at hr
      cases hr
  | cons r rest =>
    rw [hl] at hleft hbound
    have hr : r ∈ (ofFragments fragments total).left := by rw [hl]; exact List.mem_cons_self
    have hr' := hbound r List.mem_cons_self
    refine ⟨(hiff r.start).2 (.inr ⟨r, hr, Nat.le_refl _, hr'.1⟩), fun n hn => ?_⟩
    rcases (hiff n).1 hn with h | ⟨s, hs, hsn⟩
    · simp only
      omega
    · rw [hl] at hs
      rcases List.mem_cons.1 hs with rfl | hs
      · exact hsn.1
      · have := List.rel_of_pairwise_cons hleft.starts_rising hs
        exact Nat.le_of_lt (Nat.lt_of_lt_of_le this hsn.1)

/-- What is missing of a source is left behind the position, which is a frame of the source. -/
theorem resumePosition_lt (hpos : 0 < total)
    (h : (Progress.ofLayout total (ofFragments fragments total)).isComplete = false) :
    (Progress.ofLayout total (ofFragments fragments total)).resumePosition < total ∧
      0 < (Progress.ofLayout total (ofFragments fragments total)).framesLeft := by
  obtain ⟨n, hn, hmissing⟩ : ∃ n < total, ∀ r ∈ (ofFragments fragments total).done, ¬ r.holds n := by
    by_contra hall
    push Not at hall
    rw [(isComplete_iff fragments total).2 ⟨hpos, hall⟩] at h
    cases h
  refine ⟨Nat.lt_of_le_of_lt ((isLeast_resumePosition fragments total).2 hmissing) hn,
    Nat.pos_of_ne_zero fun hnone => ?_⟩
  have hleft : (ofFragments fragments total).left = [] := FrameRange.total_eq_zero hnone
  rw [Progress.isComplete, Progress.ofLayout, hleft] at h
  simp [hpos] at h

/-- The frames that are left are those of the source that are not done. -/
theorem mem_framesOf_left (n : Nat) : n ∈ framesOf (ofFragments fragments total).left ↔
    n < total ∧ ∀ r ∈ (ofFragments fragments total).done, ¬ r.holds n := by
  have hbound := ofFragments_left_mem fragments total
  rw [mem_framesOf fun r hr => (hbound r hr).1, not_done_iff]
  constructor
  · rintro ⟨r, hr, hn⟩
    exact ⟨Nat.lt_of_le_of_lt hn.2 (hbound r hr).2, .inr ⟨r, hr, hn⟩⟩
  · rintro ⟨hn, hge | hleft⟩
    · omega
    · exact hleft

theorem nodup_framesOf_left : (framesOf (ofFragments fragments total).left).Nodup :=
  (List.nodup_append.1 ((ofFragments_frames fragments total).nodup_iff.2 List.nodup_range')).2.1

/-- **A layout covers its source exactly**, whatever the fragments are, and the progress made from
it counts right. -/
theorem ofFragments_covers_exactly :
    Lays fragments total (ofFragments fragments total) ∧
      let p := Progress.ofLayout total (ofFragments fragments total)
      p.framesDone + p.framesLeft = total ∧
        (p.isComplete = true ↔ 0 < total ∧ ∀ n < total, ∃ r ∈ p.done, r.holds n) ∧
        IsLeast {n | ∀ r ∈ p.done, ¬ r.holds n} p.resumePosition :=
  ⟨lays_ofFragments fragments total, framesDone_add_framesLeft fragments total,
    isComplete_iff fragments total, isLeast_resumePosition fragments total⟩

end fragments

end Layout

end Restoration
