import Restoration.Frames.Range
import Mathlib.Data.List.Nodup
import Mathlib.Data.List.Perm.Subperm

/-!
# The frames of ranges

A list of ranges stands for the frames of its ranges, one range after the other. Order,
disjointness and length of ranges are facts on that one list of numbers:

    total rs = (framesOf rs).length
    Ordered rs ↔ all ranges valid, and framesOf rs strictly rising
-/

namespace Restoration

namespace FrameRange

/-- The frames of the range, in order. -/
def frames (r : FrameRange) : List Nat := List.range' r.start r.length

/-- The frames of several ranges, one range after the other. -/
def framesOf (rs : List FrameRange) : List Nat := rs.flatMap frames

/-- No frame is in both ranges. -/
def Apart (r s : FrameRange) : Prop := ∀ n, ¬ (r.holds n ∧ s.holds n)

/-- Ranges that hold frames and follow each other without overlap. -/
structure Ordered (rs : List FrameRange) : Prop where
  valid : ∀ r ∈ rs, r.start ≤ r.stop
  rising : rs.Pairwise fun r s => r.stop < s.start

/-! ## One range -/

theorem Apart.symm {r s : FrameRange} (h : Apart r s) : Apart s r := fun n hn => h n hn.symm

theorem length_pos (r : FrameRange) : 0 < r.length := by unfold length; omega

theorem mem_frames {r : FrameRange} (h : r.start ≤ r.stop) (n : Nat) : n ∈ r.frames ↔ r.holds n := by
  unfold frames holds length
  rw [List.mem_range'_1]
  omega

/-- The first frame is held even by a range that ends too early. -/
theorem start_mem_frames (r : FrameRange) : r.start ∈ r.frames := by
  have := r.length_pos
  unfold frames
  rw [List.mem_range'_1]
  omega

theorem frames_split (r : FrameRange) (m : Nat) (h1 : r.start ≤ m) (h2 : m < r.stop) :
    frames ⟨r.start, m⟩ ++ frames ⟨m + 1, r.stop⟩ = r.frames := by
  have h : m + 1 = r.start + (m - r.start + 1) := by omega
  simp only [frames, length]
  rw [h, List.range'_append_1]
  congr 1
  omega

/-! ## Several ranges -/

@[simp] theorem framesOf_nil : framesOf [] = [] := rfl

@[simp] theorem framesOf_cons (r : FrameRange) (rs : List FrameRange) :
    framesOf (r :: rs) = r.frames ++ framesOf rs := rfl

@[simp] theorem framesOf_append (rs ss : List FrameRange) :
    framesOf (rs ++ ss) = framesOf rs ++ framesOf ss := List.flatMap_append

theorem length_framesOf (rs : List FrameRange) : (framesOf rs).length = total rs := by
  induction rs with
  | nil => rfl
  | cons r rs ih =>
    rw [framesOf_cons, List.length_append, ih, frames, List.length_range']
    rfl

theorem mem_framesOf {rs : List FrameRange} (h : ∀ r ∈ rs, r.start ≤ r.stop) (n : Nat) :
    n ∈ framesOf rs ↔ ∃ r ∈ rs, r.holds n := by
  unfold framesOf
  rw [List.mem_flatMap]
  constructor
  · rintro ⟨r, hr, hn⟩
    exact ⟨r, hr, (mem_frames (h r hr) n).1 hn⟩
  · rintro ⟨r, hr, hn⟩
    exact ⟨r, hr, (mem_frames (h r hr) n).2 hn⟩

theorem total_perm {rs ss : List FrameRange} (h : rs.Perm ss) : total rs = total ss := by
  rw [← length_framesOf, ← length_framesOf]
  exact (h.flatMap_right frames).length_eq

theorem total_append (rs ss : List FrameRange) : total (rs ++ ss) = total rs + total ss := by
  simp only [← length_framesOf, framesOf_append, List.length_append]

theorem length_le_total {r : FrameRange} {rs : List FrameRange} (h : r ∈ rs) : r.length ≤ total rs := by
  obtain ⟨front, back, rfl⟩ := List.append_of_mem h
  have hback : total (r :: back) = r.length + total back := rfl
  rw [total_append, hback]
  omega

theorem total_eq_zero {rs : List FrameRange} (h : total rs = 0) : rs = [] := by
  cases rs with
  | nil => rfl
  | cons r rs =>
    have := r.length_pos
    simp only [total, List.foldr_cons] at h
    omega

/-- Ranges that share no frame are apart from each other. -/
theorem apart_of_nodup {rs : List FrameRange} (h : ∀ r ∈ rs, r.start ≤ r.stop)
    (hn : (framesOf rs).Nodup) : rs.Pairwise Apart := by
  have hd := (List.nodup_flatMap.1 hn).2
  refine hd.imp_of_mem fun {r s} hr hs hrs n => ?_
  rintro ⟨h1, h2⟩
  exact hrs ((mem_frames (h r hr) n).2 h1) ((mem_frames (h s hs) n).2 h2)

/-- Ranges that are apart from each other share no frame. -/
theorem nodup_of_apart {rs : List FrameRange} (h : ∀ r ∈ rs, r.start ≤ r.stop)
    (hapart : rs.Pairwise Apart) : (framesOf rs).Nodup := by
  refine List.nodup_flatMap.2 ⟨fun r _ => List.nodup_range', ?_⟩
  refine hapart.imp_of_mem fun {r s} hr hs hrs n hn hm => ?_
  exact hrs n ⟨(mem_frames (h r hr) n).1 hn, (mem_frames (h s hs) n).1 hm⟩

/-! ## Ranges in order -/

namespace Ordered

theorem nil : Ordered [] := ⟨by simp, by simp⟩

theorem cons {r : FrameRange} {rs : List FrameRange} (hr : r.start ≤ r.stop)
    (hlt : ∀ s ∈ rs, r.stop < s.start) (h : Ordered rs) : Ordered (r :: rs) := by
  refine ⟨fun s hs => ?_, List.pairwise_cons.2 ⟨hlt, h.rising⟩⟩
  rcases List.mem_cons.1 hs with rfl | hs
  · exact hr
  · exact h.valid s hs

theorem starts_rising {rs : List FrameRange} (h : Ordered rs) :
    rs.Pairwise fun r s => r.start < s.start := by
  refine h.rising.imp_of_mem fun {r s} hr _ hrs => ?_
  have := h.valid r hr
  omega

end Ordered

/-- Order of valid ranges is strict order of their frames. -/
theorem ordered_iff (rs : List FrameRange) :
    Ordered rs ↔ (∀ r ∈ rs, r.start ≤ r.stop) ∧ (framesOf rs).Pairwise (· < ·) := by
  have key : ∀ r s : FrameRange, r.start ≤ r.stop → s.start ≤ s.stop →
      ((∀ a ∈ r.frames, ∀ b ∈ s.frames, a < b) ↔ r.stop < s.start) := by
    intro r s hr hs
    constructor
    · intro h
      exact h r.stop ((mem_frames hr _).2 ⟨hr, Nat.le_refl _⟩) s.start s.start_mem_frames
    · intro h a ha b hb
      have h1 := ((mem_frames hr a).1 ha).2
      have h2 := ((mem_frames hs b).1 hb).1
      omega
  unfold framesOf
  rw [List.pairwise_flatMap]
  constructor
  · intro h
    refine ⟨h.valid, fun r _ => List.pairwise_lt_range', ?_⟩
    refine h.rising.imp_of_mem fun {r s} hr hs hrs => ?_
    exact (key r s (h.valid r hr) (h.valid s hs)).2 hrs
  · rintro ⟨hv, -, hp⟩
    refine ⟨hv, hp.imp_of_mem fun {r s} hr hs hrs => ?_⟩
    exact (key r s (hv r hr) (hv s hs)).1 hrs

/-- Ranges in order hold no more frames than there are ahead of a bound. -/
theorem Ordered.total_le {rs : List FrameRange} (h : Ordered rs) {bound : Nat}
    (hbound : ∀ r ∈ rs, r.stop < bound) : total rs ≤ bound := by
  have hrising := ((ordered_iff rs).1 h).2
  have hsub : framesOf rs ⊆ List.range bound := by
    intro n hn
    obtain ⟨r, hr, hholds⟩ := (mem_framesOf h.valid n).1 hn
    exact List.mem_range.2 (Nat.lt_of_le_of_lt hholds.2 (hbound r hr))
  have hlength := (List.subperm_of_subset (hrising.imp Nat.ne_of_lt) hsub).length_le
  rwa [length_framesOf, List.length_range] at hlength

end FrameRange

end Restoration
