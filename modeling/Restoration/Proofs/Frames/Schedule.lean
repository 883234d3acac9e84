import Mathlib.Order.Nat
import Restoration.Proofs.Frames.Chunking

/-!
# The schedule of chunks

How many chunks cutting makes, and how long they are. Every gap ends in one chunk of whatever is left;
the chunks ahead of those follow the schedule, and as their numbers only rise, so many of them take
at least so many frames:

    base * leastSteps workers k + gaps.length ≤ total gaps       for k chunks ahead of the last of gaps

With sizes made for these frames there are fewer of them than workers (`of_ahead_lt`). Halving makes
no more chunks than there are workers, and none that is short.
-/

namespace Restoration

namespace Partition

open FrameRange

variable {p : Partition}

/-! ## Steps -/

/-- The least that chunks of the schedule can take, in units of the base: no two have one number, and
from the last worker's number on the length does not grow. -/
def leastSteps (workers : Nat) : Nat → Nat
  | 0 => 0
  | k + 1 => leastSteps workers k + min (k + 1) workers

theorem leastSteps_lt {workers : Nat} (h : 0 < workers) (k : Nat) :
    leastSteps workers k < leastSteps workers (k + 1) := by
  rw [leastSteps]
  omega

theorem leastSteps_mono {workers k m : Nat} (hkm : k ≤ m) :
    leastSteps workers k ≤ leastSteps workers m := by
  induction m, hkm using Nat.le_induction with
  | base => exact Nat.le_refl _
  | succ m _ ih => exact Nat.le_trans ih (Nat.le_add_right _ _)

theorem le_leastSteps {workers : Nat} (h : 0 < workers) (k : Nat) : k ≤ leastSteps workers k := by
  induction k with
  | zero => exact Nat.zero_le _
  | succ k ih => exact Nat.lt_of_le_of_lt ih (leastSteps_lt h k)

/-- As long as each worker has one chunk at most, the steps are those of a staircase. -/
theorem two_mul_leastSteps {workers k : Nat} (h : k ≤ workers) :
    2 * leastSteps workers k = k * (k + 1) := by
  induction k with
  | zero => rfl
  | succ k ih =>
    rw [leastSteps, Nat.mul_add, ih (by omega), Nat.min_eq_left h, ← Nat.add_mul, Nat.mul_comm]

theorem steps_eq (workers : Nat) : workers * (workers + 1) / 2 = leastSteps workers workers := by
  rw [← two_mul_leastSteps (Nat.le_refl workers), Nat.mul_div_cancel_left _ Nat.two_pos]

/-! ## Sizes made for a number of frames -/

section sizes

variable {workers frames : Nat}

theorem of_workers (h : 1 ≤ workers) : (of workers frames).workers = workers := Nat.max_eq_right h

theorem of_longest (workers frames : Nat) :
    (of workers frames).longest = (of workers frames).base * (of workers frames).workers := rfl

theorem leastChunk_le_base (workers frames : Nat) : leastChunk ≤ (of workers frames).base :=
  Nat.le_max_left _ _

theorem of_base (h : 1 ≤ workers) : (of workers frames).base = max leastChunk
    ((frames + leastSteps workers workers - 1) / leastSteps workers workers) := by
  simp only [of, Nat.max_eq_right h, steps_eq]

/-- A chunk for each worker, each longer by the base than the one before, covers all frames. -/
theorem le_base_mul_leastSteps (h : 1 ≤ workers) :
    frames ≤ (of workers frames).base * leastSteps workers workers := by
  have hpos : 0 < leastSteps workers workers := Nat.lt_of_lt_of_le h (le_leastSteps h workers)
  have hbase : (frames + leastSteps workers workers - 1) / leastSteps workers workers ≤
      (of workers frames).base := by
    rw [of_base h]
    exact Nat.le_max_right _ _
  refine Nat.le_trans ?_ (Nat.mul_le_mul_right _ hbase)
  have hdiv := Nat.lt_div_mul_add (a := frames + leastSteps workers workers - 1) hpos
  omega

end sizes

/-! ## Wanted lengths -/

theorem ideal_le_longest (hlongest : p.longest = p.base * p.workers) (index : Nat) :
    p.ideal index ≤ p.longest := by
  unfold ideal
  split
  · rename_i h
    rw [hlongest, Nat.mul_comm]
    exact Nat.mul_le_mul_left _ h
  · exact Nat.le_refl _

/-- A chunk with this number or a later one is at least so many steps long. -/
theorem le_ideal (hlongest : p.longest = p.base * p.workers) {index k : Nat} (h : k < index) :
    p.base * min (k + 1) p.workers ≤ p.ideal index := by
  unfold ideal
  split
  · rw [Nat.mul_comm index]
    exact Nat.mul_le_mul_left _ (by omega)
  · rw [hlongest]
    exact Nat.mul_le_mul_left _ (Nat.min_le_right _ _)

theorem base_le_ideal (hlongest : p.longest = p.base * p.workers) (hworkers : 0 < p.workers)
    {index : Nat} (h : 0 < index) : p.base ≤ p.ideal index := by
  have hmin : min 1 p.workers = 1 := Nat.min_eq_left hworkers
  have hle := le_ideal hlongest h
  rwa [Nat.zero_add, hmin, Nat.mul_one] at hle

/-! ## Cutting -/

theorem Cuts.behind_eq {index behind : Nat} {gap : FrameRange} {cs : List FrameRange}
    (h : Cuts p index gap cs behind) : behind = index + cs.length := by
  induction h with
  | last => rfl
  | next _ _ _ ih =>
    rw [ih, List.length_cons]
    omega

/-- Where a chunk of the schedule is cut off, the rest of the gap is longer than the base. -/
theorem length_rest {gap : FrameRange} {size : Nat} (h : size + p.base < gap.length) :
    length ⟨gap.start + size, gap.stop⟩ = gap.length - size := by
  simp only [length] at h ⊢
  omega

theorem length_first {start size : Nat} (h : 0 < size) : length ⟨start, start + size - 1⟩ = size := by
  simp only [length]
  omega

/-- A gap holds what its chunks ahead of the last one take, and a last one. The first `m` steps of
the schedule are taken already. -/
theorem Cuts.takes (hlongest : p.longest = p.base * p.workers) {index behind m : Nat}
    {gap : FrameRange} {cs : List FrameRange} (h : Cuts p index gap cs behind) (hm : m < index) :
    ∃ k, cs.length = k + 1 ∧
      p.base * leastSteps p.workers (m + k) < p.base * leastSteps p.workers m + gap.length := by
  induction h generalizing m with
  | @last index gap _ =>
    refine ⟨0, rfl, ?_⟩
    have hpos := gap.length_pos
    rw [Nat.add_zero]
    omega
  | @next index gap rest behind hlt _ _ ih =>
    obtain ⟨k, hlength, hk⟩ := ih (Nat.succ_lt_succ hm)
    refine ⟨k + 1, by rw [List.length_cons, hlength], ?_⟩
    have hstep := le_ideal hlongest hm
    have hnumber : m + (k + 1) = m.succ + k := by omega
    rw [length_rest hlt, leastSteps, Nat.mul_add] at hk
    rw [hnumber]
    omega

/-- All gaps hold what their chunks ahead of the last ones take, and the last ones. -/
theorem CutsAll.takes (hlongest : p.longest = p.base * p.workers) {index m : Nat}
    {gaps cs : List FrameRange} (h : CutsAll p index gaps cs) (hm : m < index) :
    ∃ k, cs.length = k + gaps.length ∧
      p.base * leastSteps p.workers (m + k) + gaps.length ≤
        p.base * leastSteps p.workers m + total gaps := by
  induction h generalizing m with
  | nil index => exact ⟨0, rfl, Nat.le_refl _⟩
  | @cons index behind gap gaps chunks rest hcut _ ih =>
    obtain ⟨a, hlength, ha⟩ := hcut.takes hlongest hm
    have hbehind := hcut.behind_eq
    obtain ⟨b, hrest, hb⟩ := ih (m := m + a) (by omega)
    have htotal : total (gap :: gaps) = gap.length + total gaps := rfl
    refine ⟨a + b, by rw [List.length_append, List.length_cons]; omega, ?_⟩
    rw [Nat.add_assoc] at hb
    rw [List.length_cons, htotal]
    omega

/-- With sizes made for their frames, gaps have fewer chunks of the schedule than workers. -/
theorem of_ahead_lt {workers k : Nat} {gaps : List FrameRange} (hworkers : 1 ≤ workers)
    (hne : gaps ≠ [])
    (h : (of workers (total gaps)).base * leastSteps workers k + gaps.length ≤ total gaps) :
    k < workers := by
  have hcover : total gaps ≤ (of workers (total gaps)).base * leastSteps workers workers :=
    le_base_mul_leastSteps hworkers
  have hpos := List.length_pos_iff.2 hne
  rw [← Nat.not_le]
  intro hle
  have hmono : leastSteps workers workers ≤ leastSteps workers k := leastSteps_mono hle
  have hsteps := Nat.mul_le_mul_left (of workers (total gaps)).base hmono
  omega

/-- A chunk is its gap as a whole, or not shorter than the base; and it is hardly longer than the
longest of the schedule. -/
theorem Cuts.sizes (hlongest : p.longest = p.base * p.workers) (hworkers : 0 < p.workers)
    {index behind : Nat} {gap : FrameRange} {cs : List FrameRange} (h : Cuts p index gap cs behind)
    (hindex : 0 < index) :
    ∀ c ∈ cs, (c = gap ∨ p.base ≤ c.length) ∧ c.length ≤ p.longest + p.base := by
  induction h with
  | @last index gap hge =>
    have hideal := ideal_le_longest hlongest index
    intro c hc
    obtain rfl := List.mem_singleton.1 hc
    exact ⟨.inl rfl, by omega⟩
  | @next index gap rest behind hlt hpos _ ih =>
    intro c hc
    rcases List.mem_cons.1 hc with rfl | hc
    · rw [length_first hpos]
      exact ⟨.inr (base_le_ideal hlongest hworkers hindex),
        Nat.le_trans (ideal_le_longest hlongest index) (Nat.le_add_right _ _)⟩
    · obtain ⟨hshort, hlong⟩ := ih (Nat.succ_pos _) c hc
      refine ⟨.inr ?_, hlong⟩
      rcases hshort with rfl | hbase
      · rw [length_rest hlt]
        omega
      · exact hbase

theorem CutsAll.sizes (hlongest : p.longest = p.base * p.workers) (hworkers : 0 < p.workers)
    {index : Nat} {gaps cs : List FrameRange} (h : CutsAll p index gaps cs) (hindex : 0 < index) :
    ∀ c ∈ cs, (c ∈ gaps ∨ p.base ≤ c.length) ∧ c.length ≤ p.longest + p.base := by
  induction h with
  | nil => simp
  | @cons index behind gap gaps chunks rest hcut _ ih =>
    intro c hc
    rcases List.mem_append.1 hc with hc | hc
    · obtain ⟨hshort, hlong⟩ := hcut.sizes hlongest hworkers hindex c hc
      refine ⟨hshort.imp_left ?_, hlong⟩
      rintro rfl
      exact List.mem_cons_self
    · have hbehind := hcut.behind_eq
      obtain ⟨hshort, hlong⟩ := ih (by omega) c hc
      exact ⟨hshort.imp_left (List.mem_cons_of_mem _), hlong⟩

/-! ## Halving -/

theorem mem_halveFirst {len : Nat} {c : FrameRange} {chunks : List FrameRange}
    (h : c ∈ halveFirst len chunks) :
    c ∈ chunks ∨ ∃ d ∈ chunks, d.length = len ∧
      (c = ⟨d.start, d.start + len / 2 - 1⟩ ∨ c = ⟨d.start + len / 2, d.stop⟩) := by
  induction chunks with
  | nil => cases h
  | cons d rest ih =>
    rw [halveFirst] at h
    split at h
    · rename_i hd
      rcases List.mem_cons.1 h with rfl | h
      · exact .inr ⟨d, List.mem_cons_self, hd, .inl rfl⟩
      · rcases List.mem_cons.1 h with rfl | h
        · exact .inr ⟨d, List.mem_cons_self, hd, .inr rfl⟩
        · exact .inl (List.mem_cons_of_mem _ h)
    · rcases List.mem_cons.1 h with rfl | h
      · exact .inl List.mem_cons_self
      · rcases ih h with h | ⟨e, he, heq⟩
        · exact .inl (List.mem_cons_of_mem _ h)
        · exact .inr ⟨e, List.mem_cons_of_mem _ he, heq⟩

/-- The halves of a chunk that is worth halving are shorter than it, and not too short. -/
theorem length_half {d c : FrameRange} (hlen : 2 ≤ d.length)
    (h : c = ⟨d.start, d.start + d.length / 2 - 1⟩ ∨ c = ⟨d.start + d.length / 2, d.stop⟩) :
    d.length / 2 ≤ c.length ∧ c.length ≤ d.length := by
  rcases h with rfl | rfl <;> simp only [length] at hlen ⊢ <;> omega

theorem halves_of_not_isFilled {chunks : List FrameRange} (h : ¬ p.IsFilled chunks) :
    chunks.length < p.workers ∧ p.shortest ≤ largest chunks / 2 := by
  simp only [IsFilled, not_or, halves, Bool.and_eq_false_iff, decide_eq_false_iff_not, not_not] at h
  exact ⟨Nat.not_le.1 h.1, h.2.2.2⟩

theorem Fills.length_le {cs ds : List FrameRange} (h : Fills p cs ds) :
    ds.length ≤ max p.workers cs.length := by
  induction h with
  | done => exact Nat.le_max_right _ _
  | @halve chunks halved hopen hlen _ ih =>
    obtain ⟨hfew, -⟩ := halves_of_not_isFilled hopen
    have hne : chunks ≠ [] := fun h => hopen (.inr (.inl h))
    rw [length_halveFirst (exists_largest hne)] at ih
    omega

/-- What holds of all chunks, and with a chunk of its halves, holds of all that halving makes. -/
theorem Fills.forall_mem {holds : FrameRange → Prop}
    (hhalf : ∀ d c, holds d → c.length ≤ d.length → p.shortest ≤ c.length → holds c)
    {cs ds : List FrameRange} (h : Fills p cs ds) (hcs : ∀ c ∈ cs, holds c) :
    ∀ d ∈ ds, holds d := by
  induction h with
  | done => exact hcs
  | @halve chunks halved hopen hlen _ ih =>
    refine ih fun c hc => ?_
    rcases mem_halveFirst hc with hc | ⟨d, hd, hlength, hc⟩
    · exact hcs c hc
    · obtain ⟨-, hshort⟩ := halves_of_not_isFilled hopen
      rw [← hlength] at hlen hshort hc
      obtain ⟨hge, hle⟩ := length_half hlen hc
      exact hhalf d c (hcs d hd) hle (Nat.le_trans hshort hge)

end Partition

end Restoration
