import Restoration.Proofs.Frames.Partition

/-!
# Where cutting and halving end

The loops that make chunks, as relations that bound them by nothing. A step that is worth taking
makes ranges that hold frames, and if the sizes of a partition are positive every run ends, namely in
the chunks that the partition computes:

    CutsAll p 1 gaps cs  ∧  Fills p cs (p.chunks gaps)                  (chunks_run)

So halving ends only for a reason: there are chunks enough, or the largest is not worth it.
-/

namespace Restoration

namespace Partition

open FrameRange

/-! ## Runs -/

/-- Cutting one gap: the number of its first chunk, its chunks, and the number behind them. -/
inductive Cuts (p : Partition) : Nat → FrameRange → List FrameRange → Nat → Prop
  | last {index : Nat} {gap : FrameRange} :
      ¬ p.ideal index + p.base < gap.length → Cuts p index gap [gap] (index + 1)
  | next {index : Nat} {gap : FrameRange} {rest : List FrameRange} {behind : Nat} :
      p.ideal index + p.base < gap.length → 0 < p.ideal index →
      Cuts p (index + 1) ⟨gap.start + p.ideal index, gap.stop⟩ rest behind →
      Cuts p index gap (⟨gap.start, gap.start + p.ideal index - 1⟩ :: rest) behind

/-- Cutting gap after gap, with numbers that run on. -/
inductive CutsAll (p : Partition) : Nat → List FrameRange → List FrameRange → Prop
  | nil (index : Nat) : CutsAll p index [] []
  | cons {index behind : Nat} {gap : FrameRange} {gaps chunks rest : List FrameRange} :
      Cuts p index gap chunks behind → CutsAll p behind gaps rest →
      CutsAll p index (gap :: gaps) (chunks ++ rest)

/-- No chunk need be halved: there are enough, or none, or the largest is not worth it. -/
def IsFilled (p : Partition) (chunks : List FrameRange) : Prop :=
  p.workers ≤ chunks.length ∨ chunks = [] ∨ p.halves (largest chunks) = false

/-- Halving the largest chunk until none need be halved. -/
inductive Fills (p : Partition) : List FrameRange → List FrameRange → Prop
  | done {chunks : List FrameRange} : p.IsFilled chunks → Fills p chunks chunks
  | halve {chunks halved : List FrameRange} :
      ¬ p.IsFilled chunks → 2 ≤ largest chunks →
      Fills p (halveFirst (largest chunks) chunks) halved → Fills p chunks halved

theorem Fills.isFilled {p : Partition} {cs ds : List FrameRange} (h : Fills p cs ds) :
    p.IsFilled ds := by
  induction h with
  | done h => exact h
  | halve _ _ _ ih => exact ih

/-! ## The largest chunk -/

theorem foldl_max_spec (ns : List Nat) (n : Nat) :
    n ≤ ns.foldl max n ∧ (∀ m ∈ ns, m ≤ ns.foldl max n) ∧ (ns.foldl max n = n ∨ ns.foldl max n ∈ ns) := by
  induction ns generalizing n with
  | nil => simp
  | cons a ns ih =>
    obtain ⟨h1, h2, h3⟩ := ih (max n a)
    rw [List.foldl_cons]
    refine ⟨by omega, fun m hm => ?_, ?_⟩
    · rcases List.mem_cons.1 hm with rfl | hm
      · omega
      · exact h2 m hm
    · rcases h3 with h3 | h3
      · rw [h3]
        rcases Nat.le_total n a with h | h
        · exact .inr (by rw [Nat.max_eq_right h]; exact List.mem_cons_self)
        · exact .inl (Nat.max_eq_left h)
      · exact .inr (List.mem_cons_of_mem _ h3)

theorem length_le_largest {chunks : List FrameRange} {c : FrameRange} (h : c ∈ chunks) :
    c.length ≤ largest chunks :=
  (foldl_max_spec (chunks.map length) 0).2.1 _ (List.mem_map_of_mem h)

theorem exists_largest {chunks : List FrameRange} (h : chunks ≠ []) :
    ∃ c ∈ chunks, c.length = largest chunks := by
  rcases (foldl_max_spec (chunks.map length) 0).2.2 with h0 | hmem
  · -- a chunk is never as short as the fold's start
    obtain ⟨c, rest, rfl⟩ := List.exists_cons_of_ne_nil h
    have hle : c.length ≤ largest (c :: rest) := length_le_largest List.mem_cons_self
    have hpos := c.length_pos
    rw [largest, h0] at hle
    omega
  · obtain ⟨c, hc, heq⟩ := List.mem_map.1 hmem
    exact ⟨c, hc, heq⟩

/-- Halving a chunk that is there makes one more. -/
theorem length_halveFirst {len : Nat} {chunks : List FrameRange}
    (h : ∃ c ∈ chunks, c.length = len) : (halveFirst len chunks).length = chunks.length + 1 := by
  induction chunks with
  | nil => simp at h
  | cons c rest ih =>
    rw [halveFirst]
    split
    · simp only [List.length_cons]
    · rename_i hc
      have hrest : ∃ d ∈ rest, d.length = len := by
        obtain ⟨d, hd, hlen⟩ := h
        rcases List.mem_cons.1 hd with rfl | hd
        · exact absurd hlen hc
        · exact ⟨d, hd, hlen⟩
      rw [List.length_cons, ih hrest, List.length_cons]

/-! ## Every run ends -/

/-- With positive sizes no chunk is wanted to be empty. -/
theorem ideal_pos {p : Partition} (hbase : 0 < p.base) (hlongest : 0 < p.longest) {index : Nat}
    (h : 0 < index) : 0 < p.ideal index := by
  unfold ideal
  split
  · exact Nat.mul_pos h hbase
  · exact hlongest

theorem cut_cuts {p : Partition} (hbase : 0 < p.base) (hlongest : 0 < p.longest) {index : Nat}
    (h : 0 < index) (gap : FrameRange) :
    Cuts p index gap (p.cut index gap).1 (p.cut index gap).2 ∧ 0 < (p.cut index gap).2 := by
  induction index, gap using Partition.cut.induct p with
  | case1 index gap size hcut _ _ _ ih =>
    rw [Partition.cut, if_pos hcut]
    have hrest := ih (by omega)
    exact ⟨.next hcut.2 hcut.1 hrest.1, hrest.2⟩
  | case2 index gap size hcut =>
    rw [Partition.cut, if_neg hcut]
    -- an ideal size is never the reason to stop
    have hsize : ¬ p.ideal index + p.base < gap.length :=
      fun hlt => hcut ⟨ideal_pos hbase hlongest h, hlt⟩
    exact ⟨.last hsize, Nat.succ_pos index⟩

theorem cutAll_cutsAll {p : Partition} (hbase : 0 < p.base) (hlongest : 0 < p.longest) {index : Nat}
    (h : 0 < index) (gaps : List FrameRange) : CutsAll p index gaps (p.cutAll index gaps) := by
  induction gaps generalizing index with
  | nil => exact .nil index
  | cons gap rest ih =>
    obtain ⟨hcut, hnext⟩ := cut_cuts hbase hlongest h gap
    exact .cons hcut (ih hnext)

/-- As many halvings as chunks are missing always suffice. -/
theorem fill_fills {p : Partition} (hp : 0 < p.shortest ∨ 0 < p.halveAbove) {missing : Nat}
    {chunks : List FrameRange} (h : missing = p.workers - chunks.length) :
    Fills p chunks (p.fill missing chunks) := by
  induction missing generalizing chunks with
  | zero => exact .done (.inl (Nat.le_of_sub_eq_zero h.symm))
  | succ n ih =>
    rw [Partition.fill]
    split
    · rename_i hc
      rw [Bool.and_eq_true, Bool.not_eq_true', List.isEmpty_eq_false_iff] at hc
      obtain ⟨hne, hhalves⟩ := hc
      have hlen := length_halveFirst (exists_largest hne)
      have hopen : ¬ p.IsFilled chunks := by
        rintro (h1 | h1 | h1)
        · omega
        · exact hne h1
        · rw [h1] at hhalves
          cases hhalves
      exact .halve hopen (two_le_of_halves hp hhalves) (ih (by omega))
    · rename_i hc
      rw [Bool.and_eq_true, Bool.not_eq_true', List.isEmpty_eq_false_iff, not_and_or,
        Bool.not_eq_true, not_not] at hc
      exact .done (.inr hc)

/-- **Cutting and halving end** in the chunks of the partition. -/
theorem chunks_run {p : Partition} (hbase : 0 < p.base) (hlongest : 0 < p.longest)
    (hp : 0 < p.shortest ∨ 0 < p.halveAbove) (hworkers : 1 < p.workers) (gaps : List FrameRange) :
    ∃ cs, CutsAll p 1 gaps cs ∧ Fills p cs (p.chunks gaps) := by
  refine ⟨p.cutAll 1 gaps, cutAll_cutsAll hbase hlongest Nat.one_pos gaps, ?_⟩
  rw [chunks, if_neg (by omega)]
  exact fill_fills hp rfl

/-! ## What chunks keep of their gaps -/

theorem Tiles.ends {r : FrameRange} {cs : List FrameRange} (h : Tiles r cs) :
    cs.head?.map start = some r.start ∧ cs.getLast?.map stop = some r.stop := by
  induction h with
  | whole r => exact ⟨rfl, rfl⟩
  | @cut a m b cs _ _ ht ih =>
    refine ⟨rfl, ?_⟩
    have hne : cs ≠ [] := by
      rintro rfl
      cases ih.1
    rw [List.getLast?_cons_of_ne_nil hne]
    exact ih.2

theorem Refines.ends {gs cs : List FrameRange} (h : Refines gs cs) :
    cs.head?.map start = gs.head?.map start ∧ cs.getLast?.map stop = gs.getLast?.map stop := by
  induction h with
  | nil => exact ⟨rfl, rfl⟩
  | @gap g gs cs ds ht hr ih =>
    obtain ⟨hstart, hstop⟩ := ht.ends
    constructor
    · rw [List.head?_append, Option.map_or, hstart]
      rfl
    · cases hr with
      | nil =>
        rw [List.append_nil]
        exact hstop
      | @gap g' gs' cs' ds' ht' hr' =>
        have hne : (g' :: gs') ≠ [] := List.cons_ne_nil _ _
        rw [List.getLast?_append, Option.map_or, ih.2, List.getLast?_cons_of_ne_nil hne,
          List.getLast?_eq_some_getLast hne]
        rfl

/-- There are chunks enough, or there is nothing to cut, or a largest chunk is not worth halving. -/
theorem chunks_isFilled {p : Partition} {gaps : List FrameRange}
    (h : p.IsFilled (p.chunks gaps)) (hgaps : Refines gaps (p.chunks gaps)) :
    p.workers ≤ (p.chunks gaps).length ∨ (gaps = [] ∧ p.chunks gaps = []) ∨
      ∃ c ∈ p.chunks gaps, (∀ d ∈ p.chunks gaps, d.length ≤ c.length) ∧
        (c.length ≤ p.halveAbove ∨ c.length / 2 < p.shortest) := by
  rcases h with h | h | h
  · exact .inl h
  · refine .inr (.inl ⟨?_, h⟩)
    have htotal := hgaps.total_eq
    rw [h] at htotal
    exact total_eq_zero htotal.symm
  · by_cases hne : p.chunks gaps = []
    · exact .inr (.inl ⟨total_eq_zero (by rw [← hgaps.total_eq, hne]; rfl), hne⟩)
    · obtain ⟨c, hc, hlen⟩ := exists_largest hne
      refine .inr (.inr ⟨c, hc, fun d hd => ?_, ?_⟩)
      · rw [hlen]
        exact length_le_largest hd
      · rw [← hlen, halves, Bool.and_eq_false_iff, decide_eq_false_iff_not,
          decide_eq_false_iff_not] at h
        omega

/-- **Chunks partition their gaps.** With positive sizes both loops end without an empty range, the
chunks tile the gaps one after the other, and no two start together. -/
theorem chunks_partition_gaps {p : Partition} (hbase : 1 ≤ p.base) (hlongest : 1 ≤ p.longest)
    (hp : 1 ≤ p.shortest ∨ 1 ≤ p.halveAbove) {gaps : List FrameRange} (hgaps : Ordered gaps) :
    (1 < p.workers → ∃ cs, CutsAll p 1 gaps cs ∧ Fills p cs (p.chunks gaps)) ∧
      (∀ c ∈ p.chunks gaps, c.start ≤ c.stop) ∧
      Refines gaps (p.chunks gaps) ∧
      total (p.chunks gaps) = total gaps ∧
      (p.chunks gaps).head?.map start = gaps.head?.map start ∧
      (p.chunks gaps).getLast?.map stop = gaps.getLast?.map stop ∧
      (p.chunks gaps).Pairwise (fun c d => c.start < d.start) ∧
      (p.workers ≤ 1 → p.chunks gaps = gaps) ∧
      (1 < p.workers → p.workers ≤ (p.chunks gaps).length ∨ (gaps = [] ∧ p.chunks gaps = []) ∨
        ∃ c ∈ p.chunks gaps, (∀ d ∈ p.chunks gaps, d.length ≤ c.length) ∧
          (c.length ≤ p.halveAbove ∨ c.length / 2 < p.shortest)) := by
  have hrefines := refines_chunks hp gaps
  have hrun := fun hworkers => chunks_run hbase hlongest hp hworkers gaps
  have hordered := hrefines.ordered hgaps
  refine ⟨hrun, hordered.valid, hrefines, hrefines.total_eq, hrefines.ends.1, hrefines.ends.2,
    hordered.starts_rising, fun h => ?_, fun h => ?_⟩
  · rw [chunks, if_pos h]
  · obtain ⟨cs, -, hfills⟩ := hrun h
    exact chunks_isFilled hfills.isFilled hrefines

/-- Numbers run on from gap to gap, and the second gap is halved for the fourth worker. -/
theorem chunks_partition_gaps_two_gaps :
    let p : Partition := ⟨4, 100, 300, 40, 80⟩
    let gaps : List FrameRange := [⟨0, 249⟩, ⟨500, 849⟩]
    (1 ≤ p.base ∧ 1 ≤ p.longest ∧ (1 ≤ p.shortest ∨ 1 ≤ p.halveAbove) ∧ Ordered gaps) ∧
      p.chunks gaps = [⟨0, 99⟩, ⟨100, 249⟩, ⟨500, 674⟩, ⟨675, 849⟩] ∧
      Refines gaps [⟨0, 99⟩, ⟨100, 249⟩, ⟨500, 674⟩, ⟨675, 849⟩] := by
  intro p gaps
  have hgaps : Ordered gaps :=
    Ordered.cons (by decide) (by decide) (Ordered.cons (by decide) (by decide) Ordered.nil)
  have hchunks : p.chunks gaps = [⟨0, 99⟩, ⟨100, 249⟩, ⟨500, 674⟩, ⟨675, 849⟩] := by cbv
  have h := chunks_partition_gaps (p := p) (by decide) (by decide) (.inl (by decide)) hgaps
  exact ⟨⟨by decide, by decide, .inl (by decide), hgaps⟩, hchunks, hchunks ▸ h.2.2.1⟩

end Partition

end Restoration
