import Restoration.Frames.Partition
import Restoration.Proofs.Frames.Range

/-!
# Chunks tile their gaps

Cutting and halving only ever replace a range by two ranges that follow each other. So the chunks
of a partition tile the gaps one after the other (`refines_chunks`), and hold the same frames in
the same order:

    framesOf (p.chunks gaps) = framesOf gaps
-/

namespace Restoration

namespace Partition

open FrameRange

/-- The chunks follow each other from the first frame of the range to its last. -/
inductive Tiles : FrameRange → List FrameRange → Prop
  | whole (r : FrameRange) : Tiles r [r]
  | cut {a m b : Nat} {cs : List FrameRange} :
      a ≤ m → m < b → Tiles ⟨m + 1, b⟩ cs → Tiles ⟨a, b⟩ (⟨a, m⟩ :: cs)

/-- The chunks tile the gaps, one gap after the other. -/
inductive Refines : List FrameRange → List FrameRange → Prop
  | nil : Refines [] []
  | gap {g : FrameRange} {gs cs ds : List FrameRange} :
      Tiles g cs → Refines gs ds → Refines (g :: gs) (cs ++ ds)

/-! ## What tiling keeps -/

theorem Tiles.framesOf_eq {r : FrameRange} {cs : List FrameRange} (h : Tiles r cs) :
    framesOf cs = r.frames := by
  induction h with
  | whole r => simp
  | @cut a m b cs h1 h2 _ ih =>
    rw [framesOf_cons, ih]
    exact frames_split ⟨a, b⟩ m h1 h2

theorem Tiles.valid {r : FrameRange} {cs : List FrameRange} (h : Tiles r cs)
    (hr : r.start ≤ r.stop) : ∀ c ∈ cs, c.start ≤ c.stop := by
  induction h with
  | whole r => simpa using hr
  | cut h1 h2 _ ih =>
    intro c hc
    rcases List.mem_cons.1 hc with rfl | hc
    · exact h1
    · exact ih h2 c hc

theorem Refines.refl (gs : List FrameRange) : Refines gs gs := by
  induction gs with
  | nil => exact .nil
  | cons g gs ih => exact .gap (.whole g) ih

theorem Refines.framesOf_eq {gs cs : List FrameRange} (h : Refines gs cs) :
    framesOf cs = framesOf gs := by
  induction h with
  | nil => rfl
  | gap ht _ ih => rw [framesOf_append, ht.framesOf_eq, ih, framesOf_cons]

theorem Refines.valid {gs cs : List FrameRange} (h : Refines gs cs)
    (hg : ∀ g ∈ gs, g.start ≤ g.stop) : ∀ c ∈ cs, c.start ≤ c.stop := by
  induction h with
  | nil => simp
  | gap ht _ ih =>
    intro c hc
    rcases List.mem_append.1 hc with hc | hc
    · exact ht.valid (hg _ List.mem_cons_self) c hc
    · exact ih (fun g hg' => hg g (List.mem_cons_of_mem _ hg')) c hc

theorem Refines.total_eq {gs cs : List FrameRange} (h : Refines gs cs) : total cs = total gs := by
  rw [← length_framesOf, ← length_framesOf, h.framesOf_eq]

theorem Refines.ordered {gs cs : List FrameRange} (h : Refines gs cs) (hg : Ordered gs) :
    Ordered cs := by
  rw [ordered_iff] at hg ⊢
  rw [h.framesOf_eq]
  exact ⟨h.valid hg.1, hg.2⟩

/-- No tile ends behind all gaps. -/
theorem Refines.stop_lt {gs cs : List FrameRange} (h : Refines gs cs) (hg : ∀ g ∈ gs, g.start ≤ g.stop)
    {bound : Nat} (hbound : ∀ g ∈ gs, g.stop < bound) : ∀ c ∈ cs, c.stop < bound := by
  intro c hc
  have hvalid := h.valid hg
  have hmem : c.stop ∈ framesOf cs :=
    (mem_framesOf hvalid _).2 ⟨c, hc, hvalid c hc, Nat.le_refl _⟩
  rw [h.framesOf_eq, mem_framesOf hg] at hmem
  obtain ⟨g, hgmem, hholds⟩ := hmem
  exact Nat.lt_of_le_of_lt hholds.2 (hbound g hgmem)

/-! ## Cutting -/

theorem cut_tiles (p : Partition) (index : Nat) (gap : FrameRange) :
    Tiles gap (p.cut index gap).1 := by
  induction index, gap using Partition.cut.induct p with
  | case1 index gap size h _ _ _ ih =>
    rw [Partition.cut, if_pos h]
    have hlen := h.2
    have hpos := h.1
    unfold length at hlen
    have hm : gap.start + size - 1 + 1 = gap.start + size := by omega
    refine Tiles.cut (by omega) (by omega) ?_
    rw [hm]
    exact ih
  | case2 index gap size h =>
    rw [Partition.cut, if_neg h]
    exact .whole gap

theorem cutAll_refines (p : Partition) (index : Nat) (gaps : List FrameRange) :
    Refines gaps (p.cutAll index gaps) := by
  induction gaps generalizing index with
  | nil => exact .nil
  | cons gap rest ih => exact .gap (cut_tiles p index gap) (ih _)

/-! ## Halving -/

/-- A range of two or more frames is tiled by its halves, whatever follows them. -/
theorem tiles_halves {a b len : Nat} (hlen : 2 ≤ len) (h : length ⟨a, b⟩ = len) :
    a ≤ a + len / 2 - 1 ∧ a + len / 2 - 1 < b ∧ a + len / 2 - 1 + 1 = a + len / 2 := by
  simp only [length] at h
  omega

/-- The first chunk of a length stands among the tiles of the first gap or behind them. -/
theorem Tiles.halveFirst {len : Nat} (hlen : 2 ≤ len) {g : FrameRange} {cs : List FrameRange}
    (h : Tiles g cs) (ds : List FrameRange) :
    (∃ cs', Tiles g cs' ∧ Partition.halveFirst len (cs ++ ds) = cs' ++ ds) ∨
      Partition.halveFirst len (cs ++ ds) = cs ++ Partition.halveFirst len ds := by
  induction h with
  | whole r =>
    by_cases hr : r.length = len
    · obtain ⟨h1, h2, h3⟩ := tiles_halves hlen hr
      refine .inl ⟨[⟨r.start, r.start + len / 2 - 1⟩, ⟨r.start + len / 2, r.stop⟩],
        .cut h1 h2 ?_, ?_⟩
      · rw [h3]
        exact .whole _
      · rw [List.singleton_append, Partition.halveFirst, if_pos hr]
        rfl
    · right
      rw [List.singleton_append, Partition.halveFirst, if_neg hr]
      rfl
  | @cut a m b cs h1 h2 ht ih =>
    by_cases hr : length ⟨a, m⟩ = len
    · obtain ⟨h3, h4, h5⟩ := tiles_halves hlen hr
      refine .inl ⟨⟨a, a + len / 2 - 1⟩ :: ⟨a + len / 2, m⟩ :: cs, .cut h3 (by omega) ?_, ?_⟩
      · rw [h5]
        exact .cut (by omega) h2 ht
      · rw [List.cons_append, Partition.halveFirst, if_pos hr]
        rfl
    · have hstep : Partition.halveFirst len (⟨a, m⟩ :: cs ++ ds) =
          ⟨a, m⟩ :: Partition.halveFirst len (cs ++ ds) := by
        rw [List.cons_append, Partition.halveFirst, if_neg hr]
      rw [hstep]
      rcases ih with ⟨cs', ht', h⟩ | h
      · exact .inl ⟨_, .cut h1 h2 ht', by rw [h, List.cons_append]⟩
      · exact .inr (by rw [h, List.cons_append])

theorem Refines.halveFirst {len : Nat} (hlen : 2 ≤ len) {gs cs : List FrameRange}
    (h : Refines gs cs) : Refines gs (Partition.halveFirst len cs) := by
  induction h with
  | nil => exact .nil
  | @gap g gs cs ds ht hr ih =>
    rcases ht.halveFirst hlen ds with ⟨cs', ht', h⟩ | h
    · rw [h]
      exact .gap ht' hr
    · rw [h]
      exact .gap ht ih

theorem two_le_of_halves {p : Partition} (hp : 0 < p.shortest ∨ 0 < p.halveAbove) {len : Nat}
    (h : p.halves len = true) : 2 ≤ len := by
  simp only [halves, Bool.and_eq_true, decide_eq_true_eq] at h
  omega

theorem Refines.fill {p : Partition} (hp : 0 < p.shortest ∨ 0 < p.halveAbove)
    {gs cs : List FrameRange} (missing : Nat) (h : Refines gs cs) :
    Refines gs (p.fill missing cs) := by
  induction missing generalizing cs with
  | zero => exact h
  | succ n ih =>
    rw [Partition.fill]
    split
    · rename_i hc
      rw [Bool.and_eq_true] at hc
      exact ih (h.halveFirst (two_le_of_halves hp hc.2))
    · exact h

/-- **Chunks tile their gaps**, if no half can be empty. -/
theorem refines_chunks {p : Partition} (hp : 0 < p.shortest ∨ 0 < p.halveAbove)
    (gaps : List FrameRange) : Refines gaps (p.chunks gaps) := by
  rw [chunks]
  split
  · exact .refl gaps
  · exact (cutAll_refines p 1 gaps).fill hp _

end Partition

end Restoration
