import Restoration.Proofs.Frames.Layout
import Restoration.Proofs.Frames.Partition
import Restoration.Proofs.Job.FileName

/-!
# Resuming closes the gaps

Work is taken up again on the gaps of a layout, as they are or cut into chunks. Each chunk leaves a
fragment of its first frames, as many as its encoder got done. Laying these beside the fragments
that were accepted before turns away nothing but empty ones, because chunks tile gaps and gaps
share no frame with what is done:

    framesLeft after + frames counted = framesLeft before           (resume_closes_gaps)
-/

namespace Restoration

/-- The fragment of a chunk, if so many of its frames are encoded. -/
def Job.chunkFragment (j : Job) (count : FrameRange → Nat) (c : FrameRange) : Fragment :=
  ⟨j.path (.fragment c.start), c.start, count c⟩

/-- The fragment that is found under the name of a chunk's file. -/
def Job.foundFragment? (j : Job) (count : FrameRange → Nat) (c : FrameRange) : Option Fragment :=
  match j.classify (j.fileName (.fragment c.start)) with
  | .start n => some ⟨j.path (.fragment c.start), n, count c⟩
  | _ => none

/-- The frames that are counted over all chunks. -/
def FrameRange.counted (count : FrameRange → Nat) (chunks : List FrameRange) : Nat :=
  chunks.foldr (fun c n => count c + n) 0

namespace Layout

open FrameRange

/-! ## Fragments that are not in each other's way -/

theorem accepted_filter_pos (fs : List Fragment) (total : Nat) :
    (ofFragments fs total).accepted.filter (0 < ·.frames) = (ofFragments fs total).accepted := by
  refine List.filter_eq_self.2 fun f hf => ?_
  exact decide_eq_true (ofFragments_accepted fs total f hf).1

theorem accepted_filter_zero (fs : List Fragment) (total : Nat) :
    (ofFragments fs total).accepted.filter (·.frames = 0) = [] := by
  refine List.filter_eq_nil_iff.2 fun f hf => ?_
  have := (ofFragments_accepted fs total f hf).1
  simp only [decide_eq_true_eq]
  omega

section apart

variable {fs : List Fragment} {total : Nat}
  (hstart : ∀ f ∈ fs, 0 < f.frames → f.start < total)
  (hapart : (fs.filter (0 < ·.frames)).Pairwise fun f g => Apart (f.range total) (g.range total))

include hstart hapart

/-- Among such fragments only the empty ones are turned away. -/
theorem frames_eq_zero_of_rejected : ∀ f ∈ (ofFragments fs total).rejected, f.frames = 0 := by
  intro f hf
  have hperm := ofFragments_perm fs total
  by_contra hne
  have hpos : 0 < f.frames := Nat.pos_of_ne_zero hne
  have hlt := hstart f (hperm.mem_iff.1 (List.mem_append_right _ hf)) hpos
  rcases ofFragments_rejected fs total f hf with h | h | ⟨g, hg, h⟩
  · exact hne h
  · omega
  · -- then the first frame of `f` is in the ranges of both
    have hsym : ∀ f g : Fragment, Apart (f.range total) (g.range total) →
        Apart (g.range total) (f.range total) := fun _ _ h => h.symm
    have hboth := ((hperm.filter (0 < ·.frames)).pairwise_iff (hsym _ _)).2 hapart
    rw [List.filter_append, List.pairwise_append] at hboth
    have hgpos := (ofFragments_accepted fs total g hg).1
    refine hboth.2.2 g (List.mem_filter.2 ⟨hg, by simpa using hgpos⟩) f
      (List.mem_filter.2 ⟨hf, by simpa using hpos⟩) f.start ⟨h, ?_⟩
    simp only [holds, Fragment.range]
    omega

theorem accepted_perm_of_apart :
    (ofFragments fs total).accepted.Perm (fs.filter (0 < ·.frames)) := by
  have hrej := frames_eq_zero_of_rejected hstart hapart
  have h := (ofFragments_perm fs total).filter (0 < ·.frames)
  rw [List.filter_append, accepted_filter_pos, List.filter_eq_nil_iff.2, List.append_nil] at h
  · exact h
  · intro f hf
    simp [hrej f hf]

theorem rejected_perm_of_apart :
    (ofFragments fs total).rejected.Perm (fs.filter (·.frames = 0)) := by
  have hrej := frames_eq_zero_of_rejected hstart hapart
  have h := (ofFragments_perm fs total).filter (·.frames = 0)
  rw [List.filter_append, accepted_filter_zero, List.filter_eq_self.2, List.nil_append] at h
  · exact h
  · intro f hf
    exact decide_eq_true (hrej f hf)

end apart

/-! ## The fragments of chunks -/

theorem mem_chunk {fragments : List Fragment} {total : Nat} {chunks : List FrameRange}
    (hchunks : Partition.Refines (ofFragments fragments total).left chunks) :
    ∀ c ∈ chunks, c.start ≤ c.stop ∧ c.stop < total := by
  have hleft := ofFragments_left_mem fragments total
  have hvalid := hchunks.valid fun r hr => (hleft r hr).1
  intro c hc
  have hstop : c.stop ∈ framesOf (ofFragments fragments total).left := by
    rw [← hchunks.framesOf_eq, mem_framesOf hvalid]
    exact ⟨c, hc, hvalid c hc, Nat.le_refl _⟩
  rw [mem_framesOf fun r hr => (hleft r hr).1] at hstop
  obtain ⟨r, hr, hrs⟩ := hstop
  exact ⟨hvalid c hc, Nat.lt_of_le_of_lt hrs.2 (hleft r hr).2⟩

/-- A fragment of a chunk counts for as many frames from the start of the chunk as it holds. -/
theorem range_chunkFragment (j : Job) {total : Nat} {count : FrameRange → Nat} {c : FrameRange}
    (hc : c.start ≤ c.stop ∧ c.stop < total) (hle : count c ≤ c.length) (hpos : 0 < count c) :
    (j.chunkFragment count c).range total = ⟨c.start, c.start + count c - 1⟩ ∧
      c.start + count c - 1 ≤ c.stop := by
  simp only [length] at hle
  simp only [Job.chunkFragment, Fragment.range, FrameRange.mk.injEq, true_and]
  omega

theorem foundFragment?_eq (j : Job) (count : FrameRange → Nat) {c : FrameRange}
    (h : c.start < Numeral.word) : j.foundFragment? count c = some (j.chunkFragment count c) := by
  rw [Job.foundFragment?, Job.classify_fragment j h]
  rfl

theorem total_credits (count : FrameRange → Nat) (chunks : List FrameRange) :
    total ((chunks.filter (0 < count ·)).map fun c => ⟨c.start, c.start + count c - 1⟩) =
      counted count chunks := by
  induction chunks with
  | nil => rfl
  | cons c rest ih =>
    rw [List.filter_cons]
    simp only [counted, List.foldr_cons] at ih ⊢
    split
    · rename_i h
      rw [decide_eq_true_eq] at h
      simp only [List.map_cons, total, List.foldr_cons, length] at ih ⊢
      omega
    · rename_i h
      rw [decide_eq_true_eq] at h
      omega

theorem counted_length (chunks : List FrameRange) : counted length chunks = total chunks := rfl

theorem counted_congr {f g : FrameRange → Nat} {chunks : List FrameRange}
    (h : ∀ c ∈ chunks, f c = g c) : counted f chunks = counted g chunks := by
  induction chunks with
  | nil => rfl
  | cons c rest ih =>
    simp only [counted, List.foldr_cons] at ih ⊢
    rw [h c List.mem_cons_self, ih fun d hd => h d (List.mem_cons_of_mem _ hd)]

/-! ## Resuming -/

/-- What is listed and holds frames was accepted before, or belongs to a chunk that counts. -/
theorem listed_filter_pos (j : Job) {fragments listed : List Fragment} {total : Nat}
    {chunks : List FrameRange} {count : FrameRange → Nat}
    (hlisted : listed.Perm
      ((ofFragments fragments total).accepted ++ chunks.map (j.chunkFragment count))) :
    (listed.filter (0 < ·.frames)).Perm ((ofFragments fragments total).accepted ++
      (chunks.filter (0 < count ·)).map (j.chunkFragment count)) := by
  have h := hlisted.filter (0 < ·.frames)
  rw [List.filter_append, List.filter_map, accepted_filter_pos] at h
  exact h

theorem listed_filter_zero (j : Job) {fragments listed : List Fragment} {total : Nat}
    {chunks : List FrameRange} {count : FrameRange → Nat}
    (hlisted : listed.Perm
      ((ofFragments fragments total).accepted ++ chunks.map (j.chunkFragment count))) :
    (listed.filter (·.frames = 0)).Perm
      ((chunks.filter (count · = 0)).map (j.chunkFragment count)) := by
  have h := hlisted.filter (·.frames = 0)
  rw [List.filter_append, List.filter_map, accepted_filter_zero, List.nil_append] at h
  exact h

section resuming

variable (j : Job) {fragments : List Fragment} {total : Nat} {chunks : List FrameRange}
  {count : FrameRange → Nat} {listed : List Fragment}
  (hchunks : Partition.Refines (ofFragments fragments total).left chunks)
  (hcount : ∀ c ∈ chunks, count c ≤ c.length)
  (hlisted : listed.Perm
    ((ofFragments fragments total).accepted ++ chunks.map (j.chunkFragment count)))

include hchunks

theorem done_chunks_apart : ((ofFragments fragments total).done ++ chunks).Pairwise Apart := by
  refine apart_of_nodup (fun r hr => ?_) ?_
  · rcases List.mem_append.1 hr with hr | hr
    · exact (ofFragments_done_mem fragments total r hr).1
    · exact (mem_chunk hchunks r hr).1
  · rw [framesOf_append, hchunks.framesOf_eq]
    exact (ofFragments_frames fragments total).nodup_iff.2 List.nodup_range'

include hcount

/-- What chunks add does not overlap what was accepted before, nor each other. -/
theorem fragments_apart :
    ((ofFragments fragments total).accepted ++
        (chunks.filter (0 < count ·)).map (j.chunkFragment count)).Pairwise
      fun f g => Apart (f.range total) (g.range total) := by
  have hall := List.pairwise_append.1 (done_chunks_apart hchunks)
  have hdone := ofFragments_done_eq fragments total
  -- a fragment holds no frame outside its chunk
  have hin : ∀ c ∈ chunks.filter (0 < count ·), ∀ n,
      ((j.chunkFragment count c).range total).holds n → c.holds n := by
    intro c hc n hn
    obtain ⟨hc, hpos⟩ := List.mem_filter.1 hc
    obtain ⟨heq, hle⟩ := range_chunkFragment j (mem_chunk hchunks c hc) (hcount c hc)
      (of_decide_eq_true hpos)
    rw [heq] at hn
    exact ⟨hn.1, Nat.le_trans hn.2 hle⟩
  refine List.pairwise_append.2 ⟨?_, ?_, ?_⟩
  · rw [hdone, List.pairwise_map] at hall
    exact hall.1
  · rw [List.pairwise_map]
    refine (hall.2.1.sublist List.filter_sublist).imp_of_mem fun {c d} hc hd hcd n hn => ?_
    exact hcd n ⟨hin c hc n hn.1, hin d hd n hn.2⟩
  · intro f hf g hg n hn
    obtain ⟨c, hc, rfl⟩ := List.mem_map.1 hg
    have hfd : f.range total ∈ (ofFragments fragments total).done := by
      rw [hdone]
      exact List.mem_map_of_mem hf
    exact hall.2.2 _ hfd c (List.mem_filter.1 hc).1 n ⟨hn.1, hin c hc n hn.2⟩

include hlisted

omit hcount in
theorem listed_start : ∀ f ∈ listed, 0 < f.frames → f.start < total := by
  intro f hf hpos
  rcases List.mem_append.1 (hlisted.mem_iff.1 hf) with h | h
  · exact (ofFragments_accepted fragments total f h).2
  · obtain ⟨c, hc, rfl⟩ := List.mem_map.1 h
    have := mem_chunk hchunks c hc
    simp only [Job.chunkFragment]
    omega

theorem listed_apart : (listed.filter (0 < ·.frames)).Pairwise
    fun f g => Apart (f.range total) (g.range total) := by
  have hsym : ∀ f g : Fragment, Apart (f.range total) (g.range total) →
      Apart (g.range total) (f.range total) := fun _ _ h => h.symm
  exact ((listed_filter_pos j hlisted).pairwise_iff (hsym _ _)).2
    (fragments_apart j hchunks hcount)

theorem resumed_accepted : (ofFragments listed total).accepted.Perm
    ((ofFragments fragments total).accepted ++
      (chunks.filter (0 < count ·)).map (j.chunkFragment count)) :=
  (accepted_perm_of_apart (listed_start j hchunks hlisted)
    (listed_apart j hchunks hcount hlisted)).trans (listed_filter_pos j hlisted)

theorem resumed_rejected : (ofFragments listed total).rejected.Perm
    ((chunks.filter (count · = 0)).map (j.chunkFragment count)) :=
  (rejected_perm_of_apart (listed_start j hchunks hlisted)
    (listed_apart j hchunks hcount hlisted)).trans (listed_filter_zero j hlisted)

theorem resumed_done : (ofFragments listed total).done.Perm
    ((ofFragments fragments total).done ++
      (chunks.filter (0 < count ·)).map fun c => ⟨c.start, c.start + count c - 1⟩) := by
  have h := (resumed_accepted j hchunks hcount hlisted).map (Fragment.range total)
  have hcredit : ((chunks.filter (0 < count ·)).map (j.chunkFragment count)).map
        (Fragment.range total) =
      (chunks.filter (0 < count ·)).map fun c => ⟨c.start, c.start + count c - 1⟩ := by
    rw [List.map_map]
    refine List.map_congr_left fun c hc => ?_
    obtain ⟨hc, hpos⟩ := List.mem_filter.1 hc
    exact (range_chunkFragment j (mem_chunk hchunks c hc) (hcount c hc)
      (of_decide_eq_true hpos)).1
  rw [List.map_append, hcredit] at h
  rw [ofFragments_done_eq listed, ofFragments_done_eq fragments]
  exact h

theorem resumed_left : FrameRange.total (ofFragments listed total).left + counted count chunks =
    FrameRange.total (ofFragments fragments total).left := by
  have h := total_perm (resumed_done j hchunks hcount hlisted)
  rw [total_append, total_credits] at h
  have h1 : FrameRange.total (ofFragments listed total).done +
    FrameRange.total (ofFragments listed total).left = total := framesDone_add_framesLeft listed total
  have h2 : FrameRange.total (ofFragments fragments total).done +
    FrameRange.total (ofFragments fragments total).left = total :=
    framesDone_add_framesLeft fragments total
  omega

end resuming

/-- The chunks that workers are given tile the gaps. -/
theorem refines_of_chunks {gaps chunks : List FrameRange}
    (h : chunks = gaps ∨ ∃ workers, chunks = (Partition.of workers (total gaps)).chunks gaps) :
    Partition.Refines gaps chunks := by
  rcases h with rfl | ⟨workers, rfl⟩
  · exact .refl _
  · exact Partition.refines_chunks (.inl (show 0 < Partition.leastChunk by decide)) gaps

/-- **Resuming closes the gaps.** Chunks made from the gaps of a layout are encoded as far as
`count` says, and found again by their names: beside the accepted fragments, in any order, each
counts for exactly its frames, and no fragment that holds frames is turned away. -/
theorem resume_closes_gaps (j : Job) (fragments : List Fragment) (total : Nat)
    (htotal : total ≤ Numeral.word) (chunks : List FrameRange)
    (hchunks : chunks = (ofFragments fragments total).left ∨ ∃ workers, chunks =
      (Partition.of workers (FrameRange.total (ofFragments fragments total).left)).chunks
        (ofFragments fragments total).left)
    (count : FrameRange → Nat) (hcount : ∀ c ∈ chunks, count c ≤ c.length)
    (listed : List Fragment)
    (hlisted : listed.Perm
      ((ofFragments fragments total).accepted ++ chunks.filterMap (j.foundFragment? count))) :
    let before := ofFragments fragments total
    let after := ofFragments listed total
    after.rejected.Perm ((chunks.filter (count · = 0)).map (j.chunkFragment count)) ∧
      after.accepted.Perm
        (before.accepted ++ (chunks.filter (0 < count ·)).map (j.chunkFragment count)) ∧
      after.done.Perm
        (before.done ++ (chunks.filter (0 < count ·)).map fun c => ⟨c.start, c.start + count c - 1⟩) ∧
      (∀ c ∈ chunks, 0 < count c →
        (j.chunkFragment count c).range total = ⟨c.start, c.start + count c - 1⟩) ∧
      FrameRange.total after.left + counted count chunks = FrameRange.total before.left ∧
      ((∀ c ∈ chunks, count c = c.length) → after.left = []) := by
  have hrefines := refines_of_chunks hchunks
  have hfound : chunks.filterMap (j.foundFragment? count) = chunks.map (j.chunkFragment count) := by
    rw [← List.filterMap_eq_map]
    refine List.filterMap_congr fun c hc => foundFragment?_eq j count ?_
    have := mem_chunk hrefines c hc
    omega
  rw [hfound] at hlisted
  have hleft := resumed_left j hrefines hcount hlisted
  refine ⟨resumed_rejected j hrefines hcount hlisted, resumed_accepted j hrefines hcount hlisted,
    resumed_done j hrefines hcount hlisted, fun c hc hpos => ?_, hleft, fun hfull => ?_⟩
  · exact (range_chunkFragment j (mem_chunk hrefines c hc) (hcount c hc) hpos).1
  · rw [counted_congr hfull, counted_length, hrefines.total_eq] at hleft
    exact total_eq_zero (by omega)

/-- Two workers share the gap behind three frames; the first gets nothing done, the second 17. -/
theorem resume_closes_gaps_two_workers :
    let j : Job := { source := ⟨"clip.mkv"⟩, directory := ⟨"jobs"⟩, index := 1 }
    let before := ofFragments [⟨⟨"jobs/Job1_Output_0.mkv"⟩, 0, 3⟩] 100
    let chunks : List FrameRange := [⟨3, 42⟩, ⟨43, 99⟩]
    let count : FrameRange → Nat := fun c => c.length % 40
    let listed := before.accepted ++ chunks.filterMap (j.foundFragment? count)
    (100 ≤ Numeral.word ∧
      chunks = (Partition.of 2 (FrameRange.total before.left)).chunks before.left ∧
      ∀ c ∈ chunks, count c ≤ c.length) ∧
    FrameRange.total (ofFragments listed 100).left + 17 = 97 ∧
      (ofFragments listed 100).rejected.Perm [j.chunkFragment count ⟨3, 42⟩] := by
  intro j before chunks count listed
  have hword : 100 ≤ Numeral.word := by decide
  have hleft : (ofFragments [⟨⟨"jobs/Job1_Output_0.mkv"⟩, 0, 3⟩] 100).left = [⟨3, 99⟩] := by cbv
  have hcut : [⟨3, 42⟩, ⟨43, 99⟩] = (Partition.of 2 97).chunks [⟨3, 99⟩] := by cbv
  have hchunks : chunks = (Partition.of 2 (FrameRange.total before.left)).chunks before.left := by
    simp only [before, hleft]
    exact hcut
  have hcount : ∀ c ∈ chunks, count c ≤ c.length := fun c _ => Nat.mod_le _ _
  have h := resume_closes_gaps j _ 100 hword chunks (.inr ⟨2, hchunks⟩) count hcount listed (.refl _)
  have hsum := h.2.2.2.2.1
  rw [hleft] at hsum
  exact ⟨⟨hword, hchunks, hcount⟩, hsum, h.1⟩

end Layout

end Restoration
