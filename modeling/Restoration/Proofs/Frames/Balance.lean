import Restoration.Proofs.Frames.Schedule

/-!
# Balanced chunks in words

Sizes, cuts and halves are computed with words. Here stand all numbers on the way, as exact
arithmetic gives them: nothing is taken from less, and nothing outgrows a word, as for up to 255
workers and any number of frames

    base * (workers + 1) < 2 ^ 64                                     (of_longest_add_base_lt)

which is tight: two workers get there with the last number of frames that a word can hold. Together
with the schedule this makes chunks balanced (`chunks_balanced`).
-/

namespace Restoration

namespace Partition

open FrameRange

variable {p : Partition}

/-! ## Computed numbers -/

/-- Can a word hold the number? -/
def InWord (v : Int) : Prop := 0 ≤ v ∧ v < Numeral.word

/-- What is computed for the sizes. -/
def sizeValues (workers frames : Nat) : List Int :=
  let p := of workers frames
  let steps := p.workers * (p.workers + 1) / 2
  [p.workers + 1, (p.workers * (p.workers + 1) : Nat), steps, (frames / steps : Nat),
    (frames % steps : Nat), ((frames + steps - 1) / steps : Nat), p.base, p.longest]

/-- What is computed to cut a gap. -/
def cutValues (p : Partition) (index : Nat) (gap : FrameRange) : List Int :=
  let size := p.ideal index
  [(gap.stop : Int) - gap.start, (gap.stop : Int) - gap.start + 1, size, index + 1, size + p.base] ++
    if 0 < size ∧ size + p.base < gap.length then
      [(gap.start : Int) + size, (gap.start : Int) + size - 1] ++
        p.cutValues (index + 1) ⟨gap.start + size, gap.stop⟩
    else []
termination_by gap.length
decreasing_by simp only [FrameRange.length] at *; omega

/-- What is computed to cut all gaps. -/
def cutAllValues (p : Partition) (index : Nat) : List FrameRange → List Int
  | [] => []
  | gap :: rest => p.cutValues index gap ++ p.cutAllValues (p.cut index gap).2 rest

/-- What is computed for the length of a range. -/
def lengthValues (c : FrameRange) : List Int := [(c.stop : Int) - c.start, (c.stop : Int) - c.start + 1]

/-- What is computed to halve the first chunk of the given length, where the first one of the list
stands at `position`. -/
def halveValues (len position : Nat) : List FrameRange → List Int
  | [] => []
  | c :: rest =>
    if c.length = len then
      [(c.start : Int) + (len / 2 : Nat), (c.start : Int) + (len / 2 : Nat) - 1, position + 1]
    else halveValues len (position + 1) rest

/-- What is computed to halve chunks while some are missing. -/
def fillValues (p : Partition) : Nat → List FrameRange → List Int
  | 0, _ => []
  | missing + 1, chunks =>
    chunks.flatMap lengthValues ++ [((largest chunks / 2 : Nat) : Int)] ++
      if !chunks.isEmpty && p.halves (largest chunks) then
        halveValues (largest chunks) 0 chunks ++
          p.fillValues missing (halveFirst (largest chunks) chunks)
      else []

/-- What is computed to divide gaps between workers. -/
def values (workers : Nat) (gaps : List FrameRange) : List Int :=
  let p := of workers (total gaps)
  sizeValues workers (total gaps) ++
    if p.workers ≤ 1 then []
    else
      let chunks := p.cutAll 1 gaps
      p.cutAllValues 1 gaps ++ p.fillValues (p.workers - chunks.length) chunks

/-! ## Sizes -/

section sizes

variable {workers frames : Nat}

/-- The longest chunk that cutting makes has a length that is a word. -/
theorem of_longest_add_base_lt (htwo : 2 ≤ workers) (hmost : workers ≤ 255)
    (hframes : frames < Numeral.word) :
    (of workers frames).longest + (of workers frames).base < Numeral.word := by
  have hword : Numeral.word = 2 ^ 64 := rfl
  have hsome : 1 ≤ workers := Nat.le_of_lt htwo
  have hpos : 0 < leastSteps workers workers := Nat.lt_of_lt_of_le hsome (le_leastSteps hsome workers)
  have hsteps := two_mul_leastSteps (Nat.le_refl workers)
  have hfew : workers * (workers + 1) ≤ 255 * 256 := Nat.mul_le_mul hmost (Nat.succ_le_succ hmost)
  have hceil := Nat.div_mul_le_self (frames + leastSteps workers workers - 1)
    (leastSteps workers workers)
  rw [of_longest, of_workers hsome, ← Nat.mul_add_one, of_base hsome]
  generalize (frames + leastSteps workers workers - 1) / leastSteps workers workers = ceil at hceil ⊢
  rcases Nat.le_total ceil leastChunk with h | h
  · rw [Nat.max_eq_left h, leastChunk]
    omega
  · rw [Nat.max_eq_right h]
    rcases Nat.eq_or_lt_of_le htwo with rfl | hthree
    · -- the last number below a word is a multiple of three, and rounding up does not pass it
      have hsum : leastSteps 2 2 = 3 := rfl
      rw [hsum] at hceil
      omega
    · have hwide : 3 * (ceil * (workers + 1)) ≤ 2 * (ceil * leastSteps workers workers) :=
        calc 3 * (ceil * (workers + 1)) ≤ workers * (ceil * (workers + 1)) :=
              Nat.mul_le_mul_right _ hthree
          _ = ceil * (2 * leastSteps workers workers) := by rw [hsteps, Nat.mul_left_comm]
          _ = 2 * (ceil * leastSteps workers workers) := Nat.mul_left_comm _ _ _
      omega

example : (of 2 (Numeral.word - 1)).longest + (of 2 (Numeral.word - 1)).base = Numeral.word - 1 := by
  decide +kernel

theorem of_longest_lt (hsome : 1 ≤ workers) (hmost : workers ≤ 255) (hframes : frames < Numeral.word) :
    (of workers frames).longest < Numeral.word := by
  rcases Nat.eq_or_lt_of_le hsome with rfl | htwo
  · -- one worker takes all frames at once
    have hword : Numeral.word = 2 ^ 64 := rfl
    have hone : leastSteps 1 1 = 1 := rfl
    rw [of_longest, of_workers (Nat.le_refl 1), of_base (Nat.le_refl 1), hone, leastChunk]
    omega
  · exact Nat.lt_of_le_of_lt (Nat.le_add_right _ _) (of_longest_add_base_lt htwo hmost hframes)

theorem sizeValues_inWord (hsome : 1 ≤ workers) (hmost : workers ≤ 255)
    (hframes : frames < Numeral.word) : ∀ v ∈ sizeValues workers frames, InWord v := by
  have hword : Numeral.word = 2 ^ 64 := rfl
  have hfew : workers * (workers + 1) ≤ 255 * 256 := Nat.mul_le_mul hmost (Nat.succ_le_succ hmost)
  have hlongest := of_longest_lt hsome hmost hframes
  have hbase : (of workers frames).base ≤ (of workers frames).longest := by
    rw [of_longest, of_workers hsome]
    exact Nat.le_mul_of_pos_right _ hsome
  have hceil : (frames + workers * (workers + 1) / 2 - 1) / (workers * (workers + 1) / 2) ≤
      (of workers frames).base := by
    rw [of_base hsome, steps_eq]
    exact Nat.le_max_right _ _
  have hquotient := Nat.div_le_self frames (workers * (workers + 1) / 2)
  have hrest := Nat.mod_le frames (workers * (workers + 1) / 2)
  simp only [sizeValues, of_workers hsome, List.forall_mem_cons, InWord]
  generalize (frames + workers * (workers + 1) / 2 - 1) / (workers * (workers + 1) / 2) = ceil at *
  generalize frames / (workers * (workers + 1) / 2) = quotient at *
  generalize frames % (workers * (workers + 1) / 2) = rest at *
  exact ⟨by omega, by omega, by omega, by omega, by omega, by omega, by omega, by omega, by simp⟩

end sizes

/-! ## Cutting -/

theorem cut_snd (p : Partition) (index : Nat) (gap : FrameRange) :
    (p.cut index gap).2 = index + (p.cut index gap).1.length := by
  induction index, gap using Partition.cut.induct p with
  | case1 index gap size h _ _ _ ih =>
    have hrest : (p.cut (index + 1) ⟨gap.start + p.ideal index, gap.stop⟩).2 =
        index + 1 + (p.cut (index + 1) ⟨gap.start + p.ideal index, gap.stop⟩).1.length := ih
    rw [Partition.cut, if_pos h]
    simp only [List.length_cons, hrest]
    omega
  | case2 index gap size h =>
    rw [Partition.cut, if_neg h]
    rfl

theorem cutValues_inWord (hsize : ∀ index, p.ideal index + p.base < Numeral.word) {index : Nat}
    {gap : FrameRange} (hvalid : gap.start ≤ gap.stop) (hstop : gap.stop + 1 < Numeral.word)
    (hcount : index + (p.cut index gap).1.length < Numeral.word) :
    ∀ v ∈ p.cutValues index gap, InWord v := by
  induction index, gap using Partition.cut.induct p with
  | case1 index gap size h _ _ _ ih =>
    have hcut : 0 < p.ideal index ∧ p.ideal index + p.base < gap.length := h
    have hlength := hcut.2
    have hhere := hsize index
    simp only [length] at hlength
    rw [Partition.cut, if_pos hcut, List.length_cons] at hcount
    rw [cutValues, if_pos hcut]
    have hrest : ∀ v ∈ p.cutValues (index + 1) ⟨gap.start + p.ideal index, gap.stop⟩, InWord v :=
      ih (show gap.start + p.ideal index ≤ gap.stop by omega) hstop
        (Nat.lt_of_le_of_lt (by rw [Nat.add_assoc, Nat.add_comm 1]) hcount)
    simp only [List.forall_mem_append, List.forall_mem_cons, InWord]
    refine ⟨⟨by omega, by omega, by omega, by omega, by omega, by simp⟩,
      ⟨by omega, by omega, by simp⟩, hrest⟩
  | case2 index gap size h =>
    rw [Partition.cut, if_neg h, List.length_singleton] at hcount
    rw [cutValues, if_neg h]
    have hhere := hsize index
    simp only [List.forall_mem_append, List.forall_mem_cons, InWord]
    refine ⟨⟨by omega, by omega, by omega, by omega, by omega, by simp⟩, by simp⟩

theorem cutAllValues_inWord (hsize : ∀ index, p.ideal index + p.base < Numeral.word)
    {gaps : List FrameRange} (hvalid : ∀ g ∈ gaps, g.start ≤ g.stop)
    (hstop : ∀ g ∈ gaps, g.stop + 1 < Numeral.word) {index : Nat}
    (hcount : index + (p.cutAll index gaps).length < Numeral.word) :
    ∀ v ∈ p.cutAllValues index gaps, InWord v := by
  induction gaps generalizing index with
  | nil => simp [cutAllValues]
  | cons gap rest ih =>
    obtain ⟨hvalidGap, hvalidRest⟩ := List.forall_mem_cons.1 hvalid
    obtain ⟨hstopGap, hstopRest⟩ := List.forall_mem_cons.1 hstop
    rw [cutAll, List.length_append] at hcount
    rw [cutAllValues, List.forall_mem_append]
    have hbehind := p.cut_snd index gap
    exact ⟨cutValues_inWord hsize hvalidGap hstopGap (by omega),
      ih hvalidRest hstopRest (by omega)⟩

/-! ## Halving -/

theorem halveValues_inWord {len position : Nat} (hlen : 2 ≤ len) {chunks : List FrameRange}
    (hstop : ∀ c ∈ chunks, c.stop + 1 < Numeral.word)
    (hposition : position + chunks.length < Numeral.word) :
    ∀ v ∈ halveValues len position chunks, InWord v := by
  induction chunks generalizing position with
  | nil => simp [halveValues]
  | cons c rest ih =>
    obtain ⟨hc, hrest⟩ := List.forall_mem_cons.1 hstop
    rw [List.length_cons] at hposition
    rw [halveValues]
    split
    · rename_i h
      simp only [length] at h
      simp only [List.forall_mem_cons, InWord]
      exact ⟨by omega, by omega, by omega, by simp⟩
    · exact ih hrest (by omega)

/-- Halves end where the chunk does, or ahead of it. -/
theorem stop_lt_of_mem_halveFirst {len bound : Nat} (hlen : 2 ≤ len) {chunks : List FrameRange}
    (h : ∀ c ∈ chunks, c.start ≤ c.stop ∧ c.stop < bound) :
    ∀ c ∈ halveFirst len chunks, c.start ≤ c.stop ∧ c.stop < bound := by
  intro c hc
  rcases mem_halveFirst hc with hc | ⟨d, hd, hlength, hc⟩
  · exact h c hc
  · have hbound := h d hd
    simp only [length] at hlength
    rcases hc with rfl | rfl <;> exact ⟨by dsimp only; omega, by dsimp only; omega⟩

theorem fillValues_inWord (hp : 0 < p.shortest ∨ 0 < p.halveAbove) {missing : Nat}
    {chunks : List FrameRange}
    (hchunks : ∀ c ∈ chunks, c.start ≤ c.stop ∧ c.stop < Numeral.word - 1)
    (hcount : chunks.length + missing < Numeral.word) :
    ∀ v ∈ p.fillValues missing chunks, InWord v := by
  induction missing generalizing chunks with
  | zero => simp [fillValues]
  | succ n ih =>
    have hlengths : ∀ v ∈ chunks.flatMap lengthValues, InWord v := by
      rw [List.forall_mem_flatMap]
      intro c hc
      have hbound := hchunks c hc
      simp only [lengthValues, List.forall_mem_cons, InWord]
      exact ⟨by omega, by omega, by simp⟩
    have hlargest : InWord ((largest chunks / 2 : Nat) : Int) := by
      have hlt : largest chunks < Numeral.word := by
        by_cases hne : chunks = []
        · rw [hne]
          decide
        · obtain ⟨c, hc, hlength⟩ := exists_largest hne
          have hbound := hchunks c hc
          rw [← hlength, length]
          omega
      exact ⟨by omega, by omega⟩
    rw [fillValues, List.forall_mem_append, List.forall_mem_append, List.forall_mem_singleton]
    refine ⟨⟨hlengths, hlargest⟩, ?_⟩
    split
    · rename_i hc
      rw [Bool.and_eq_true, Bool.not_eq_true', List.isEmpty_eq_false_iff] at hc
      have hlen := two_le_of_halves hp hc.2
      have hmore := length_halveFirst (exists_largest hc.1)
      rw [List.forall_mem_append]
      exact ⟨halveValues_inWord hlen (fun c hc => by have := hchunks c hc; omega) (by omega),
        ih (stop_lt_of_mem_halveFirst hlen hchunks) (by omega)⟩
    · simp

/-! ## Balance -/

section balance

variable {workers : Nat} {gaps : List FrameRange}

theorem of_cutsAll (hsome : 1 ≤ workers) (gaps : List FrameRange) :
    CutsAll (of workers (total gaps)) 1 gaps ((of workers (total gaps)).cutAll 1 gaps) := by
  have hbase : 0 < (of workers (total gaps)).base :=
    Nat.lt_of_lt_of_le (by decide) (leastChunk_le_base workers (total gaps))
  refine cutAll_cutsAll hbase ?_ Nat.one_pos gaps
  rw [of_longest, of_workers hsome]
  exact Nat.mul_pos hbase hsome

theorem of_fills (htwo : 2 ≤ workers) (gaps : List FrameRange) :
    Fills (of workers (total gaps)) ((of workers (total gaps)).cutAll 1 gaps)
      ((of workers (total gaps)).chunks gaps) := by
  have hworkers : (of workers (total gaps)).workers = workers := of_workers (Nat.le_of_lt htwo)
  rw [chunks, if_neg (by omega)]
  exact fill_fills (.inl (by decide : 0 < leastChunk)) rfl

theorem of_chunks_one (gaps : List FrameRange) : (of 1 (total gaps)).chunks gaps = gaps :=
  if_pos (Nat.le_refl 1)

/-- Cutting makes one chunk for each gap, and fewer further ones than there are workers. -/
theorem length_cutAll (hsome : 1 ≤ workers) (hne : gaps ≠ []) :
    ∃ k < workers, ((of workers (total gaps)).cutAll 1 gaps).length = k + gaps.length ∧
      leastChunk * k + gaps.length ≤ total gaps := by
  obtain ⟨k, hlength, hk⟩ := (of_cutsAll hsome gaps).takes (of_longest _ _) (m := 0) Nat.one_pos
  rw [of_workers hsome, Nat.zero_add, leastSteps, Nat.mul_zero, Nat.zero_add] at hk
  refine ⟨k, of_ahead_lt hsome hne hk, hlength, Nat.le_trans (Nat.add_le_add_right ?_ _) hk⟩
  exact Nat.mul_le_mul (leastChunk_le_base _ _) (le_leastSteps hsome k)

theorem length_chunks_le (hsome : 1 ≤ workers) (hne : gaps ≠ []) :
    ((of workers (total gaps)).chunks gaps).length ≤ workers - 1 + gaps.length := by
  rcases Nat.eq_or_lt_of_le hsome with rfl | htwo
  · rw [of_chunks_one]
    exact Nat.le_add_left _ _
  · obtain ⟨k, hk, hlength, -⟩ := length_cutAll hsome hne
    have hfilled := (of_fills htwo gaps).length_le
    have hgaps := List.length_pos_iff.2 hne
    rw [of_workers hsome, hlength] at hfilled
    omega

theorem workers_le_or_short (hsome : 1 ≤ workers) (hne : gaps ≠ []) :
    workers ≤ ((of workers (total gaps)).chunks gaps).length ∨
      ∀ c ∈ (of workers (total gaps)).chunks gaps, c.length ≤ leastHalved := by
  rcases Nat.eq_or_lt_of_le hsome with rfl | htwo
  · rw [of_chunks_one]
    exact .inl (List.length_pos_iff.2 hne)
  · rcases (of_fills htwo gaps).isFilled with hmany | hnone | hhalves
    · exact .inl (by rwa [of_workers hsome] at hmany)
    · rw [hnone]
      exact .inr (by simp)
    · refine .inr fun c hc => Nat.le_trans (length_le_largest hc) ?_
      -- what is too short to be halved is no longer than twice the shortest half
      have hsizes : (of workers (total gaps)).halveAbove = 80 ∧
        (of workers (total gaps)).shortest = 40 := ⟨rfl, rfl⟩
      rw [halves, Bool.and_eq_false_iff, decide_eq_false_iff_not, decide_eq_false_iff_not,
        hsizes.1, hsizes.2] at hhalves
      rw [leastHalved]
      omega

theorem chunk_sizes (hsome : 1 ≤ workers) (gaps : List FrameRange) :
    let p := of workers (total gaps)
    ∀ c ∈ p.chunks gaps, (c ∈ gaps ∨ leastChunk ≤ c.length) ∧ c.length ≤ p.longest + p.base := by
  intro p
  rcases Nat.eq_or_lt_of_le hsome with rfl | htwo
  · intro c hc
    rw [show p.chunks gaps = gaps from of_chunks_one gaps] at hc
    have hcover : total gaps ≤ p.base * leastSteps 1 1 := le_base_mul_leastSteps (Nat.le_refl 1)
    have hlength := length_le_total hc
    refine ⟨.inl hc, Nat.le_trans ?_ (Nat.le_add_left _ _)⟩
    exact Nat.le_trans hlength (Nat.le_trans hcover (Nat.le_of_eq (Nat.mul_one _)))
  · have hworkers : 0 < p.workers := Nat.lt_of_lt_of_eq hsome (of_workers hsome).symm
    refine (of_fills htwo gaps).forall_mem
      (fun d c hd hle hge => ⟨.inr hge, Nat.le_trans hle hd.2⟩) fun c hc => ?_
    obtain ⟨hshort, hlong⟩ :=
      (of_cutsAll hsome gaps).sizes (of_longest _ _) hworkers Nat.one_pos c hc
    exact ⟨hshort.imp_right (Nat.le_trans (leastChunk_le_base _ _)), hlong⟩

theorem values_inWord (hsome : 1 ≤ workers) (hmost : workers ≤ 255) (hne : gaps ≠ [])
    (hgaps : Ordered gaps) {bound : Nat} (hbound : ∀ g ∈ gaps, g.stop < bound)
    (hword : bound < Numeral.word) (hcount : gaps.length + 1 < Numeral.word) :
    ∀ v ∈ values workers gaps, InWord v := by
  have hframes : total gaps < Numeral.word := Nat.lt_of_le_of_lt (hgaps.total_le hbound) hword
  obtain ⟨k, -, hlength, hk⟩ := length_cutAll hsome hne
  have hcut : 1 + ((of workers (total gaps)).cutAll 1 gaps).length < Numeral.word := by
    rw [leastChunk] at hk
    omega
  rw [values, List.forall_mem_append]
  refine ⟨sizeValues_inWord hsome hmost hframes, ?_⟩
  rw [of_workers hsome]
  split
  · simp
  · rename_i hone
    have htwo : 2 ≤ workers := by omega
    have hsize : ∀ index, (of workers (total gaps)).ideal index + (of workers (total gaps)).base <
        Numeral.word := fun index =>
      Nat.lt_of_le_of_lt (Nat.add_le_add_right (ideal_le_longest (of_longest _ _) index) _)
        (of_longest_add_base_lt htwo hmost hframes)
    have hstop : ∀ g ∈ gaps, g.stop + 1 < Numeral.word := fun g hg =>
      Nat.lt_of_le_of_lt (hbound g hg) hword
    have hrefines := cutAll_refines (of workers (total gaps)) 1 gaps
    have hchunks : ∀ c ∈ (of workers (total gaps)).cutAll 1 gaps,
        c.start ≤ c.stop ∧ c.stop < Numeral.word - 1 := fun c hc =>
      ⟨hrefines.valid hgaps.valid c hc, hrefines.stop_lt hgaps.valid
        (fun g hg => Nat.lt_sub_of_add_lt (hstop g hg)) c hc⟩
    rw [List.forall_mem_append]
    refine ⟨cutAllValues_inWord hsize hgaps.valid hstop hcut,
      fillValues_inWord (.inl (by decide : 0 < leastChunk)) hchunks ?_⟩
    have hword : Numeral.word = 2 ^ 64 := rfl
    omega

end balance

/-- **Chunks are balanced.** No number on the way outgrows a word, there are enough chunks unless all
are short, and not many more; none is short unless it is a gap, and none is much longer than the
longest of the schedule.

The numbers of chunks are words unless there are `2 ^ 64 - 1` gaps, more than any memory holds. -/
theorem chunks_balanced {workers : Nat} (hsome : 1 ≤ workers) (hmost : workers ≤ 255)
    {gaps : List FrameRange} (hne : gaps ≠ []) (hgaps : Ordered gaps) {bound : Nat}
    (hbound : ∀ g ∈ gaps, g.stop < bound) (hword : bound < Numeral.word) :
    let p := of workers (total gaps)
    (gaps.length + 1 < Numeral.word → ∀ v ∈ values workers gaps, InWord v) ∧
      (p.chunks gaps).length ≤ workers - 1 + gaps.length ∧
      (workers ≤ (p.chunks gaps).length ∨ ∀ c ∈ p.chunks gaps, c.length ≤ 80) ∧
      (∀ c ∈ p.chunks gaps, c ∈ gaps ∨ 40 ≤ c.length) ∧
      ∀ c ∈ p.chunks gaps, c.length ≤ p.longest + p.base :=
  ⟨values_inWord hsome hmost hne hgaps hbound hword, length_chunks_le hsome hne,
    workers_le_or_short hsome hne, fun c hc => (chunk_sizes hsome gaps c hc).1,
    fun c hc => (chunk_sizes hsome gaps c hc).2⟩

/-- Four workers and two gaps: five chunks, as many as there can be. -/
theorem chunks_balanced_two_gaps :
    let gaps : List FrameRange := [⟨0, 249⟩, ⟨500, 849⟩]
    (1 ≤ 4 ∧ 4 ≤ 255 ∧ gaps ≠ [] ∧ Ordered gaps ∧ (∀ g ∈ gaps, g.stop < 850) ∧ 850 < Numeral.word) ∧
      (of 4 (total gaps)).chunks gaps =
        [⟨0, 59⟩, ⟨60, 179⟩, ⟨180, 249⟩, ⟨500, 739⟩, ⟨740, 849⟩] ∧
      (∀ v ∈ values 4 gaps, InWord v) ∧
      ((of 4 (total gaps)).chunks gaps).length ≤ 4 - 1 + gaps.length := by
  intro gaps
  have hgaps : Ordered gaps :=
    Ordered.cons (by decide) (by decide) (Ordered.cons (by decide) (by decide) Ordered.nil)
  have hchunks : (of 4 (total gaps)).chunks gaps =
      [⟨0, 59⟩, ⟨60, 179⟩, ⟨180, 249⟩, ⟨500, 739⟩, ⟨740, 849⟩] := by cbv
  have hbound : ∀ g ∈ gaps, g.stop < 850 := by decide
  have h := chunks_balanced (show 1 ≤ 4 by decide) (by decide) (by decide) hgaps hbound (by decide)
  exact ⟨⟨by decide, by decide, by decide, hgaps, by decide, by decide⟩, hchunks, h.1 (by decide),
    h.2.1⟩

end Partition

end Restoration
