import Mathlib
import Restoration.Proofs.Graph.Completion

/-!
# Frame sizes in words

Margins, sizes and the wanted height come from outside, so any word can be among them. A size that is
computed in words is the exact one, or there is none. Two steps can outgrow a word: the sum of the
margins at opposite sides, which is made before it is taken off the source, and the width that is four
times a rounded quarter:

    croppedSourceWords j = ok (croppedSourceSize j)    unless   2 ^ 32 ≤ left + right, or top + bottom
    targetWords j = ok (targetSize j)                  unless that sum is needed and there is none, or
                                                       the quarter is 2 ^ 30 or more
-/

namespace Restoration

namespace SizeWords

/-! ## Steps -/

theorem toNat_add {a b : UInt32} (h : a.toNat + b.toNat < UInt32.size) :
    (a + b).toNat = a.toNat + b.toNat := by
  rw [UInt32.toNat_add]
  exact Nat.mod_eq_of_lt h

theorem toNat_quadruple {a : UInt32} (h : a.toNat * 4 < UInt32.size) : (a * 4).toNat = a.toNat * 4 := by
  rw [UInt32.toNat_mul]
  exact Nat.mod_eq_of_lt h

theorem toNat_sub (a b : UInt32) : (sub a b).toNat = a.toNat - b.toNat := by
  unfold sub
  split
  · next h => exact UInt32.toNat_sub_of_le a b h
  · next h =>
    rw [UInt32.le_iff_toNat_le] at h
    rw [UInt32.toNat_zero]
    omega

theorem toNat_quarterWidth (height : UInt32) (aspect : Float) : (quarterWidth height aspect).toNat =
    Decimal.roundWithin (UInt32.size - 1) (height.toNat.toFloat * aspect / 4.0) := by
  have hle := Decimal.roundWithin_le (UInt32.size - 1) (height.toNat.toFloat * aspect / 4.0)
  refine UInt32.toNat_ofNat_of_lt' (Nat.lt_of_le_of_lt hle ?_)
  decide

theorem derivedWidth_eq (height : UInt32) (aspect : Float) :
    Job.derivedWidth height aspect = (quarterWidth height aspect).toNat * 4 := by
  rw [toNat_quarterWidth]
  rfl

theorem add_of_lt {a b : UInt32} (h : a.toNat + b.toNat < UInt32.size) : add a b = .ok (a + b) :=
  if_pos h

theorem add_of_le {a b : UInt32} (h : ¬ a.toNat + b.toNat < UInt32.size) :
    add a b = .error .sum := if_neg h

end SizeWords

namespace Job

open SizeWords

variable (j : Job)

/-! ## Sizes -/

/-- A known source needs the sums of its margins. -/
theorem marginsFit_iff {w h : UInt32} (hw : j.traits.width = some w) (hh : j.traits.height = some h) :
    j.marginsFit = true ↔
      j.sourceMargins.left.toNat + j.sourceMargins.right.toNat < UInt32.size ∧
        j.sourceMargins.top.toNat + j.sourceMargins.bottom.toNat < UInt32.size := by
  simp only [marginsFit, croppedSourceSize, hw, hh, Bool.and_eq_true, decide_eq_true_eq]
  rfl

/-- What the crop leaves, down to nothing. -/
theorem croppedSourceSize_eq {w h : UInt32} (hw : j.traits.width = some w)
    (hh : j.traits.height = some h) :
    j.croppedSourceSize = some
      ⟨w.toNat - (j.sourceMargins.left.toNat + j.sourceMargins.right.toNat),
        h.toNat - (j.sourceMargins.top.toNat + j.sourceMargins.bottom.toNat)⟩ := by
  rw [croppedSourceSize, hw, hh]

/-- The sums are made whatever becomes of the frame. -/
theorem croppedSourceWords_of_not_marginsFit (h : j.marginsFit = false) :
    j.croppedSourceWords = .error .sum := by
  cases hw : j.traits.width with
  | none => simp [marginsFit, croppedSourceSize, hw] at h
  | some width =>
    cases hh : j.traits.height with
    | none => simp [marginsFit, croppedSourceSize, hw, hh] at h
    | some height =>
      have hfit := j.marginsFit_iff hw hh
      rw [h] at hfit
      simp only [croppedSourceWords, hw, hh]
      by_cases hacross : j.sourceMargins.left.toNat + j.sourceMargins.right.toNat < UInt32.size
      · have hdown : ¬ j.sourceMargins.top.toNat + j.sourceMargins.bottom.toNat < UInt32.size :=
          fun hdown => Bool.false_ne_true (hfit.2 ⟨hacross, hdown⟩)
        rw [add_of_lt hacross, add_of_le hdown]
        rfl
      · rw [add_of_le hacross]
        rfl

/-- Behind sums that fit, nothing is lost. -/
theorem croppedSourceWords_of_marginsFit (h : j.marginsFit = true) :
    ∃ s, j.croppedSourceWords = .ok s ∧ s.map exact = j.croppedSourceSize := by
  cases hw : j.traits.width with
  | none => exact ⟨none, by rw [croppedSourceWords, hw]; rfl, by rw [croppedSourceSize, hw]; rfl⟩
  | some width =>
    cases hh : j.traits.height with
    | none =>
      exact ⟨none, by rw [croppedSourceWords, hw, hh]; rfl, by rw [croppedSourceSize, hw, hh]; rfl⟩
    | some height =>
      obtain ⟨hacross, hdown⟩ := (j.marginsFit_iff hw hh).1 h
      refine ⟨some ⟨sub width (j.sourceMargins.left + j.sourceMargins.right),
        sub height (j.sourceMargins.top + j.sourceMargins.bottom)⟩, ?_, ?_⟩
      · simp only [croppedSourceWords, hw, hh]
        rw [add_of_lt hacross, add_of_lt hdown]
        rfl
      · rw [j.croppedSourceSize_eq hw hh, Option.map_some, exact, toNat_sub, toNat_sub,
          toNat_add hacross, toNat_add hdown]

/-- The aspect ratio needs the sums only if none is filed. -/
theorem aspectWords_eq : j.aspectWords =
    if j.traits.aspectRatio.isSome || j.marginsFit then .ok j.displayAspect else .error .sum := by
  cases ha : j.traits.aspectRatio with
  | some a =>
    rw [aspectWords, displayAspect, ha]
    rfl
  | none =>
    simp only [aspectWords, displayAspect, ha, Option.isSome_none, Bool.false_or]
    cases hfit : j.marginsFit with
    | false =>
      rw [j.croppedSourceWords_of_not_marginsFit hfit]
      rfl
    | true =>
      obtain ⟨s, hs, hexact⟩ := j.croppedSourceWords_of_marginsFit hfit
      rw [hs, ← hexact]
      cases s with
      | none => rfl
      | some s =>
        have hheight : 0 < s.height ↔ 0 < s.exact.height := UInt32.lt_iff_toNat_lt
        by_cases h : 0 < s.height
        · simp only [Option.map_some, if_pos (hheight.1 h)]
          simp [bind, Except.bind, pure, Except.pure, h, exact]
        · simp only [Option.map_some, if_neg (mt hheight.2 h)]
          simp [bind, Except.bind, pure, Except.pure, h]

/-- The step that fails if the sizes do not fit. -/
def outgrown (j : Job) : Outgrown :=
  if j.traits.aspectRatio.isSome || j.marginsFit then .product else .sum

/-- A width is only derived from the height if it is not asked for. -/
theorem sizesFit_of_filed (h : j.outputHeight = none ∨ j.outputWidth.isSome) : j.sizesFit = true := by
  unfold sizesFit
  split
  · next hheight hwidth => simp [hheight, hwidth] at h
  · rfl

theorem targetWords_eq : j.targetWords.map (Option.map exact) =
    if j.sizesFit then .ok j.targetSize else .error j.outgrown := by
  cases hheight : j.outputHeight with
  | none =>
    rw [if_pos (j.sizesFit_of_filed (.inl hheight)), targetWords, targetSize, hheight]
    rfl
  | some height =>
    cases hwidth : j.outputWidth with
    | some width =>
      rw [if_pos (j.sizesFit_of_filed (.inr (by rw [hwidth]; rfl))), targetWords, targetSize, hheight,
        hwidth]
      rfl
    | none =>
      simp only [targetWords, targetSize, sizesFit, outgrown, hheight, hwidth]
      rw [aspectWords_eq]
      cases hknown : j.traits.aspectRatio.isSome || j.marginsFit with
      | false => rfl
      | true =>
        cases hrat : j.displayAspect with
        | none => rfl
        | some a =>
          have hquarter := derivedWidth_eq height a
          by_cases hfits : (quarterWidth height a).toNat * 4 < UInt32.size
          · simp only [Option.map_some, hquarter, sideBound]
            simp [bind, Except.bind, pure, Except.pure, Except.map, quadruple, hfits, exact,
              toNat_quadruple hfits]
          · simp only [Option.map_some, hquarter, sideBound]
            simp [bind, Except.bind, Except.map, quadruple, hfits]

theorem sizesFit_iff : j.sizesFit = true ↔
    ∀ height, j.outputHeight = some height → j.outputWidth = none →
      (j.traits.aspectRatio = none → j.marginsFit = true) ∧
        ∀ aspect, j.displayAspect = some aspect → (quarterWidth height aspect).toNat < 2 ^ 30 := by
  have hside : ∀ n : Nat, n * 4 < sideBound ↔ n < 2 ^ 30 := by
    intro n
    rw [sideBound, UInt32.size]
    omega
  cases hheight : j.outputHeight with
  | none => simp [j.sizesFit_of_filed (.inl hheight)]
  | some height =>
    cases hwidth : j.outputWidth with
    | some width =>
      have hfiled : j.outputWidth.isSome := by rw [hwidth]; rfl
      simp [j.sizesFit_of_filed (.inr hfiled)]
    | none =>
      simp only [sizesFit, targetSize, hheight, hwidth, Option.some.injEq, forall_eq', forall_const]
      rw [Bool.and_eq_true]
      refine and_congr ?_ ?_
      · cases j.traits.aspectRatio <;> simp
      · cases j.displayAspect with
        | none => simp
        | some aspect =>
          simp only [Option.map_some, derivedWidth_eq, decide_eq_true_eq, hside, Option.some.injEq,
            forall_eq']

theorem targetWords_of_not_sizesFit (h : j.sizesFit = false) : j.targetWords = .error j.outgrown := by
  have hwords := j.targetWords_eq
  rw [h, if_neg Bool.false_ne_true] at hwords
  cases hok : j.targetWords with
  | error step =>
    rw [hok] at hwords
    exact congrArg _ (Except.error.inj hwords)
  | ok s =>
    rw [hok] at hwords
    cases hwords

/-- A size that was found in words is the exact one, and no step on the way to it outgrew a word. -/
theorem sizesFit_of_targetWords {target : Option SizeWords} (h : j.targetWords = .ok target) :
    j.sizesFit = true ∧ target.map exact = j.targetSize := by
  have hwords := j.targetWords_eq
  rw [h] at hwords
  split at hwords
  · next hfit => exact ⟨hfit, Except.ok.inj hwords⟩
  · cases hwords

theorem sizesFit_eq_false_iff : j.sizesFit = false ↔ ∃ step, j.targetWords = .error step := by
  constructor
  · exact fun h => ⟨j.outgrown, j.targetWords_of_not_sizesFit h⟩
  · rintro ⟨step, hstep⟩
    refine Bool.eq_false_iff.2 fun hfit => ?_
    have hwords := j.targetWords_eq
    rw [hstep, if_pos hfit] at hwords
    cases hwords

/-- A job is not planned exactly if a step on the way to its size outgrows a word. -/
theorem plan_sizeOverflow_iff (e : Engine) :
    j.plan e = .error .sizeOverflow ↔ ∃ step, j.targetWords = .error step := by
  rw [← sizesFit_eq_false_iff, plan]
  cases j.sizesFit <;> simp

theorem compile_sizeOverflow_iff (e : Engine) :
    j.compile e = .error .sizeOverflow ↔ ∃ step, j.targetWords = .error step := by
  obtain ⟨s, hs⟩ := render_stages_ok j e
  rw [← sizesFit_eq_false_iff, compile_eq, hs]
  cases j.sizesFit <;> simp [Except.mapError]

/-- **Sizes are exact unless a step outgrows its word**, which the sum of the margins at opposite sides
and the derived width can do: the size behind the crop is the difference down to zero, the target is
the exact one, and a job is neither planned nor compiled in exactly the cases where there is none. -/
theorem sizes_exact_unless_outgrown (e : Engine) :
    (∀ w h, j.traits.width = some w → j.traits.height = some h →
      let m := j.sourceMargins
      if m.left.toNat + m.right.toNat < 2 ^ 32 ∧ m.top.toNat + m.bottom.toNat < 2 ^ 32 then
        ∃ s, j.croppedSourceWords = .ok (some s) ∧
          (s.width.toNat : Int) = max 0 ((w.toNat : Int) - m.left.toNat - m.right.toNat) ∧
          (s.height.toNat : Int) = max 0 ((h.toNat : Int) - m.top.toNat - m.bottom.toNat)
      else j.croppedSourceWords = .error .sum) ∧
    j.targetWords.map (Option.map exact) =
      (if j.sizesFit then .ok j.targetSize else .error j.outgrown) ∧
    (j.sizesFit = true ↔ ∀ height, j.outputHeight = some height → j.outputWidth = none →
      (j.traits.aspectRatio = none → j.marginsFit = true) ∧
        ∀ aspect, j.displayAspect = some aspect → (quarterWidth height aspect).toNat < 2 ^ 30) ∧
    (j.plan e = .error .sizeOverflow ↔ ∃ step, j.targetWords = .error step) ∧
    (j.compile e = .error .sizeOverflow ↔ ∃ step, j.targetWords = .error step) := by
  refine ⟨fun w h hw hh => ?_, j.targetWords_eq, j.sizesFit_iff, j.plan_sizeOverflow_iff e,
    j.compile_sizeOverflow_iff e⟩
  dsimp only
  have hfit : j.marginsFit = true ↔ _ := j.marginsFit_iff hw hh
  split
  · next hsums =>
    obtain ⟨s, hs, hexact⟩ := j.croppedSourceWords_of_marginsFit (hfit.2 hsums)
    rw [j.croppedSourceSize_eq hw hh] at hexact
    obtain ⟨s, rfl, hsize⟩ := Option.map_eq_some_iff.1 hexact
    obtain ⟨hwidth, hheight⟩ := FrameSize.mk.inj hsize
    refine ⟨s, hs, ?_, ?_⟩
    · rw [hwidth]
      omega
    · rw [hheight]
      omega
  · next hsums =>
    exact j.croppedSourceWords_of_not_marginsFit (Bool.eq_false_iff.2 (mt hfit.1 hsums))

/-- Margins that are wider than the source leave no width at all, but cannot be added up, and a very
flat picture cannot be as wide as it would have to be. -/
theorem steps_outgrow_word :
    let cropped : Job := {
      source := ⟨"/media/clip.mkv"⟩, directory := ⟨"/jobs"⟩, index := 1
      traits := { width := some 640, height := some 480 }
      cropSource := some { left := 2147483648, right := 2147483648 }, outputHeight := some 480 }
    let flat : Job := {
      source := ⟨"/media/clip.mkv"⟩, directory := ⟨"/jobs"⟩, index := 1
      traits := { aspectRatio := some 4000000.0 }, outputHeight := some 1080 }
    cropped.croppedSourceSize = some ⟨0, 480⟩ ∧ cropped.croppedSourceWords = .error .sum ∧
      cropped.compile {} = .error .sizeOverflow ∧
      flat.targetWords = .error .product ∧ flat.compile {} = .error .sizeOverflow := by
  intro cropped flat
  have hsums : cropped.marginsFit = false := by decide
  have hcropped : cropped.sizesFit = false := by decide +kernel
  have hflat : flat.sizesFit = false := by decide +kernel
  have hquarter : flat.targetWords = .error .product := flat.targetWords_of_not_sizesFit hflat
  exact ⟨by decide, cropped.croppedSourceWords_of_not_marginsFit hsums,
    (cropped.compile_sizeOverflow_iff {}).2 ⟨_, cropped.targetWords_of_not_sizesFit hcropped⟩,
    hquarter, (flat.compile_sizeOverflow_iff {}).2 ⟨_, hquarter⟩⟩

end Job

end Restoration
