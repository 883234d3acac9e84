import Restoration.Proofs.Script.Replay

/-!
# The lines of a stage suit the samples that it is fed

The arguments of a stage are numerals, labels and flags. The first two say nothing about the format
(`Plain`), and the flags repeat what the state of the graph says, so each line replays in the format
that it was written for:

    Replays free s.samples (d.statements gpu s).lines s.samples
-/

namespace Restoration

open SampleFormat (standard extended extendedFullChroma)
open Statements

/-! ## Arguments of stages -/

theorem isNumeric_of_mem_text {n : Nat} {c : Char} (h : c ∈ (Numeral.text n).toList) :
    isNumeric c = true := by
  rw [Numeral.text, String.toList_ofList] at h
  rw [isNumeric, Numeral.isDigit_of_mem_digits h, Bool.true_or]

theorem plain_numeral_behind {lead : String} (h : opens lead = true) (n : Nat) :
    Plain (lead ++ Numeral.text n) := by
  refine plain_of_opens h ?_ fun c => isNumeric_of_mem_text
  rw [Numeral.text, String.toList_ofList]
  exact Numeral.digits_ne_nil n

theorem plain_numeral (n : Nat) : Plain (Numeral.text n) := by
  have h := plain_numeral_behind (show opens "" = true by decide) n
  rwa [String.empty_append] at h

theorem isNumeric_of_mem_hundredths {n : Nat} {c : Char} (hc : c ∈ (Decimal.hundredths n).toList) :
    isNumeric c = true := by
  simp only [Decimal.hundredths, String.toList_append, String.toList_ofList, List.mem_append,
    List.mem_cons, List.not_mem_nil, or_false] at hc
  rcases hc with (hc | hc) | rfl | rfl
  · exact isNumeric_of_mem_text hc
  · have hpoint : c = '.' := by simpa using hc
    rw [hpoint]
    rfl
  all_goals
    rw [isNumeric, Numeral.isDigit_digit (Nat.mod_lt _ (by omega)), Bool.true_or]

theorem plain_hundredths (n : Nat) : Plain (Decimal.hundredths n) := by
  have hne : (Decimal.hundredths n).toList ≠ [] := by simp [Decimal.hundredths]
  have h := plain_of_opens (show opens "" = true by decide) hne fun c => isNumeric_of_mem_hundredths
  rwa [String.empty_append] at h

variable {free : List String}

theorem fits_numeral (f : SampleFormat) (n : Nat) : Fits f (Numeral.text n) := (plain_numeral n).fits f

theorem fits_numeral_behind {lead : String} (h : opens lead = true) (f : SampleFormat) (n : Nat) :
    Fits f (lead ++ Numeral.text n) := (plain_numeral_behind h n).fits f

theorem mem_of_isExtended {f : SampleFormat} (h : f.isExtended = true) :
    f ∈ [extended, extendedFullChroma] := by
  cases f
  · cases h
  all_goals simp

theorem eq_standard {f : SampleFormat} (h : ¬ f.isExtended = true) : f = standard := by
  cases f
  · rfl
  all_goals exact absurd rfl h

/-- What the state says of its depth is true of its samples. -/
theorem fits_depth (f : SampleFormat) :
    ∀ lead ∈ ["lsb_in=", "lsb_out=", "lsb_inout=", "lsb="], Fits f (lead ++ flag f.isExtended) := by
  cases f <;> decide

/-! ## Lines of stages -/

theorem Denoising.replays (d : Denoising) (gpu : Bool) (s : FormatState) :
    Replays free s.samples (d.statements gpu s).lines s.samples := by
  refine replays_call rfl (allows_of_not_mem (by decide) _) ?_
  simp only [List.forall_mem_cons]
  refine ⟨fits_numeral_behind (by decide) _ _, fits_numeral_behind (by decide) _ _,
    fits_numeral_behind (by decide) _ _, ?_, fits_depth _ _ (by simp), Plain.fits ?_ _, by simp⟩
  · cases s.samples <;> decide
  · cases gpu <;> decide

theorem replays_dering (s : FormatState) :
    Replays free s.samples (deringStatements s).lines s.samples := by
  refine replays_call rfl (allows_of_not_mem (by decide) _) ?_
  simp only [List.forall_mem_cons]
  exact ⟨fits_depth _ _ (by simp), fits_depth _ _ (by simp), by simp⟩

theorem Degraining.replays (d : Degraining) (s : FormatState) :
    Replays free s.samples (d.statements s).lines s.samples := by
  refine replays_call rfl (allows_of_not_mem (by decide) _) ?_
  simp only [List.forall_mem_cons]
  refine ⟨Plain.fits (by decide) _, fits_numeral_behind (by decide) _ _, Plain.fits ?_ _,
    fits_depth _ _ (by simp), fits_depth _ _ (by simp), by simp⟩
  cases d.prefilter <;> decide

theorem FrameCut.replays (cut : FrameCut) (f : SampleFormat) : Replays free f [cut.line] f := by
  have hcall : cut.line.call? = readCall? cut.callText.toList := by
    unfold FrameCut.line
    split <;> rfl
  refine replays_call hcall (allows_of_not_mem (by decide) _) ?_
  simp only [List.forall_mem_cons]
  refine ⟨fits_numeral _ _, ?_, by simp⟩
  split
  · split
    · exact Plain.fits (by decide) _
    · exact fits_numeral _ _
  · exact Plain.fits (by decide) _

theorem Margins.replays (m : Margins) : Replays free standard [m.line] standard := by
  refine replays_call rfl (by decide) ?_
  simp only [List.forall_mem_cons]
  exact ⟨fits_numeral _ _, fits_numeral _ _, fits_numeral_behind (by decide) _ _,
    fits_numeral_behind (by decide) _ _, by simp⟩

theorem replays_source (clip : Path) (rate : Option FrameRate) (f : SampleFormat)
    (h : free = namingFunctions ∨ '"' ∉ clip.forEngine.text.toList) :
    Replays free f [sourceLine clip rate] f := by
  refine replays_naming (by decide) (allows_of_not_mem (by decide) _) ?_
  rcases h with rfl | hclip
  · exact .inl (by decide)
  · right
    rw [List.cons_append, List.forall_mem_cons]
    refine ⟨plain_of_encloses (by decide) hclip, ?_⟩
    cases rate with
    | none => decide
    | some r =>
      simp only [List.cons_append, List.nil_append, List.forall_mem_cons]
      exact ⟨by decide, plain_numeral_behind (by decide) _, plain_numeral_behind (by decide) _,
        by simp⟩

theorem replays_retime (rate : FrameRate) (f : SampleFormat) :
    Replays free f
      [.term (call "AssumeFPS" [Numeral.text rate.numerator, Numeral.text rate.denominator])] f := by
  refine replays_call rfl (allows_of_not_mem (by decide) _) ?_
  simp only [List.forall_mem_cons]
  exact ⟨fits_numeral _ _, fits_numeral _ _, by simp⟩

theorem InterpolatedRate.replays (rate : InterpolatedRate) (threads : Nat) (gpu : Bool) :
    Replays free standard (rate.statements threads gpu).lines standard := by
  refine replays_call rfl (by decide) ?_
  simp only [List.forall_mem_cons]
  refine ⟨fits_numeral_behind (by decide) _ _, Plain.fits ?_ _, ?_, ?_, by simp⟩
  · cases gpu <;> decide
  · cases rate with
    | multiple factor =>
      show Fits standard ("NewNum=" ++ ("FrameRateNumerator*" ++ Numeral.text factor.toNat))
      rw [← String.append_assoc]
      exact fits_numeral_behind (by decide) _ _
    | fixed rate => exact fits_numeral_behind (by decide) _ _
  · cases rate with
    | multiple factor =>
      exact (by decide : Plain ("NewDen=" ++ "FrameRateDenominator")).fits _
    | fixed rate => exact fits_numeral_behind (by decide) _ _

theorem Deshaking.plain_settingsText (d : Deshaking) (h : '"' ∉ d.log.text.toList) :
    Plain d.settingsText := by
  have hdigits : ∀ n, '"' ∉ (Numeral.text n).toList := fun n hn =>
    absurd (isNumeric_of_mem_text hn) (by decide)
  have hmiddle : ∀ n, '"' ∉ ("|".intercalate
      [Numeral.text n, Numeral.text n, Numeral.text n, Numeral.text n] ++ "|4|1|" ++
      (if d.options.edgeCompensation then "1" else "0") ++ "|2|8|30|300|4|" ++ d.log.text).toList := by
    have hedges : '"' ∉ (if d.options.edgeCompensation then "1" else "0" : String).toList := by
      cases d.options.edgeCompensation <;> decide
    simp [hdigits, hedges, h]
  have hlead : ∀ pass ∈ ["1", "2"], encloses
      ("\"19|" ++ pass ++ "|30|4|1|0|1|0|\" + String(Width) + \"|\" + String(Height) + \"|1|2|")
      "|0|0|0|0|0|0|0|0|0|0|0|0|0|1|15|15|5|15|0|0|30|30|0|0|0|0|1|0|0|10|1000|1|88|1|1|20|5000|100|20|1\""
      = true := by
    decide +kernel
  have hplain := fun pass hp =>
    plain_of_encloses (hlead pass hp) (hmiddle d.options.smoothness.toNat)
  cases hp : d.pass
  · simpa only [Deshaking.settingsText, hp, String.append_assoc] using hplain "1" (by decide)
  · simpa only [Deshaking.settingsText, hp, String.append_assoc] using hplain "2" (by decide)

theorem Deshaking.replays (d : Deshaking) (h : free = namingFunctions ∨ '"' ∉ d.log.text.toList) :
    Replays free standard d.statements.lines standard := by
  have hrgb : Replays free standard [.term "ConvertToRGB32()"] standard :=
    replays_call (call?_term (show _ = call "ConvertToRGB32" [] by decide)) (by decide) (by simp)
  have hback : Replays free standard [.term "ConvertToYV12()"] standard :=
    replays_call (call?_term (show _ = call "ConvertToYV12" [] by decide)) (by decide) (by simp)
  have hrun : Replays free standard [.term (call "Deshaker" [d.settingsText])] standard := by
    refine replays_naming (by decide) (by decide) ?_
    rcases h with rfl | hlog
    · exact .inl (by decide)
    · exact .inr (by simpa using d.plain_settingsText hlog)
  exact hrgb.append (hrun.append hback)

theorem replays_resize {size : FrameSize} {kernel : Downscaler} {s : FormatState} {st : Statements}
    (h : resizeStatements size kernel s = .ok st) : Replays free s.samples st.lines s.samples := by
  have hsize : ∀ f, ∀ a ∈ [Numeral.text size.width, Numeral.text size.height], Fits f a := by
    intro f
    simp only [List.forall_mem_cons]
    exact ⟨fits_numeral _ _, fits_numeral _ _, by simp⟩
  unfold resizeStatements at h
  by_cases hs : s.samples.isExtended = true
  · rw [if_pos hs] at h
    split at h
    · cases h
    · cases h
      have hallows : ∀ f ∈ [extended, extendedFullChroma], Allows f "Dither_resize16nr" := by decide
      refine replays_call rfl (hallows _ (mem_of_isExtended hs)) ?_
      simp only [List.forall_mem_cons]
      refine ⟨fits_numeral _ _, fits_numeral _ _, Plain.fits ?_ _, by simp⟩
      cases kernel <;> decide
  · rw [if_neg hs] at h
    rw [eq_standard hs]
    split at h
    · rename_i resizer hresizer
      cases h
      refine replays_call rfl ?_ (hsize _)
      cases kernel <;> cases hresizer <;> decide
    · cases h
      exact replays_call rfl (by decide) (hsize _)

/-- Planar RGB in between has the depth and the chroma of the samples ahead of it. -/
theorem ColorMatrix.replays_stacked (m : ColorMatrix) {s : FormatState}
    (hs : s.samples.isExtended = true) :
    Replays free s.samples (m.stackedStatements s).lines s.samples := by
  have hrgb : ∀ matrix ∈ ["601", "709"], ∀ tvRange : Bool, ∀ f ∈ [extended, extendedFullChroma],
      Replays free f [.term (call "Dither_convert_yuv_to_rgb" ["matrix=" ++ quoted matrix,
        "tv_range=" ++ flag tvRange, "lsb_in=true", "output=" ++ quoted "rgb48y"])] f := by
    intro matrix hmatrix tvRange f hf
    refine replays_call rfl ?_ ?_
    · revert f
      decide
    · simp only [List.forall_mem_cons]
      refine ⟨?_, ?_, ?_, ?_, by simp⟩
      · revert matrix f
        decide
      · revert tvRange f
        decide
      · revert f
        decide
      · revert f
        decide
  have hyuv : ∀ f ∈ [extended, extendedFullChroma], Replays free f
      [.term (call "Dither_convert_rgb_to_yuv"
        ["SelectEvery(3, 0)", "SelectEvery(3, 1)", "SelectEvery(3, 2)", "matrix=" ++ quoted "709",
          "lsb=true", "output=" ++ quoted (if f.isFullChroma then "YV24" else "YV12")])] f := by
    intro f hf
    -- a comma in parentheses separates arguments like any other
    have hcall : call "Dither_convert_rgb_to_yuv" ["SelectEvery(3, 0)", "SelectEvery(3, 1)",
        "SelectEvery(3, 2)", "matrix=" ++ quoted "709", "lsb=true",
        "output=" ++ quoted (if f.isFullChroma then "YV24" else "YV12")] =
        call "Dither_convert_rgb_to_yuv" ["SelectEvery(3", "0)", "SelectEvery(3", "1)",
          "SelectEvery(3", "2)", "matrix=" ++ quoted "709", "lsb=true",
          "output=" ++ quoted (if f.isFullChroma then "YV24" else "YV12")] := by
      simp [call, ← String.append_assoc]
    rw [hcall]
    refine .single (readCall?_call (by decide) ?_) (Suits.loosen ?_ free)
      (Call.change?_of_function (show "Dither_convert_rgb_to_yuv" ∉ convertingFunctions by decide))
    · revert f
      decide
    · revert f
      decide
  have hformat := mem_of_isExtended hs
  cases m <;> exact (hrgb _ (by decide) _ _ hformat).append (hyuv _ hformat)

theorem ColorMatrix.replays (m : ColorMatrix) (s : FormatState) :
    Replays free s.samples (m.statements s).lines s.samples := by
  by_cases hm : m = .rec709
  · unfold ColorMatrix.statements
    rw [if_pos hm]
    exact .done _
  unfold ColorMatrix.statements
  rw [if_neg hm]
  by_cases hs : s.samples.isExtended = true
  · rw [if_pos hs]
    exact m.replays_stacked hs
  · rw [if_neg hs, eq_standard hs]
    have hmode : Fits standard "mode=\"Rec.601->Rec.709\"" := by decide
    cases m with
    | rec709 => exact .done _
    | pc709 =>
      have hcall : "ColorYUV(levels=\"PC->TV\")" = call "ColorYUV" ["levels=\"PC->TV\""] := by
        simp [call]
      exact replays_call (call?_term hcall) (by decide) (by decide)
    | rec601 =>
      have hcall : "ColorMatrix(mode=\"Rec.601->Rec.709\")" =
          call "ColorMatrix" ["mode=\"Rec.601->Rec.709\""] := by simp [call]
      exact replays_call (call?_term hcall) (by decide) (by simpa using hmode)
    | pc601 =>
      have hcall : "ColorMatrix(mode=\"Rec.601->Rec.709\", inputFR=true)" =
          call "ColorMatrix" ["mode=\"Rec.601->Rec.709\"", "inputFR=true"] := by simp [call]
      refine replays_call (call?_term hcall) (by decide) ?_
      simp only [List.forall_mem_cons]
      exact ⟨hmode, by decide, by simp⟩

theorem replays_preview : Replays free standard
    [.termWithComment "AddBorders(2, 2, 2, 2, $FF0000)" previewMark, .term "ConvertToRGB32()"]
    standard := by
  have hcall : "AddBorders(2, 2, 2, 2, $FF0000)" =
      call "AddBorders" ["2", "2", "2", "2", "$FF0000"] := by simp [call]
  have hborders : Replays free standard
      [.termWithComment "AddBorders(2, 2, 2, 2, $FF0000)" previewMark] standard :=
    replays_call (call?_term hcall) (by decide) (by decide)
  have hrgb : Replays free standard [.term "ConvertToRGB32()"] standard :=
    replays_call (call?_term (show _ = call "ConvertToRGB32" [] by decide)) (by decide) (by simp)
  exact hborders.append hrgb

theorem replays_prefetch (threads : Nat) (f : SampleFormat) :
    Replays free f [.term (call "Prefetch" [Numeral.text threads])] f := by
  refine replays_call rfl (allows_of_not_mem (by decide) _) ?_
  simp only [List.forall_mem_cons]
  exact ⟨fits_numeral _ _, by simp⟩

/-! ## Upscaling -/

namespace Upscaling

theorem fits_finalArguments (u : Upscaling) (f : SampleFormat) : ∀ a ∈ u.finalArguments, Fits f a := by
  unfold finalArguments
  cases u.finalResize with
  | none => simp
  | some r =>
    simp only [List.forall_mem_cons]
    refine ⟨fits_numeral_behind (by decide) _ _, fits_numeral_behind (by decide) _ _,
      Plain.fits ?_ _, by simp⟩
    cases r.kernel <;> decide

/-- Without boost neural interpolation works on eight bits, the other upscaler on any samples. -/
theorem replays_plainCall (u : Upscaling) {s : FormatState}
    (hs : u.upscaler = .nnedi3 → s.samples = standard) :
    Replays free s.samples [.term (u.plainCall s)] s.samples := by
  unfold plainCall
  cases hu : u.upscaler with
  | nnedi3 =>
    rw [hs hu]
    have hdefault : Replays free standard
        [.term (call "nnedi3_rpow2" (doubling "Spline16Resize"))] standard :=
      replays_call rfl (by decide) (by decide)
    cases u.finalResize with
    | none => exact hdefault
    | some r =>
      cases hk : r.kernel.resizer? with
      | none => simpa only [hk] using hdefault
      | some resizer =>
        have hdoubling : ∀ a ∈ doubling resizer, Fits standard a := by
          cases hr : r.kernel <;> rw [hr] at hk <;> cases hk <;> decide
        simp only [hk]
        refine replays_call rfl (by decide) ?_
        simp only [List.forall_mem_append, List.forall_mem_cons]
        exact ⟨hdoubling, fits_numeral_behind (by decide) _ _, fits_numeral_behind (by decide) _ _,
          by simp⟩
  | superXbr =>
    refine replays_call rfl (allows_of_not_mem (by decide) _) ?_
    simp only [List.forall_mem_append, List.forall_mem_cons]
    refine ⟨⟨?_, ?_, by simp⟩, u.fits_finalArguments _⟩ <;> cases s.samples <;> decide

/-- The inner call of a boosted pass stands in quotes of its own, which its resizer is outside of. -/
theorem quoted_inner (n : Nat) : quoted (quoted (quoted
    (call "nnedi3_rpow2" (doubling "Spline16Resize" ++ ["threads=" ++ Numeral.text n])))) =
    "\"\"\"nnedi3_rpow2(2, nns=4, cshift=\"Spline16Resize\", threads=" ++ Numeral.text n ++
      ")\"\"\"" := by
  apply String.toList_injective
  simp [quoted, toList_call, doubling]

theorem plain_inner (n : Nat) : Plain (quoted (quoted (quoted
    (call "nnedi3_rpow2" (doubling "Spline16Resize" ++ ["threads=" ++ Numeral.text n]))))) := by
  have hdigits : '"' ∉ (Numeral.text n).toList := fun hn =>
    absurd (isNumeric_of_mem_text hn) (by decide)
  have hencloses : encloses "\"\"\"nnedi3_rpow2(2, nns=4, cshift=\"Spline16Resize\", threads="
      ")\"\"\"" = true := by decide +kernel
  rw [quoted_inner]
  exact plain_of_encloses hencloses hdigits

/-- A boosted pass takes chroma back to half where it says so, and elsewhere leaves the format. -/
theorem replays_boosted {function : String} (hfunction : function ∈ ["SuperRes", "SuperResXBR"])
    {f : SampleFormat} {before after : List String} (hbefore : ∀ a ∈ before, Fits f a)
    (hafter : ∀ a ∈ after, Fits f a) (last : Bool) :
    Replays free f
      [.term (call function (before ++
        ((if last && f.isFullChroma then ["fCsp=" ++ quoted "YV12"] else []) ++ after)))]
      (if last && f.isFullChroma then extended else f) := by
  have hallows : Allows f function := by
    have hfunctions : ∀ function ∈ ["SuperRes", "SuperResXBR"], '(' ∉ function.toList ∧ function ∉
        ["Dither_convert_8_to_16", "DitherPost", "Dither_convert_rgb_to_yuv"] ++ eightBitFunctions ++
          sixteenBitFunctions := by decide
    exact allows_of_not_mem (hfunctions function hfunction) f
  split
  · rename_i hlast
    have hf : f = extendedFullChroma := by
      rw [Bool.and_eq_true] at hlast
      cases f
      · cases hlast.2
      · cases hlast.2
      · rfl
    subst hf
    have hall : ∀ a ∈ before ++ (["fCsp=" ++ quoted "YV12"] ++ after),
        Script.isArgument a.toList = true ∧ Agrees extendedFullChroma a := by
      simp only [List.forall_mem_append, List.forall_mem_cons]
      exact ⟨fun a ha => ⟨(hbefore a ha).whole, (hbefore a ha).agrees⟩, ⟨by decide, by simp⟩,
        fun a ha => ⟨(hafter a ha).whole, (hafter a ha).agrees⟩⟩
    have hgives : (⟨function, before ++ (["fCsp=" ++ quoted "YV12"] ++ after)⟩ : Call).gives "fCsp"
        (quoted "YV12") = true := by
      rw [Call.gives, List.any_eq_true]
      exact ⟨"fCsp=" ++ quoted "YV12", by simp, by decide⟩
    generalize before ++ (["fCsp=" ++ quoted "YV12"] ++ after) = as at hall hgives ⊢
    have hchange : (⟨function, as⟩ : Call).change? = some (extendedFullChroma, extended) := by
      simp only [List.mem_cons, List.not_mem_nil, or_false] at hfunction
      rcases hfunction with rfl | rfl <;> simp [Call.change?, hgives]
    refine replays_change (x := (extendedFullChroma, extended)) hallows.1
      (fun a ha => (hall a ha).1) hchange (hallows.suits rfl ?_ fun _ a ha => (hall a ha).2)
    rw [hchange]
    rintro x ⟨⟩
    rfl
  · rw [List.nil_append]
    refine replays_call rfl hallows fun a ha => ?_
    rcases List.mem_append.1 ha with ha | ha
    · exact hbefore a ha
    · exact hafter a ha

theorem replays_boostedCall (u : Upscaling) (b : Boost) (s : FormatState) :
    Replays free s.samples [.term (u.boostedCall b s)]
      (if u.lastPass && s.samples.isFullChroma then extended else s.samples) := by
  have hamounts : ∀ a ∈ [Numeral.text b.passes.toNat, Decimal.hundredths b.strength.toNat,
      Decimal.hundredths b.softness.toNat], Fits s.samples a := by
    simp only [List.forall_mem_cons]
    exact ⟨fits_numeral _ _, (plain_hundredths _).fits _, (plain_hundredths _).fits _, by simp⟩
  have hformat : ∀ a ∈ ["MatrixIn=" ++ quoted (Choice.label (s.pendingMatrix.getD .rec709)),
      "lsb_in=" ++ flag s.samples.isExtended, "lsb_out=" ++ flag s.samples.isExtended],
      Fits s.samples a := by
    simp only [List.forall_mem_cons]
    refine ⟨Plain.fits ?_ _, fits_depth _ _ (by simp), fits_depth _ _ (by simp), by simp⟩
    cases s.pendingMatrix.getD .rec709 <;> decide
  cases hu : u.upscaler with
  | nnedi3 =>
    have hinner := List.forall_mem_cons.2 ⟨(plain_inner u.threads).fits s.samples, hformat⟩
    have h : Replays free _ _ _ := replays_boosted (show "SuperRes" ∈ _ by decide)
      (List.forall_mem_append.2 ⟨hamounts, hinner⟩) (u.fits_finalArguments _) u.lastPass
    simpa only [boostedCall, hu, List.append_assoc, List.cons_append, List.nil_append] using h
  | superXbr =>
    have h : Replays free _ _ _ := replays_boosted (show "SuperResXBR" ∈ _ by decide)
      (List.forall_mem_append.2 ⟨hamounts, hformat⟩) (u.fits_finalArguments _) u.lastPass
    simpa only [boostedCall, hu, List.append_assoc] using h

end Upscaling

end Restoration
