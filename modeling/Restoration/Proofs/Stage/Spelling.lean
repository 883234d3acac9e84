import Restoration.Proofs.Graph.Formats
import Restoration.Proofs.Script.Spelling
import Restoration.Proofs.Stage.Calls

/-!
# What the lines of a stage spell

Every line of a stage is a call in which only the file that the stage names can spell a mark or a
`#`; a comment behind it is one of two fixed texts:

    l ∈ st.lines  →  l.Spells stage.functions stage.file? stage.comment?
-/

namespace Restoration

open Statements

/-- The argument is quiet, unless it cites this file. -/
def Harmless (file : Option Path) (a : String) : Prop := Quiet a ∨ ∃ p ∈ file, Cites p a

theorem Quiet.harmless {a : String} (h : Quiet a) (file : Option Path) : Harmless file a := .inl h

/-- The line is a call of one of these functions, with harmless arguments and no other comment. -/
inductive Line.Spells (fs : List String) (file : Option Path) (comment : Option String) : Line → Prop
  | term {f : String} {as : List String} (hf : f ∈ fs) (has : ∀ a ∈ as, Harmless file a) :
    Spells fs file comment (.term (call f as))
  | commented {f : String} {as : List String} {c : String} (hf : f ∈ fs)
    (has : ∀ a ∈ as, Harmless file a) (hc : c ∈ comment) :
    Spells fs file comment (.termWithComment (call f as) c)

/-- The comment that a line of a stage can have. -/
def Stage.comment? : Stage → Option String
  | trim cut => if cut.marked then some FrameCut.mark else none
  | preview => some previewMark
  | _ => none

variable {fs : List String} {file : Option Path} {comment : Option String}

theorem spells_term {f text : String} {as : List String} (htext : text = call f as) (hf : f ∈ fs)
    (has : ∀ a ∈ as, Quiet a) : (Line.term text).Spells fs file comment :=
  htext ▸ .term hf fun a ha => (has a ha).harmless file

/-! ## Lines of stages -/

/-- The end of a cut is plain as it is written. -/
theorem FrameCut.quiet_last (first : Nat) (last : Option Nat) : Quiet (match last with
    | some last => if last ≤ first then "-1" else Numeral.text last
    | none => "0") := by
  split
  · split
    · decide
    · exact quiet_numeral _
  · decide

theorem FrameCut.line_spells (cut : FrameCut) :
    cut.line.Spells ["Trim"] file (if cut.marked then some FrameCut.mark else none) := by
  have has := List.forall_mem_cons.2 ⟨quiet_numeral cut.first,
    List.forall_mem_singleton.2 (quiet_last cut.first cut.last)⟩
  unfold line
  split
  · exact .commented (by decide) (fun a ha => (has a ha).harmless file) rfl
  · exact spells_term rfl (by decide) has

theorem Margins.line_spells (m : Margins) : m.line.Spells ["Crop"] file comment := by
  refine spells_term rfl (by decide) ?_
  simp only [List.forall_mem_cons]
  exact ⟨quiet_numeral _, quiet_numeral _, quiet_numeral_behind (by decide) _,
    quiet_numeral_behind (by decide) _, by simp⟩

theorem sourceLine_spells (clip : Path) (rate : Option FrameRate) :
    (sourceLine clip rate).Spells ["LWLibavVideoSource"] (some clip.forEngine) comment := by
  refine .term (by decide) ?_
  simp only [List.forall_mem_append, List.forall_mem_cons]
  refine ⟨⟨.inr ⟨_, rfl, cites_quoted _⟩, .inl (by decide), by simp⟩, ?_⟩
  cases rate with
  | none => simp
  | some r =>
    simp only [List.forall_mem_cons]
    exact ⟨.inl (quiet_numeral_behind (by decide) _), .inl (quiet_numeral_behind (by decide) _),
      by simp⟩

theorem Denoising.lines_spell (d : Denoising) (gpu : Bool) (s : FormatState) :
    ∀ l ∈ (d.statements gpu s).lines, l.Spells ["KNLMeansCL"] file comment := by
  refine List.forall_mem_singleton.2 (spells_term rfl (by decide) ?_)
  simp only [List.forall_mem_cons]
  refine ⟨quiet_numeral_behind (by decide) _, quiet_numeral_behind (by decide) _,
    quiet_numeral_behind (by decide) _, ?_, ?_, ?_, by simp⟩
  · cases s.samples <;> decide
  · cases s.samples <;> decide
  · cases gpu <;> decide

theorem deringStatements_spell (s : FormatState) :
    ∀ l ∈ (deringStatements s).lines, l.Spells ["HQDeringmod"] file comment := by
  refine List.forall_mem_singleton.2 (spells_term rfl (by decide) ?_)
  cases s.samples <;> decide

theorem Degraining.lines_spell (d : Degraining) (s : FormatState) :
    ∀ l ∈ (d.statements s).lines, l.Spells ["SMDegrain"] file comment := by
  refine List.forall_mem_singleton.2 (spells_term rfl (by decide) ?_)
  simp only [List.forall_mem_cons]
  refine ⟨by decide, quiet_numeral_behind (by decide) _, ?_, ?_, ?_, by simp⟩
  · cases d.prefilter <;> decide
  · cases s.samples <;> decide
  · cases s.samples <;> decide

theorem InterpolatedRate.lines_spell (rate : InterpolatedRate) (threads : Nat) (gpu : Bool) :
    ∀ l ∈ (rate.statements threads gpu).lines, l.Spells ["InterFrame"] file comment := by
  refine List.forall_mem_singleton.2 (spells_term rfl (by decide) ?_)
  simp only [List.forall_mem_cons]
  refine ⟨quiet_numeral_behind (by decide) _, ?_, ?_, ?_, by simp⟩
  · cases gpu <;> decide
  · cases rate with
    | multiple factor =>
      show Quiet ("NewNum=" ++ ("FrameRateNumerator*" ++ Numeral.text factor.toNat))
      rw [← String.append_assoc]
      exact quiet_numeral_behind (by decide) _
    | fixed rate => exact quiet_numeral_behind (by decide) _
  · cases rate with
    | multiple factor => exact (by decide : Quiet ("NewDen=" ++ "FrameRateDenominator"))
    | fixed rate => exact quiet_numeral_behind (by decide) _

theorem resizeStatements_spell {size : FrameSize} {kernel : Downscaler} {s : FormatState}
    {st : Statements} (h : resizeStatements size kernel s = .ok st) :
    ∀ l ∈ st.lines, l.Spells scalingFunctions file comment := by
  have hsize : ∀ a ∈ [Numeral.text size.width, Numeral.text size.height], Quiet a := by
    simp only [List.forall_mem_cons]
    exact ⟨quiet_numeral _, quiet_numeral _, by simp⟩
  unfold resizeStatements at h
  split at h
  · split at h
    · cases h
    · cases h
      refine List.forall_mem_singleton.2 (spells_term rfl (by decide) ?_)
      refine List.forall_mem_append.2 ⟨hsize, List.forall_mem_singleton.2 ?_⟩
      cases kernel <;> decide
  · split at h
    · rename_i resizer hresizer
      cases h
      refine List.forall_mem_singleton.2 (spells_term rfl ?_ hsize)
      cases kernel <;> cases hresizer <;> decide
    · cases h
      exact List.forall_mem_singleton.2 (spells_term rfl (by decide) hsize)

theorem ColorMatrix.lines_spell (m : ColorMatrix) (s : FormatState) :
    ∀ l ∈ (m.statements s).lines, l.Spells correctingFunctions file comment := by
  unfold ColorMatrix.statements
  split
  · simp
  split
  · unfold stackedStatements
    simp only [List.forall_mem_cons]
    refine ⟨spells_term rfl (by decide) ?_, spells_term rfl (by decide) ?_, by simp⟩
    · cases m <;> decide
    · cases s.samples <;> decide
  · cases m with
    | rec709 => simp
    | pc709 =>
      exact List.forall_mem_singleton.2 (spells_term
        (show _ = call "ColorYUV" ["levels=\"PC->TV\""] by simp [call]) (by decide)
        (by decide))
    | rec601 =>
      exact List.forall_mem_singleton.2 (spells_term
        (show _ = call "ColorMatrix" ["mode=\"Rec.601->Rec.709\""] by simp [call]) (by decide)
        (by decide))
    | pc601 =>
      exact List.forall_mem_singleton.2 (spells_term
        (show _ = call "ColorMatrix" ["mode=\"Rec.601->Rec.709\"", "inputFR=true"] by simp [call])
        (by decide) (by decide))

/-- The log stands in quotes among the settings, behind the frame size that stands outside. -/
theorem Deshaking.cites_settingsText (d : Deshaking) : Cites d.log d.settingsText := by
  have hnumeral : ∀ n, ∀ c ∈ (Numeral.text n).toList, isQuiet c = true := fun n c hc =>
    isQuiet_of_isNumeric (isNumeric_of_mem_text hc)
  have hframes : ∀ pass ∈ ["1", "2"], ∀ edges ∈ ["1", "0"], ∀ n, Frames
      ("\"19|" ++ pass ++ "|30|4|1|0|1|0|\" + String(Width) + \"|\" + String(Height) + \"|1|2|" ++
        ("|".intercalate [Numeral.text n, Numeral.text n, Numeral.text n, Numeral.text n] ++
          ("|4|1|" ++ edges ++ "|2|8|30|300|4|")))
      "|0|0|0|0|0|0|0|0|0|0|0|0|0|1|15|15|5|15|0|0|30|30|0|0|0|0|1|0|0|10|1000|1|88|1|1|20|5000|100|20|1\"" := by
    intro pass hpass edges hedges n
    refine frames_behind (c := '|') (d := '|') ?_ (by decide) ?_ ?_ ?_ (by decide) (by decide)
      (by decide)
    · revert pass
      decide
    · revert pass
      decide
    · have hend : ∀ c ∈ ("|4|1|" ++ edges ++ "|2|8|30|300|4|").toList, isQuiet c = true := by
        revert edges
        decide
      intro c hc
      rw [String.toList_append, List.mem_append] at hc
      refine hc.elim (fun hc => ?_) (hend c)
      simp only [String.toList_intercalate, List.map_cons, List.map_nil, List.intercalate_cons_cons,
        List.intercalate_singleton, List.mem_append] at hc
      have hbar : ∀ c ∈ "|".toList, isQuiet c = true := by decide
      rcases hc with (hc | hc) | (hc | hc) | (hc | hc) | hc
      all_goals first | exact hnumeral _ _ hc | exact hbar _ hc
    · rw [String.toList_append, String.toList_append, ← List.append_assoc, List.getLast?_append]
      rfl
  have hsettings := fun pass hpass edges hedges =>
    (hframes pass hpass edges hedges d.options.smoothness.toNat)
  refine ⟨_, _, hsettings (if d.pass = .analyze then "1" else "2") ?_
    (if d.options.edgeCompensation then "1" else "0") ?_, ?_⟩
  · cases d.pass <;> decide
  · cases d.options.edgeCompensation <;> decide
  · simp only [settingsText, String.append_assoc]
    cases d.pass <;> rfl

theorem Deshaking.lines_spell (d : Deshaking) : ∀ l ∈ d.statements.lines,
    l.Spells ["ConvertToRGB32", "Deshaker", "ConvertToYV12"] (some d.log) comment := by
  simp only [statements, List.forall_mem_cons]
  refine ⟨spells_term (show _ = call "ConvertToRGB32" [] by decide) (by decide) (by simp), ?_,
    spells_term (show _ = call "ConvertToYV12" [] by decide) (by decide) (by simp), by simp⟩
  exact .term (by decide) (List.forall_mem_singleton.2 (.inr ⟨_, rfl, d.cites_settingsText⟩))

/-! ## Upscaling -/

namespace Upscaling

theorem quiet_finalArguments (u : Upscaling) : ∀ a ∈ u.finalArguments, Quiet a := by
  unfold finalArguments
  cases u.finalResize with
  | none => simp
  | some r =>
    simp only [List.forall_mem_cons]
    refine ⟨quiet_numeral_behind (by decide) _, quiet_numeral_behind (by decide) _, ?_, by simp⟩
    cases r.kernel <;> decide

theorem plainCall_spells (u : Upscaling) (s : FormatState) :
    (Line.term (u.plainCall s)).Spells ["nnedi3_rpow2", "SuperXBR"] file comment := by
  have hdefault : (Line.term (call "nnedi3_rpow2" (doubling "Spline16Resize"))).Spells
      ["nnedi3_rpow2", "SuperXBR"] file comment := spells_term rfl (by decide) (by decide)
  unfold plainCall
  split
  · split
    · rename_i r _
      split
      · rename_i resizer hresizer
        have hshift : ∀ a ∈ doubling resizer, Quiet a := by
          cases hk : r.kernel <;> rw [hk] at hresizer <;> cases hresizer <;> decide
        refine spells_term rfl (by decide) (List.forall_mem_append.2 ⟨hshift, ?_⟩)
        simp only [List.forall_mem_cons]
        exact ⟨quiet_numeral_behind (by decide) _, quiet_numeral_behind (by decide) _, by simp⟩
      · exact hdefault
    · exact hdefault
  · refine spells_term rfl (by decide) (List.forall_mem_append.2 ⟨?_, u.quiet_finalArguments⟩)
    cases s.samples <;> decide

theorem quiet_inner (n : Nat) : Quiet (quoted (quoted (quoted
    (call "nnedi3_rpow2" (doubling "Spline16Resize" ++ ["threads=" ++ Numeral.text n]))))) := by
  have hloud : ∀ c ∈ ['"', '#', '\n', 'P'], c ∉ (Numeral.text n).toList := fun c hc =>
    not_mem_numeral_of_loud (by revert c; decide) n
  rw [quoted_inner]
  refine (sound_between (by decide) (by decide) (by decide) (hloud _ (by decide))
    (hloud _ (by decide))).quiet ?_ ?_
  · simp [hloud '#' (by decide)]
  · simp [hloud 'P' (by decide)]

theorem boostedCall_spells (u : Upscaling) (b : Boost) (s : FormatState) :
    (Line.term (u.boostedCall b s)).Spells boostedFunctions file comment := by
  have hamounts : ∀ a ∈ [Numeral.text b.passes.toNat, Decimal.hundredths b.strength.toNat,
      Decimal.hundredths b.softness.toNat], Quiet a := by
    simp only [List.forall_mem_cons]
    exact ⟨quiet_numeral _, quiet_hundredths _, quiet_hundredths _, by simp⟩
  have hformat : ∀ a ∈ ["MatrixIn=" ++ quoted (Choice.label (s.pendingMatrix.getD .rec709)),
      "lsb_in=" ++ flag s.samples.isExtended, "lsb_out=" ++ flag s.samples.isExtended]
      ++ (if u.lastPass && s.samples.isFullChroma then ["fCsp=" ++ quoted "YV12"] else [])
      ++ u.finalArguments, Quiet a := by
    simp only [List.forall_mem_append, List.forall_mem_cons]
    refine ⟨⟨⟨?_, ?_, ?_, by simp⟩, ?_⟩, u.quiet_finalArguments⟩
    · cases s.pendingMatrix.getD .rec709 <;> decide
    · cases s.samples <;> decide
    · cases s.samples <;> decide
    · split
      · decide
      · simp
  unfold boostedCall
  cases u.upscaler with
  | nnedi3 =>
    refine spells_term rfl (by decide) (List.forall_mem_append.2 ⟨?_, hformat⟩)
    exact List.forall_mem_append.2 ⟨hamounts, List.forall_mem_singleton.2 (quiet_inner _)⟩
  | superXbr =>
    exact spells_term rfl (by decide) (List.forall_mem_append.2 ⟨hamounts, hformat⟩)

end Upscaling

/-! ## Stages -/

/-- **Only the file that a stage names can make its lines spell a mark.** -/
theorem Stage.lines_spell {stage : Stage} {s : FormatState} {st : Statements}
    (h : stage.statements s = .ok st) :
    ∀ l ∈ st.lines, l.Spells stage.functions stage.file? stage.comment? := by
  cases stage with
  | source clip rate =>
    cases h
    exact List.forall_mem_singleton.2 (sourceLine_spells clip rate)
  | retime rate =>
    cases h
    refine List.forall_mem_singleton.2 (spells_term rfl List.mem_cons_self ?_)
    simp only [List.forall_mem_cons]
    exact ⟨quiet_numeral _, quiet_numeral _, by simp⟩
  | trim cut =>
    cases h
    exact List.forall_mem_singleton.2 cut.line_spells
  | crop margins =>
    cases h
    exact List.forall_mem_singleton.2 margins.line_spells
  | denoise options gpu fullChroma =>
    cases h
    exact options.lines_spell gpu s
  | dering =>
    cases h
    exact deringStatements_spell s
  | upscale u =>
    cases h
    refine List.forall_mem_singleton.2 ?_
    cases hb : u.boost with
    | none => simpa [functions, hb] using u.plainCall_spells s
    | some b => simpa [functions, hb] using u.boostedCall_spells b s
  | degrain options =>
    cases h
    exact options.lines_spell s
  | deshake run =>
    cases h
    exact run.lines_spell
  | interpolate rate threads gpu =>
    cases h
    exact rate.lines_spell threads gpu
  | resize size kernel => exact resizeStatements_spell h
  | correctMatrix m =>
    cases h
    exact m.lines_spell s
  | output =>
    cases h
    simp
  | preview =>
    cases h
    have hcall : "AddBorders(2, 2, 2, 2, $FF0000)" =
        call "AddBorders" ["2", "2", "2", "2", "$FF0000"] := by simp [call]
    refine List.forall_mem_cons.2 ⟨?_, List.forall_mem_singleton.2 ?_⟩
    · rw [hcall]
      exact .commented (by decide) (fun a ha => Quiet.harmless (by revert a; decide) _) rfl
    · exact spells_term (show _ = call "ConvertToRGB32" [] by decide) (by decide) (by simp)
  | prefetch threads =>
    cases h
    exact List.forall_mem_singleton.2
      (spells_term rfl List.mem_cons_self (List.forall_mem_singleton.2 (quiet_numeral _)))

theorem Conversion.line_spells (c : Conversion) (placement : ChromaPlacement) :
    (Line.term (c.callText placement)).Spells convertingFunctions file comment := by
  cases c with
  | promoteChroma =>
    refine spells_term rfl (by decide) ?_
    cases placement <;> decide
  | _ => exact spells_term rfl (by decide) (by decide)

/-! ## Dependencies -/

/-- Everything that stages and conversions depend on. -/
def loadables : List Dependency :=
  ditherTools ++
    [plugin "LSMASHSource.dll", plugin "KNLMeansCL.dll", plugin "RgTools.dll", plugin "mvtools2.dll",
      plugin "svpflow1.dll", plugin "svpflow2.dll", plugin "ColorMatrix.dll", plugin "nnedi3.dll",
      plugin "Shader.dll", imported "HQDeringmod.avsi", imported "SMDegrain.avsi",
      imported "InterFrame2.avsi", imported "SSimDownscaler.avsi", imported "SuperXBR.avsi",
      imported "SuperRes.avsi", imported "SuperResXBR.avsi",
      .loadVirtualDubPlugin ⟨"Deshaker.vdf"⟩ "Deshaker" 0]

theorem Upscaling.dependencies_loadable (u : Upscaling) : u.dependencies ⊆ loadables := by
  unfold dependencies
  split <;> decide

theorem resizeStatements_loadable {size : FrameSize} {kernel : Downscaler} {s : FormatState}
    {st : Statements} (h : resizeStatements size kernel s = .ok st) :
    st.dependencies ⊆ loadables := by
  unfold resizeStatements at h
  split at h
  · split at h
    · cases h
    · cases h
      exact List.subset_append_left _ _
  · split at h
    · cases h
      exact List.nil_subset _
    · cases h
      show [plugin "mt_masktools-26.dll", imported "SSimDownscaler.avsi"] ⊆ loadables
      decide

theorem ColorMatrix.dependencies_loadable (m : ColorMatrix) (s : FormatState) :
    (m.statements s).dependencies ⊆ loadables := by
  unfold ColorMatrix.statements
  split
  · exact List.nil_subset _
  split
  · exact List.subset_append_left _ _
  · cases m with
    | rec709 | pc709 => exact List.nil_subset _
    | rec601 | pc601 =>
      show [plugin "ColorMatrix.dll"] ⊆ loadables
      decide

theorem Stage.dependencies_loadable {stage : Stage} {s : FormatState} {st : Statements}
    (h : stage.statements s = .ok st) : st.dependencies ⊆ loadables := by
  cases stage with
  | source clip rate =>
    cases h
    show [plugin "LSMASHSource.dll"] ⊆ loadables
    decide
  | denoise options gpu fullChroma =>
    cases h
    show [plugin "KNLMeansCL.dll"] ⊆ loadables
    decide
  | dering =>
    cases h
    unfold deringStatements
    cases s.samples <;> decide
  | upscale u =>
    cases h
    exact u.dependencies_loadable
  | degrain options =>
    cases h
    dsimp only [Degraining.statements]
    cases options.prefilter <;> decide
  | deshake run =>
    cases h
    show [.loadVirtualDubPlugin ⟨"Deshaker.vdf"⟩ "Deshaker" 0] ⊆ loadables
    decide
  | interpolate rate threads gpu =>
    cases h
    show [plugin "svpflow1.dll", plugin "svpflow2.dll", imported "InterFrame2.avsi"] ⊆ loadables
    decide
  | resize size kernel => exact resizeStatements_loadable h
  | correctMatrix m =>
    cases h
    exact m.dependencies_loadable s
  | retime _ | trim _ | crop _ | output | preview | prefetch _ =>
    cases h
    exact List.nil_subset _

end Restoration
