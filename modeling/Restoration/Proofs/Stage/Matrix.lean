import Restoration.Proofs.Stage.Calls
import Restoration.Proofs.Stage.Formats

/-!
# What lines say of the colour matrix

A boosted pass of the upscaler is told by `MatrixIn` which matrix its samples come in, and a
correction spells out which one it converts from. No other statement speaks of a matrix: its text
holds no `I` behind its first letter, so none of its arguments can be `MatrixIn=…`.
-/

namespace Restoration

open Statements

/-- The value that a call gives to `MatrixIn`. -/
def Call.matrixIn? (c : Call) : Option String := c.arguments.findSome? (valueOf? "MatrixIn")

/-- The value that a line gives to `MatrixIn`. -/
def Line.matrixIn? (l : Line) : Option String := l.call?.bind Call.matrixIn?

/-- The matrix that a call of a correcting function converts from. -/
def Call.correctedMatrix? (c : Call) : Option ColorMatrix :=
  if c.function = "Dither_convert_yuv_to_rgb" then
    if c.gives "matrix" (quoted "601") then
      some (if c.gives "tv_range" (flag false) then .pc601 else .rec601)
    else if c.gives "matrix" (quoted "709") then
      some (if c.gives "tv_range" (flag false) then .pc709 else .rec709)
    else none
  else if c.function = "ColorMatrix" ∧ c.gives "mode" (quoted "Rec.601->Rec.709") then
    some (if c.gives "inputFR" (flag true) then .pc601 else .rec601)
  else if c.function = "ColorYUV" ∧ c.gives "levels" (quoted "PC->TV") then some .pc709
  else none

/-- What a statement does about the colour matrix. -/
inductive MatrixUse where
  /-- A boosted pass, told to convert from this matrix. -/
  | boosted (matrixIn : Option String)
  /-- The first half or the whole of a correction from this matrix. -/
  | corrected (source : ColorMatrix)
  deriving DecidableEq, Repr

/-- What a call does about the colour matrix. -/
def Call.matrixUse? (c : Call) : Option MatrixUse :=
  if c.function ∈ boostedFunctions then some (.boosted c.matrixIn?)
  else c.correctedMatrix?.map .corrected

/-- What a line does about the colour matrix. -/
def Line.matrixUse? (l : Line) : Option MatrixUse := l.call?.bind Call.matrixUse?

/-- What a script does about the colour matrix, in this order. -/
def Script.matrixUses (s : Script) : List MatrixUse := s.lines.filterMap Line.matrixUse?

/-! ## Arguments in the text of a call -/

theorem mem_of_mem_cutAtCommas {quoted : Bool} {t piece : List Char}
    (h : piece ∈ Script.cutAtCommas quoted t) : piece ⊆ t := by
  induction t generalizing quoted piece with
  | nil =>
    rw [List.mem_singleton.1 h]
    exact List.Subset.refl _
  | cons c r ih =>
    rw [Script.cutAtCommas] at h
    split at h
    · rcases List.mem_cons.1 h with rfl | h
      · exact List.nil_subset _
      · exact List.Subset.trans (ih h) (List.subset_cons_self c r)
    · split at h
      · rw [List.mem_singleton.1 h]
        exact List.cons_subset_cons c (List.nil_subset r)
      · rename_i front rest heq
        rcases List.mem_cons.1 h with rfl | h
        · exact List.cons_subset_cons c (ih (heq ▸ List.mem_cons_self))
        · exact List.Subset.trans (ih (heq ▸ List.mem_cons_of_mem _ h)) (List.subset_cons_self c r)

theorem trimEnd_subset (t : List Char) : Text.trimEnd t ⊆ t := by
  intro c hc
  rw [Text.trimEnd, List.mem_reverse] at hc
  exact List.mem_reverse.1 ((List.dropWhile_sublist _).subset hc)

theorem trim_subset (t : List Char) : Text.trim t ⊆ t :=
  List.Subset.trans (trimEnd_subset _) (List.dropWhile_sublist _).subset

theorem splitArguments_subset {t a : List Char} (h : a ∈ Script.splitArguments t) : a ⊆ t := by
  have hpieces : a ∈ (Script.cutAtCommas false t).map Text.trim := by
    rw [Script.splitArguments_eq] at h
    split at h
    · cases h
    · exact h
  obtain ⟨piece, hpiece, rfl⟩ := List.mem_map.1 hpieces
  exact List.Subset.trans (trim_subset piece) (mem_of_mem_cutAtCommas hpiece)

/-- What stands behind a character in a text stands behind its first letter. -/
theorem Text.splitOnce?_suffix {c : Char} {t before after : List Char}
    (h : Text.splitOnce? c t = some (before, after)) : after <:+ t.tail := by
  unfold Text.splitOnce? at h
  split at h
  · cases h
  · rename_i d rest hdrop
    cases h
    have hsuffix : d :: after <:+ t := hdrop ▸ List.dropWhile_suffix _
    obtain ⟨front, rfl⟩ := hsuffix
    cases front with
    | nil => exact List.suffix_refl _
    | cons e front => exact ⟨front ++ [d], by simp⟩

theorem Text.dropTail?_subset {tail t rest : List Char} (h : Text.dropTail? tail t = some rest) :
    rest ⊆ t := by
  unfold Text.dropTail? at h
  split at h
  · cases h
    exact List.take_subset _ _
  · cases h

/-- What stands in an argument stands in the text of the call, behind its first letter. -/
theorem arguments_subset {t : List Char} {c : Call} (h : readCall? t = some c) {a : String}
    (ha : a ∈ c.arguments) : a.toList ⊆ t.tail := by
  simp only [readCall?, Option.bind_eq_bind, Option.bind_eq_some_iff] at h
  obtain ⟨⟨function, rest⟩, hsplit, inner, hinner, hc⟩ := h
  cases hc
  obtain ⟨b, hb, rfl⟩ := List.mem_map.1 ha
  rw [String.toList_ofList]
  exact List.Subset.trans (List.Subset.trans (splitArguments_subset hb)
    (Text.dropTail?_subset hinner)) (Text.splitOnce?_suffix hsplit).subset

/-! ## Statements without `MatrixIn` -/

theorem valueOf?_matrixIn {a : String} (h : 'I' ∉ a.toList) : valueOf? "MatrixIn" a = none :=
  valueOf?_eq_none fun hkey => h (hkey.subset (by decide))

theorem Call.matrixIn?_eq_none {c : Call} (h : ∀ a ∈ c.arguments, 'I' ∉ a.toList) :
    c.matrixIn? = none :=
  List.findSome?_eq_none_iff.2 fun a ha => valueOf?_matrixIn (h a ha)

/-- The line makes a call in whose text no `I` stands behind the first letter. -/
def Line.Lacks (l : Line) : Prop := ∃ t, l.call? = readCall? t ∧ 'I' ∉ t.tail

theorem Line.Lacks.matrixIn? {l : Line} (h : l.Lacks) : l.matrixIn? = none := by
  obtain ⟨t, hl, ht⟩ := h
  rw [Line.matrixIn?, hl]
  cases hc : readCall? t with
  | none => rfl
  | some c => exact Call.matrixIn?_eq_none fun a ha hI => ht (arguments_subset hc ha hI)

theorem not_mem_numeral (n : Nat) : 'I' ∉ (Numeral.text n).toList := fun h =>
  absurd (isNumeric_of_mem_text h) (by decide)

theorem not_mem_hundredths (n : Nat) : 'I' ∉ (Decimal.hundredths n).toList := fun h =>
  absurd (isNumeric_of_mem_hundredths h) (by decide)

theorem not_mem_flag (b : Bool) : 'I' ∉ (flag b).toList := by cases b <;> decide

/-- A call lacks an `I` if its name does behind the first letter, and all its arguments do. -/
theorem lacks_call {f : String} {as : List String} {l : Line}
    (hl : l.call? = readCall? (call f as).toList) (hf : f.toList ≠ [] ∧ 'I' ∉ f.toList.tail)
    (has : ∀ a ∈ as, 'I' ∉ a.toList) : l.Lacks := by
  refine ⟨_, hl, ?_⟩
  have hseparated : ∀ bs : List (List Char), (∀ b ∈ bs, 'I' ∉ b) →
      'I' ∉ [',', ' '].intercalate bs := by
    intro bs hbs
    induction bs with
    | nil => simp
    | cons b bs ih =>
      have ih := ih fun c hc => hbs c (List.mem_cons_of_mem _ hc)
      cases bs with
      | nil => simpa using hbs b List.mem_cons_self
      | cons c bs =>
        rw [List.intercalate_cons_cons]
        simp [hbs b List.mem_cons_self, ih]
  have hargs := hseparated (as.map String.toList) (by simpa using has)
  rw [toList_call, List.tail_append_of_ne_nil hf.1]
  simp [hf.2, hargs]

/-! ## Lines of stages -/

theorem FrameCut.lacks_line (cut : FrameCut) : cut.line.Lacks := by
  have hcall : cut.line.call? = readCall? cut.callText.toList := by
    unfold FrameCut.line
    split <;> rfl
  refine lacks_call hcall (by decide) ?_
  simp only [List.forall_mem_cons]
  refine ⟨not_mem_numeral _, ?_, by simp⟩
  split
  · split
    · decide
    · exact not_mem_numeral _
  · decide

theorem Denoising.lines_lack (d : Denoising) (gpu : Bool) (s : FormatState) :
    ∀ l ∈ (d.statements gpu s).lines, l.Lacks := by
  refine List.forall_mem_singleton.2 (lacks_call rfl (by decide) ?_)
  have hdevice : 'I' ∉ (quoted (if gpu then "GPU" else "CPU")).toList := by cases gpu <;> decide
  simp [not_mem_numeral, not_mem_flag, hdevice]

theorem Degraining.lines_lack (d : Degraining) (s : FormatState) :
    ∀ l ∈ (d.statements s).lines, l.Lacks := by
  refine List.forall_mem_singleton.2 (lacks_call rfl (by decide) ?_)
  have hcode : 'I' ∉ d.prefilter.code.toList := by cases d.prefilter <;> decide
  simp [not_mem_numeral, not_mem_flag, hcode]

theorem InterpolatedRate.lines_lack (rate : InterpolatedRate) (threads : Nat) (gpu : Bool) :
    ∀ l ∈ (rate.statements threads gpu).lines, l.Lacks := by
  refine List.forall_mem_singleton.2 (lacks_call rfl (by decide) ?_)
  cases rate <;> simp [not_mem_numeral, not_mem_flag]

theorem resizeStatements_lack {size : FrameSize} {kernel : Downscaler} {s : FormatState}
    {st : Statements} (h : resizeStatements size kernel s = .ok st) : ∀ l ∈ st.lines, l.Lacks := by
  have hsize : ∀ a ∈ [Numeral.text size.width, Numeral.text size.height], 'I' ∉ a.toList := by
    simp [not_mem_numeral]
  unfold resizeStatements at h
  split at h
  · split at h
    · cases h
    · cases h
      have hkernel : 'I' ∉ (quoted kernel.kernel).toList := by cases kernel <;> decide
      refine List.forall_mem_singleton.2 (lacks_call rfl (by decide) ?_)
      simp [not_mem_numeral, hkernel]
  · split at h
    · rename_i resizer hresizer
      cases h
      refine List.forall_mem_singleton.2 (lacks_call rfl ?_ hsize)
      cases kernel <;> cases hresizer <;> decide
    · cases h
      exact List.forall_mem_singleton.2 (lacks_call rfl (by decide) hsize)

theorem ColorMatrix.lines_lack (m : ColorMatrix) (s : FormatState) :
    ∀ l ∈ (m.statements s).lines, l.Lacks := by
  have hterm : ∀ {t : String}, 'I' ∉ t.toList.tail → (Line.term t).Lacks := fun ht => ⟨_, rfl, ht⟩
  unfold ColorMatrix.statements
  split
  · simp
  split
  · unfold stackedStatements
    simp only [List.forall_mem_cons]
    refine ⟨lacks_call rfl (by decide) ?_, lacks_call rfl (by decide) ?_, by simp⟩
    · cases m <;> decide
    · cases s.samples <;> decide
  · cases m
    · exact List.forall_mem_singleton.2 (hterm (by decide))
    · exact List.forall_mem_singleton.2 (hterm (by decide))
    · simp
    · exact List.forall_mem_singleton.2 (hterm (by decide))

theorem Upscaling.lacks_plainCall (u : Upscaling) (s : FormatState) :
    (Line.term (u.plainCall s)).Lacks := by
  have hdoubling : ∀ shift, 'I' ∉ (quoted shift).toList → ∀ a ∈ doubling shift, 'I' ∉ a.toList := by
    intro shift hshift
    simp [doubling, hshift]
  have hdefault : (Line.term (call "nnedi3_rpow2" (doubling "Spline16Resize"))).Lacks :=
    lacks_call rfl (by decide) (hdoubling _ (by decide))
  unfold plainCall
  split
  · split
    · rename_i r _
      split
      · rename_i resizer hresizer
        have hshift : 'I' ∉ (quoted resizer).toList := by
          cases hk : r.kernel <;> rw [hk] at hresizer <;> cases hresizer <;> decide
        refine lacks_call rfl (by decide) ?_
        rw [List.forall_mem_append]
        exact ⟨hdoubling _ hshift, by simp [not_mem_numeral]⟩
      · exact hdefault
    · exact hdefault
  · refine lacks_call rfl (by decide) ?_
    have hlabel : ∀ kernel : Downscaler, 'I' ∉ (quoted (Choice.label kernel)).toList := by
      intro kernel
      cases kernel <;> decide
    rw [List.forall_mem_append]
    refine ⟨by simp [not_mem_flag], ?_⟩
    unfold finalArguments
    split
    · simp [not_mem_numeral, hlabel]
    · simp

/-- No statement speaks of `MatrixIn`, but for boosted passes and calls that name a file. -/
theorem Stage.lines_lack {stage : Stage} {s : FormatState} {st : Statements}
    (h : stage.statements s = .ok st) :
    ∀ l ∈ st.lines, l.CallsOf boostedFunctions ∨ l.CallsOf namingFunctions ∨ l.Lacks := by
  have quiet : (∀ l ∈ st.lines, l.Lacks) →
      ∀ l ∈ st.lines, l.CallsOf boostedFunctions ∨ l.CallsOf namingFunctions ∨ l.Lacks :=
    fun hlack l hl => .inr (.inr (hlack l hl))
  have hterm : ∀ {t : String}, 'I' ∉ t.toList.tail → (Line.term t).Lacks := fun ht => ⟨_, rfl, ht⟩
  cases stage with
  | source clip rate =>
    cases h
    exact List.forall_mem_singleton.2 (.inr (.inl (callsOf_term (by decide) (by decide) rfl)))
  | retime rate =>
    cases h
    exact quiet (List.forall_mem_singleton.2
      (lacks_call rfl (by decide) (by simp [not_mem_numeral])))
  | trim cut =>
    cases h
    exact quiet (List.forall_mem_singleton.2 cut.lacks_line)
  | crop margins =>
    cases h
    exact quiet (List.forall_mem_singleton.2
      (lacks_call rfl (by decide) (by simp [not_mem_numeral])))
  | denoise options gpu fullChroma =>
    cases h
    exact quiet (options.lines_lack gpu s)
  | dering =>
    cases h
    exact quiet (List.forall_mem_singleton.2 (lacks_call rfl (by decide) (by simp [not_mem_flag])))
  | upscale u =>
    cases h
    refine List.forall_mem_singleton.2 ?_
    cases hb : u.boost with
    | none => exact .inr (.inr (u.lacks_plainCall s))
    | some b => exact .inl (u.boostedCall_callsOf b s)
  | degrain options =>
    cases h
    exact quiet (options.lines_lack s)
  | deshake run =>
    cases h
    simp only [Deshaking.statements, List.forall_mem_cons]
    refine ⟨.inr (.inr (hterm (by decide))), ?_, .inr (.inr (hterm (by decide))), by simp⟩
    exact .inr (.inl (callsOf_term (by decide) (by decide) rfl))
  | interpolate rate threads gpu =>
    cases h
    exact quiet (rate.lines_lack threads gpu)
  | resize size kernel => exact quiet (resizeStatements_lack h)
  | correctMatrix m =>
    cases h
    exact quiet (m.lines_lack s)
  | output =>
    cases h
    simp
  | preview =>
    cases h
    refine quiet (List.forall_mem_cons.2 ⟨⟨_, rfl, by decide +kernel⟩, ?_⟩)
    exact List.forall_mem_singleton.2 (hterm (by decide))
  | prefetch threads =>
    cases h
    exact quiet (List.forall_mem_singleton.2
      (lacks_call rfl (by decide) (by simp [not_mem_numeral])))

/-! ## Names of files -/

theorem valueOf?_of_quote {n a : String} (hn : (keyText n).head? ≠ some '"')
    (h : a.toList.head? = some '"') : valueOf? n a = none := by
  refine valueOf?_eq_none fun hkey => hn ?_
  obtain ⟨r, hr⟩ := hkey
  obtain ⟨c, k, hck⟩ := List.exists_cons_of_ne_nil (show keyText n ≠ [] by simp [keyText])
  rw [← h, ← hr, hck]
  rfl

/-- A call with arguments that hold together speaks of `MatrixIn` only in these. -/
theorem matrixIn?_call {f : String} {as : List String} (hf : '(' ∉ f.toList)
    (has : ∀ a ∈ as, Script.isArgument a.toList = true) :
    (Line.term (call f as)).matrixIn? = as.findSome? (valueOf? "MatrixIn") := by
  have hcall : (Line.term (call f as)).call? = some ⟨f, as⟩ := readCall?_call hf has
  rw [Line.matrixIn?, hcall]
  rfl

/-- The name of a clip without quotes cannot be taken for another argument. -/
theorem matrixIn?_sourceLine (clip : Path) (rate : Option FrameRate)
    (h : '"' ∉ clip.forEngine.text.toList) : (sourceLine clip rate).matrixIn? = none := by
  have hclip : Plain (quoted clip.forEngine.text) := plain_of_encloses (by decide) h
  have hread : ∀ rest : List String, (∀ a ∈ rest, Plain a ∧ 'I' ∉ a.toList) →
      (Line.term (call "LWLibavVideoSource" (quoted clip.forEngine.text :: rest))).matrixIn? =
        none := by
    intro rest hrest
    rw [matrixIn?_call (by decide)
      (List.forall_mem_cons.2 ⟨hclip.whole, fun a ha => (hrest a ha).1.whole⟩)]
    rw [List.findSome?_cons, valueOf?_of_quote (by decide) (by simp [quoted])]
    exact List.findSome?_eq_none_iff.2 fun a ha => valueOf?_matrixIn (hrest a ha).2
  have hcache : Plain "cache=false" ∧ 'I' ∉ "cache=false".toList := by decide
  cases rate with
  | none => exact hread ["cache=false"] (List.forall_mem_singleton.2 hcache)
  | some r =>
    refine hread ["cache=false", "fpsnum=" ++ Numeral.text r.numerator,
      "fpsden=" ++ Numeral.text r.denominator] ?_
    simp only [List.forall_mem_cons]
    exact ⟨hcache, ⟨plain_numeral_behind (by decide) _, by simp [not_mem_numeral]⟩,
      ⟨plain_numeral_behind (by decide) _, by simp [not_mem_numeral]⟩, by simp⟩

theorem Deshaking.matrixIn? (d : Deshaking) (h : '"' ∉ d.log.text.toList) :
    (Line.term (call "Deshaker" [d.settingsText])).matrixIn? = none := by
  have hquote : d.settingsText.toList.head? = some '"' := by simp [settingsText]
  rw [matrixIn?_call (by decide)
    (List.forall_mem_singleton.2 (d.plain_settingsText h).whole)]
  simp [valueOf?_of_quote (show (keyText "MatrixIn").head? ≠ some '"' by decide) hquote]

/-! ## Boosted passes and corrections -/

/-- A boosted pass is told the matrix that still waits. -/
theorem Upscaling.matrixIn?_boostedCall (u : Upscaling) (b : Boost) (s : FormatState) :
    (Line.term (u.boostedCall b s)).matrixIn? =
      some (quoted (Choice.label (s.pendingMatrix.getD .rec709))) := by
  generalize hm : quoted (Choice.label (s.pendingMatrix.getD .rec709)) = m
  have hlabel : Script.isArgument ("MatrixIn=" ++ m).toList = true := by
    rw [← hm]
    cases s.pendingMatrix.getD .rec709 <;> decide
  have hafter : ∀ a ∈ ["lsb_in=" ++ flag s.samples.isExtended,
      "lsb_out=" ++ flag s.samples.isExtended] ++
      (if u.lastPass && s.samples.isFullChroma then ["fCsp=" ++ quoted "YV12"] else []) ++
      u.finalArguments, Script.isArgument a.toList = true := by
    simp only [List.forall_mem_append, List.forall_mem_cons]
    refine ⟨⟨⟨(fits_depth _ _ (by simp)).whole, (fits_depth _ _ (by simp)).whole, by simp⟩, ?_⟩,
      fun a ha => (u.fits_finalArguments s.samples a ha).whole⟩
    split
    · decide
    · simp
  have hamounts : ∀ a ∈ [Numeral.text b.passes.toNat, Decimal.hundredths b.strength.toNat,
      Decimal.hundredths b.softness.toNat],
      Script.isArgument a.toList = true ∧ valueOf? "MatrixIn" a = none := by
    simp only [List.forall_mem_cons]
    exact ⟨⟨(plain_numeral _).whole, valueOf?_matrixIn (not_mem_numeral _)⟩,
      ⟨(plain_hundredths _).whole, valueOf?_matrixIn (not_mem_hundredths _)⟩,
      ⟨(plain_hundredths _).whole, valueOf?_matrixIn (not_mem_hundredths _)⟩, by simp⟩
  have hvalue : valueOf? "MatrixIn" ("MatrixIn=" ++ m) = some m := by
    have hkey : ("MatrixIn=" ++ m).toList = keyText "MatrixIn" ++ m.toList := by
      rw [String.toList_append]
      rfl
    rw [valueOf?, hkey, Text.dropLead?_append, Option.map_some, String.ofList_toList]
  have hread : ∀ (f : String) (before after : List String), '(' ∉ f.toList →
      (∀ a ∈ before, Script.isArgument a.toList = true ∧ valueOf? "MatrixIn" a = none) →
      (∀ a ∈ after, Script.isArgument a.toList = true) →
      (Line.term (call f (before ++ ("MatrixIn=" ++ m) :: after))).matrixIn? = some m := by
    intro f before after hf hbefore hafter
    rw [matrixIn?_call hf]
    · rw [List.findSome?_append,
        List.findSome?_eq_none_iff.2 fun a ha => (hbefore a ha).2]
      simp [hvalue]
    · rw [List.forall_mem_append, List.forall_mem_cons]
      exact ⟨fun a ha => (hbefore a ha).1, hlabel, hafter⟩
  cases hu : u.upscaler with
  | nnedi3 =>
    have hinner := plain_inner u.threads
    have hbefore := List.forall_mem_append.2 ⟨hamounts, List.forall_mem_singleton.2
      ⟨hinner.whole, valueOf?_of_quote (by decide) (by simp [quoted])⟩⟩
    have h := hread "SuperRes" _ _ (by decide) hbefore hafter
    simpa only [boostedCall, hu, hm, List.append_assoc, List.cons_append, List.nil_append] using h
  | superXbr =>
    have h := hread "SuperResXBR" _ _ (by decide) hamounts hafter
    simpa only [boostedCall, hu, hm, List.append_assoc, List.cons_append, List.nil_append] using h

theorem Call.matrixUse?_of_function {c : Call} (hboosted : c.function ∉ boostedFunctions)
    (hcorrecting : c.function ∉ correctingFunctions) : c.matrixUse? = none := by
  simp only [correctingFunctions, List.mem_cons, List.not_mem_nil, or_false, not_or] at hcorrecting
  simp [Call.matrixUse?, hboosted, Call.correctedMatrix?, hcorrecting]

/-- The first half of the conversion of stacked samples spells out the matrix. -/
theorem matrixUse?_toRgb {matrix : String} (hmatrix : matrix ∈ ["601", "709"]) (tvRange : Bool) :
    (Line.term (call "Dither_convert_yuv_to_rgb" ["matrix=" ++ quoted matrix,
      "tv_range=" ++ flag tvRange, "lsb_in=true", "output=" ++ quoted "rgb48y"])).matrixUse? =
      some (.corrected (if matrix = "601" then if tvRange then .rec601 else .pc601
        else if tvRange then .rec709 else .pc709)) := by
  have has : ∀ matrix ∈ ["601", "709"], ∀ tvRange : Bool, ∀ a ∈ ["matrix=" ++ quoted matrix,
      "tv_range=" ++ flag tvRange, "lsb_in=true", "output=" ++ quoted "rgb48y"],
      Script.isArgument a.toList = true := by decide
  have huse : ∀ matrix ∈ ["601", "709"], ∀ tvRange : Bool, (⟨"Dither_convert_yuv_to_rgb",
      ["matrix=" ++ quoted matrix, "tv_range=" ++ flag tvRange, "lsb_in=true",
        "output=" ++ quoted "rgb48y"]⟩ : Call).matrixUse? =
      some (.corrected (if matrix = "601" then if tvRange then .rec601 else .pc601
        else if tvRange then .rec709 else .pc709)) := by decide
  rw [Line.matrixUse?, Line.call?, readCall?_call (by decide) (has matrix hmatrix tvRange)]
  exact huse matrix hmatrix tvRange

/-- The second half is the same for all matrices, and says nothing of them. -/
theorem matrixUse?_fromRgb (as : List String) :
    (Line.term (call "Dither_convert_rgb_to_yuv" as)).matrixUse? = none := by
  obtain ⟨bs, hcall⟩ := readCall?_function
    (show '(' ∉ "Dither_convert_rgb_to_yuv".toList by decide) as
  rw [Line.matrixUse?, Line.call?, hcall]
  simp [Call.matrixUse?, Call.correctedMatrix?, boostedFunctions]

/-- A correction spells out the matrix that it converts from, in any format. -/
theorem ColorMatrix.filterMap_matrixUse? (m : ColorMatrix) (s : FormatState) :
    (m.statements s).lines.filterMap Line.matrixUse? =
      if m = .rec709 then [] else [.corrected m] := by
  have hlevels : (Line.term "ColorYUV(levels=\"PC->TV\")").matrixUse? = some (.corrected .pc709) := by
    decide +kernel
  have hmode : (Line.term "ColorMatrix(mode=\"Rec.601->Rec.709\")").matrixUse? =
      some (.corrected .rec601) := by decide +kernel
  have hrange : (Line.term "ColorMatrix(mode=\"Rec.601->Rec.709\", inputFR=true)").matrixUse? =
      some (.corrected .pc601) := by decide +kernel
  unfold ColorMatrix.statements
  by_cases hm : m = .rec709
  · rw [if_pos hm, if_pos hm]
    rfl
  rw [if_neg hm, if_neg hm]
  split
  · have hfirst := matrixUse?_toRgb (show "601" ∈ _ by decide)
    have hfull := matrixUse?_toRgb (show "709" ∈ _ by decide) false
    cases m with
    | rec709 => exact absurd rfl hm
    | rec601 => simp [stackedStatements, hfirst, matrixUse?_fromRgb]
    | pc601 => simp [stackedStatements, hfirst, matrixUse?_fromRgb]
    | pc709 => simp [stackedStatements, hfull, matrixUse?_fromRgb]
  · cases m with
    | rec709 => exact absurd rfl hm
    | rec601 => simp [hmode]
    | pc601 => simp [hrange]
    | pc709 => simp [hlevels]

/-- What a stage does about the colour matrix while `pending` waits. -/
def Stage.matrixUses (pending : Option ColorMatrix) : Stage → List MatrixUse
  | upscale u =>
    if u.boost.isSome then [.boosted (some (quoted (Choice.label (pending.getD .rec709))))] else []
  | correctMatrix m => if m = .rec709 then [] else [.corrected m]
  | _ => []

theorem Stage.filterMap_matrixUse? {stage : Stage} {s : FormatState} {st : Statements}
    (h : stage.statements s = .ok st) :
    st.lines.filterMap Line.matrixUse? = stage.matrixUses s.pendingMatrix := by
  have quiet : (∀ f ∈ stage.functions, f ∉ boostedFunctions ∧ f ∉ correctingFunctions) →
      st.lines.filterMap Line.matrixUse? = [] := by
    refine fun hfs => List.filterMap_eq_nil_iff.2 fun l hl => ?_
    obtain ⟨c, hc, hmem⟩ := Stage.lines_callsOf h l hl
    rw [Line.matrixUse?, hc]
    exact Call.matrixUse?_of_function (hfs _ hmem).1 (hfs _ hmem).2
  cases stage with
  | upscale u =>
    cases hb : u.boost with
    | none =>
      rw [quiet (by simp [functions, hb, boostedFunctions, correctingFunctions]), matrixUses, hb]
      rfl
    | some b =>
      cases h
      obtain ⟨c, hc, hmem⟩ := u.boostedCall_callsOf b s
      have hmatrix := u.matrixIn?_boostedCall b s
      rw [Line.matrixIn?, hc] at hmatrix
      have huse : (Line.term (u.boostedCall b s)).matrixUse? =
          some (.boosted (some (quoted (Choice.label (s.pendingMatrix.getD .rec709))))) := by
        rw [Line.matrixUse?, hc]
        show c.matrixUse? = _
        rw [Call.matrixUse?, if_pos hmem, ← hmatrix]
        rfl
      simp [Upscaling.statements, matrixUses, hb, huse]
  | correctMatrix m =>
    cases h
    exact m.filterMap_matrixUse? s
  | resize size kernel =>
    exact quiet (by simp [functions, scalingFunctions, boostedFunctions, correctingFunctions])
  | _ => exact quiet (by simp [functions, boostedFunctions, correctingFunctions])

end Restoration
