import Restoration.Proofs.Job.Filing
import Restoration.Proofs.Json.Reading

/-!
# Records come back

A job that is filed is read again, all of it but its processes, which are not filed:

    ofText j.recordText = ok { j with processes := [] }

Its numbers have to fit in a word, and its floats in their texts. Otherwise a float comes back as
another one, and one that is not finite does not come back at all:

    ofText j.recordText = ok k   ↔   j.reread? = some k
-/

namespace Restoration

open Json

theorem Json.says_uint32? (o : Option UInt32) : Says (ofOption ofUInt32 o) (optional uint32) o :=
  says_option fun n _ => gives_uint32 n

/-- A float that may be missing comes back as it was if it does when it is there. -/
theorem Json.bind_reread?_eq_self {o : Option Float} :
    o.bind reread? = o ↔ ∀ x ∈ o.toList, ReadsBack x := by
  cases o <;> simp [readsBack_iff_reread]

/-! ## Parts of a job -/

namespace SourceTraits

/-- The floats among what is known of a source. -/
def floats (s : SourceTraits) : List Float := s.aspectRatio.toList ++ s.frameRate.toList

/-- The traits as they come back. -/
def reread (s : SourceTraits) : SourceTraits :=
  { s with aspectRatio := s.aspectRatio.bind reread?, frameRate := s.frameRate.bind reread? }

theorem reread_eq_self {s : SourceTraits} : s.reread = s ↔ ∀ x ∈ s.floats, ReadsBack x := by
  rw [floats, List.forall_mem_append, ← bind_reread?_eq_self, ← bind_reread?_eq_self]
  obtain ⟨width, height, aspect, rate, matrix, placement⟩ := s
  simp [reread]

theorem gives (s : SourceTraits) : Gives s.toJson SourceTraits.read s.reread := by
  have width := says_uint32? s.width
  have height := says_uint32? s.height
  have aspect := says_float s.aspectRatio
  have rate := says_float s.frameRate
  have matrix := (gives_choice (Choice.ofName?_colorMatrix s.colorMatrix)).toSays
  have placement := (gives_choice (Choice.ofName?_chromaPlacement s.chromaPlacement)).toSays
  have record : IsRecord [widthField.rule, heightField.rule, aspectField.rule, rateField.rule,
      matrixField.rule, placementField.rule] _ :=
    ⟨.cons widthField width <| .cons heightField height <| .cons aspectField aspect <|
      .cons rateField rate <| .cons matrixField matrix <| .cons placementField placement .nil,
      by decide⟩
  refine record.gives ?_
  simp only [SourceTraits.read, record.checked, bind, Except.bind, record.get widthField 0 rfl width,
    record.get heightField 1 rfl height, record.get aspectField 2 rfl aspect,
    record.get rateField 3 rfl rate, record.get matrixField 4 rfl matrix,
    record.get placementField 5 rfl placement]
  rfl

end SourceTraits

theorem Margins.gives (m : Margins) : Gives m.toJson Margins.read m := by
  have left := (gives_uint32 m.left).toSays
  have top := (gives_uint32 m.top).toSays
  have right := (gives_uint32 m.right).toSays
  have bottom := (gives_uint32 m.bottom).toSays
  have record : IsRecord [leftField.rule, topField.rule, rightField.rule, bottomField.rule] _ :=
    ⟨.cons leftField left <| .cons topField top <| .cons rightField right <|
      .cons bottomField bottom .nil, by decide⟩
  refine record.gives ?_
  simp only [Margins.read, record.checked, bind, Except.bind, record.get leftField 0 rfl left,
    record.get topField 1 rfl top, record.get rightField 2 rfl right,
    record.get bottomField 3 rfl bottom]
  rfl

theorem Boost.gives (b : Boost) : Gives b.toJson Boost.read b := by
  have passes := (gives_uint8 b.passes).toSays
  have strength := (gives_uint8 b.strength).toSays
  have softness := (gives_uint8 b.softness).toSays
  have record : IsRecord [passesField.rule, strengthField.rule, softnessField.rule] _ :=
    ⟨.cons passesField passes <| .cons strengthField strength <|
      .cons softnessField softness .nil, by decide⟩
  refine record.gives ?_
  simp only [Boost.read, record.checked, bind, Except.bind, record.get passesField 0 rfl passes,
    record.get strengthField 1 rfl strength, record.get softnessField 2 rfl softness]
  rfl

theorem Denoising.gives (d : Denoising) : Gives d.toJson Denoising.read d := by
  have strength := (gives_uint8 d.strength).toSays
  have temporal := (gives_uint8 d.temporalRadius).toSays
  have spatial := (gives_uint8 d.spatialRadius).toSays
  have record : IsRecord [strengthField.rule, temporalField.rule, spatialField.rule] _ :=
    ⟨.cons strengthField strength <| .cons temporalField temporal <|
      .cons spatialField spatial .nil, by decide⟩
  refine record.gives ?_
  simp only [Denoising.read, record.checked, bind, Except.bind,
    record.get strengthField 0 rfl strength, record.get temporalField 1 rfl temporal,
    record.get spatialField 2 rfl spatial]
  rfl

theorem Degraining.gives (d : Degraining) : Gives d.toJson Degraining.read d := by
  have strength := (gives_uint32 d.strength).toSays
  have prefilter := (gives_choice (Choice.ofName?_prefilter d.prefilter)).toSays
  have record : IsRecord [strengthField.rule, prefilterField.rule] _ :=
    ⟨.cons strengthField strength <| .cons prefilterField prefilter .nil, by decide⟩
  refine record.gives ?_
  simp only [Degraining.read, record.checked, bind, Except.bind,
    record.get strengthField 0 rfl strength, record.get prefilterField 1 rfl prefilter]
  rfl

theorem Stabilization.gives (s : Stabilization) : Gives s.toJson Stabilization.read s := by
  have smoothness := (gives_uint32 s.smoothness).toSays
  have edges := (gives_bool s.edgeCompensation).toSays
  have record : IsRecord [smoothnessField.rule, edgesField.rule] _ :=
    ⟨.cons smoothnessField smoothness <| .cons edgesField edges .nil, by decide⟩
  refine record.gives ?_
  simp only [Stabilization.read, record.checked, bind, Except.bind,
    record.get smoothnessField 0 rfl smoothness, record.get edgesField 1 rfl edges]
  rfl

namespace Interpolation

/-- The float of a frame rate to interpolate, if there is one. -/
def floats : Interpolation → List Float
  | multiply _ => []
  | target rate => [rate]

/-- The frame rate as it comes back. -/
def reread? : Interpolation → Option Interpolation
  | multiply factor => some (multiply factor)
  | target rate => (Json.reread? rate).map target

theorem reread?_eq_self {i : Interpolation} : i.reread? = some i ↔ ∀ x ∈ i.floats, ReadsBack x := by
  cases i with
  | multiply factor => simp [reread?, floats]
  | target rate => simp [reread?, floats, readsBack_iff_reread]

theorem gives {i k : Interpolation} (h : i.reread? = some k) :
    Gives i.toJson Interpolation.read k := by
  cases i with
  | multiply factor =>
    cases h
    refine gives_named (by decide) ?_
    simp only [if_true]
    exact ((gives_uint8 factor).map multiply).toSays
  | target rate =>
    obtain ⟨y, hy, rfl⟩ := Option.map_eq_some_iff.1 h
    have hne : "Target" ≠ "Multiply" := by decide
    refine gives_named (by decide) ?_
    simp only [if_neg hne]
    exact ((gives_float hy).map target).toSays

theorem whole (i : Interpolation) : i.toJson.Whole := by
  cases i with
  | multiply factor => exact whole_ofMembers (List.forall_mem_singleton.2 (gives_uint8 factor).whole)
  | target rate => exact whole_ofMembers (List.forall_mem_singleton.2 (says_float (some rate)).whole)

/-- Nothing stands for a frame rate that does not come back, and nothing is read from that. -/
theorem read_of_lost {i : Interpolation} (h : i.reread? = none) :
    ∃ fault, Json.optional Interpolation.read i.toJson = .error fault := by
  cases i with
  | multiply factor => cases h
  | target rate =>
    have hlost : Json.reread? rate = none := Option.map_eq_none_iff.1 h
    rw [toJson, ofFloat_of_lost hlost]
    exact ⟨_, rfl⟩

end Interpolation

namespace Span

/-- The ends of the part of the source to keep. -/
def floats (s : Span) : List Float := s.start.toList ++ s.stop.toList

/-- The ends as they come back. -/
def reread (s : Span) : Span :=
  { start := s.start.bind reread?, stop := s.stop.bind reread? }

theorem reread_eq_self {s : Span} : s.reread = s ↔ ∀ x ∈ s.floats, ReadsBack x := by
  rw [floats, List.forall_mem_append, ← bind_reread?_eq_self, ← bind_reread?_eq_self]
  obtain ⟨start, stop⟩ := s
  simp [reread]

theorem gives (s : Span) : Gives s.toJson Span.read s.reread := by
  have start := says_float s.start
  have stop := says_float s.stop
  have record : IsRecord [startField.rule, stopField.rule] _ :=
    ⟨.cons startField start <| .cons stopField stop .nil, by decide⟩
  refine record.gives ?_
  simp only [Span.read, record.checked, bind, Except.bind, record.get startField 0 rfl start,
    record.get stopField 1 rfl stop]
  rfl

end Span

theorem Delivery.gives (d : Delivery) : Gives d.toJson Delivery.read d := by
  have codec := (gives_choice (Choice.ofName?_videoCodec d.codec)).toSays
  have quality := (gives_uint8 d.quality).toSays
  have preset := (gives_string d.preset "a string").toSays
  have audio := (gives_choice (Choice.ofName?_audioAction d.audio)).toSays
  have container := (gives_choice (Choice.ofName?_container d.container)).toSays
  have record : IsRecord [codecField.rule, qualityField.rule, presetField.rule, audioField.rule,
      containerField.rule] _ :=
    ⟨.cons codecField codec <| .cons qualityField quality <| .cons presetField preset <|
      .cons audioField audio <| .cons containerField container .nil, by decide⟩
  refine record.gives ?_
  simp only [Delivery.read, record.checked, bind, Except.bind, record.get codecField 0 rfl codec,
    record.get qualityField 1 rfl quality, record.get presetField 2 rfl preset,
    record.get audioField 3 rfl audio, record.get containerField 4 rfl container]
  rfl

/-! ## Jobs -/

namespace Job

variable {j : Job}

/-- All floats of a job. -/
def floats (j : Job) : List Float :=
  j.traits.floats ++ (j.interpolation.toList.flatMap Interpolation.floats ++
    (j.span.floats ++ j.speed.toList))

/-- The numbers of a job can be filed: those that count frames or jobs fit in a word, and every float
is read back from its text. -/
structure Filable (j : Job) : Prop where
  index : j.index < Numeral.word
  resumePosition : j.resumePosition < Numeral.word
  floats : ∀ x ∈ j.floats, ReadsBack x

theorem says_margins? (o : Option Margins) :
    Says (ofOption Margins.toJson o) (optional Margins.read) o :=
  says_option fun m _ => m.gives

/-- The job as it comes back from its record, if it does. Its processes are not filed. -/
def reread? (j : Job) : Option Job :=
  let back (interpolation : Option Interpolation) : Job := { j with
    traits := j.traits.reread, interpolation, span := j.span.reread,
    speed := j.speed.bind Json.reread?, processes := [] }
  match j.interpolation with
  | none => some (back none)
  | some i => i.reread?.map fun i => back (some i)

theorem gives {k : Job} (hindex : j.index < Numeral.word) (hposition : j.resumePosition < Numeral.word)
    (h : j.reread? = some k) : Gives j.toJson Job.read k := by
  obtain ⟨i, interpolation, rfl⟩ : ∃ i,
      Says (ofOption Interpolation.toJson j.interpolation) (optional Interpolation.read) i ∧
        { j with
          traits := j.traits.reread, interpolation := i, span := j.span.reread,
          speed := j.speed.bind Json.reread?, processes := [] } = k := by
    cases hi : j.interpolation with
    | none =>
      rw [reread?, hi] at h
      exact ⟨none, says_option fun _ hi => (nomatch hi), Option.some.inj h⟩
    | some i =>
      rw [reread?, hi] at h
      obtain ⟨i', hi', rfl⟩ := Option.map_eq_some_iff.1 h
      exact ⟨some i', (Interpolation.gives hi').says_some, rfl⟩
  have source := (gives_path j.source).toSays
  have directory := (gives_path j.directory).toSays
  have index := (gives_count hindex).toSays
  have traits := j.traits.gives.toSays
  have cropSource := says_margins? j.cropSource
  have cropAfter := says_margins? j.cropAfter
  have outputWidth := says_uint32? j.outputWidth
  have outputHeight := says_uint32? j.outputHeight
  have upscaleFactor := (gives_uint8 j.upscaleFactor).toSays
  have upscaler := (gives_choice (Choice.ofName?_upscaler j.upscaler)).toSays
  have boost := says_option (o := j.boost) fun b _ => b.gives
  have downscaler := (gives_choice (Choice.ofName?_downscaler j.downscaler)).toSays
  have denoising := says_option (o := j.denoising) fun d _ => d.gives
  have dering := (gives_bool j.dering).toSays
  have degraining := says_option (o := j.degraining) fun d _ => d.gives
  have stabilization := says_option (o := j.stabilization) fun s _ => s.gives
  have span := j.span.gives.toSays
  have speed := says_float j.speed
  have delivery := j.delivery.gives.toSays
  have resumePosition := (gives_count hposition).toSays
  have parallelism := (gives_uint8 j.parallelism).toSays
  have status := (gives_choice (Choice.ofName?_jobStatus j.status)).toSays
  have record : IsRecord rules _ :=
    ⟨.cons sourceField source <| .cons directoryField directory <| .cons indexField index <|
      .cons traitsField traits <| .cons cropSourceField cropSource <|
      .cons cropAfterField cropAfter <| .cons outputWidthField outputWidth <|
      .cons outputHeightField outputHeight <| .cons upscaleFactorField upscaleFactor <|
      .cons upscalerField upscaler <| .cons boostField boost <| .cons downscalerField downscaler <|
      .cons denoisingField denoising <| .cons deringField dering <|
      .cons degrainingField degraining <| .cons stabilizationField stabilization <|
      .cons interpolationField interpolation <| .cons spanField span <| .cons speedField speed <|
      .cons deliveryField delivery <| .cons resumePositionField resumePosition <|
      .cons parallelismField parallelism <| .cons statusField status .nil, by decide⟩
  refine record.gives ?_
  simp only [Job.read, record.checked, bind, Except.bind, record.get sourceField 0 rfl source,
    record.get directoryField 1 rfl directory, record.get indexField 2 rfl index,
    record.get traitsField 3 rfl traits, record.get cropSourceField 4 rfl cropSource,
    record.get cropAfterField 5 rfl cropAfter, record.get outputWidthField 6 rfl outputWidth,
    record.get outputHeightField 7 rfl outputHeight,
    record.get upscaleFactorField 8 rfl upscaleFactor, record.get upscalerField 9 rfl upscaler,
    record.get boostField 10 rfl boost, record.get downscalerField 11 rfl downscaler,
    record.get denoisingField 12 rfl denoising, record.get deringField 13 rfl dering,
    record.get degrainingField 14 rfl degraining,
    record.get stabilizationField 15 rfl stabilization,
    record.get interpolationField 16 rfl interpolation, record.get spanField 17 rfl span,
    record.get speedField 18 rfl speed, record.get deliveryField 19 rfl delivery,
    record.get resumePositionField 20 rfl resumePosition,
    record.get parallelismField 21 rfl parallelism, record.get statusField 22 rfl status]
  rfl

/-- **A job comes back as it was** exactly if each of its floats does. -/
theorem reread?_eq_self : j.reread? = some { j with processes := [] } ↔ ∀ x ∈ j.floats, ReadsBack x := by
  simp only [floats, List.forall_mem_append, List.forall_mem_flatMap, ← SourceTraits.reread_eq_self,
    ← Span.reread_eq_self, ← bind_reread?_eq_self]
  cases hi : j.interpolation with
  | none => simp [reread?, hi]
  | some i => simp [reread?, hi, ← Interpolation.reread?_eq_self, and_left_comm]

theorem whole_toJson (hindex : j.index < Numeral.word) (hposition : j.resumePosition < Numeral.word) :
    j.toJson.Whole := by
  have hinterpolation : (ofOption Interpolation.toJson j.interpolation).Whole := by
    cases j.interpolation with
    | none => exact whole_null
    | some i => exact i.whole
  -- all other members are those of the job without interpolation, which comes back
  have hmembers := whole_of_ofMembers
    (gives (j := { j with interpolation := none }) hindex hposition rfl).whole
  have hnone : (ofOption Interpolation.toJson none).Whole := whole_null
  refine whole_ofMembers ?_
  simp only [List.forall_mem_cons] at hmembers ⊢
  simpa only [hinterpolation, hnone, true_and] using hmembers

/-- The text of a record is read as what comes back of the job. -/
theorem ofText_eq_ok_iff {k : Job} (hindex : j.index < Numeral.word)
    (hposition : j.resumePosition < Numeral.word) :
    ofText j.recordText = .ok k ↔ j.reread? = some k := by
  cases hback : j.reread? with
  | some k' =>
    rw [ofText, recordText, (gives hindex hposition hback).readText, Except.ok.injEq, Option.some.injEq]
  | none =>
    refine iff_of_false (fun h => ?_) nofun
    obtain ⟨i, hi, hlost⟩ : ∃ i, j.interpolation = some i ∧ i.reread? = none := by
      cases hi : j.interpolation with
      | none => simp [reread?, hi] at hback
      | some i => exact ⟨i, rfl, by simpa [reread?, hi] using hback⟩
    have hread := reads_of_readText (whole_toJson hindex hposition) h
    obtain ⟨fault, hfault⟩ := Interpolation.read_of_lost hlost
    rw [Job.read] at hread
    simp only [bind, Except.bind] at hread
    split at hread
    · cases hread
    · rename_i fields hfields
      obtain ⟨a, ha⟩ : ∃ a, interpolationField.read i.toJson = .ok a := by
        refine exists_of_fieldsOf interpolationField (by decide) (by simp [rules]) ?_ hfields
        simp [hi, ofOption]
      cases ha.symm.trans hfault

/-- The text of a record is read as the job that it was written for. -/
theorem ofText_recordText (h : j.Filable) : ofText j.recordText = .ok { j with processes := [] } :=
  (ofText_eq_ok_iff h.index h.resumePosition).2 (reread?_eq_self.2 h.floats)

theorem load_of_readText {t : FileTree} {p : Path} (hj : j.Filable)
    (h : t.readText p = .ok j.recordText) : load t p = .ok { j with processes := [] } := by
  rw [load, h]
  simp only [ofText_recordText hj]
  rfl

/-- **A job comes back from its file**, wherever a file can be written at all. -/
theorem comes_back {t : FileTree} {p : Path} (hj : j.Filable)
    (hp : ∃ s u, t.writeMaking p s = .ok u) :
    ∃ t', j.storeAt p t = .ok t' ∧ load t' p = .ok { j with processes := [] } := by
  obtain ⟨s, u, hu⟩ := hp
  obtain ⟨t', hwritten⟩ := FileTree.writeMaking_any hu j.recordText
  have hstored := storeAt_ok_iff.2 hwritten
  exact ⟨t', hstored, load_of_readText hj (readText_of_storeAt hstored)⟩

/-- A job with quotes and controls in its paths, large numbers, and floats. -/
def tapeJob : Job where
  source := ⟨"/tapes/\"Übung\"\\\t\x01.avi"⟩
  directory := ⟨"/jobs"⟩
  index := 18446744073709551615
  traits := { width := some 4294967295, frameRate := some 25.0 }
  cropSource := some { left := 8 }
  interpolation := some (.target 50.0)
  span := { start := some 0.5 }
  delivery := { preset := "" }
  processes := [4242]

theorem filable_tapeJob : tapeJob.Filable where
  index := by decide
  resumePosition := by decide
  floats := by
    have hall : ∀ x ∈ [25.0, 50.0, 0.5], ReadsBack x := by decide +kernel
    exact hall

theorem comes_back_tape : tapeJob.Filable ∧
    ∃ t', tapeJob.storeAt ⟨"/jobs/tape.json"⟩ {} = .ok t' ∧
      load t' ⟨"/jobs/tape.json"⟩ = .ok { tapeJob with processes := [] } :=
  ⟨filable_tapeJob, comes_back filable_tapeJob ⟨"", _, rfl⟩⟩

end Job

end Restoration
