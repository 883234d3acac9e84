import Restoration.Proofs.Graph.Walk
import Restoration.Proofs.Stage.Calls
import Restoration.Proofs.Stage.Formats

/-!
# The conversions of a script

What a script does to its samples is read from the text of its lines. Along the stages of a job
samples go through at most four phases,

    standard  →  extended  →  full chroma  →  extended  →  standard

each entered when a stage asks for it and left at the latest at the output, and a flushed graph never
converts again. So the trace of a script is one of a few lists:

    []   [promote, flush]   [promote, chroma, halve, flush]   [promote, chroma, reduce, flush]
-/

namespace Restoration

open SampleFormat (standard extended extendedFullChroma)
open Statements

/-- What a statement does to samples. -/
inductive SampleChange where
  | converted (c : Conversion)
  /-- A boosted pass of the upscaler hands back halved chroma. -/
  | halved
  deriving DecidableEq, Repr

/-- What a call does to samples. -/
def Call.sampleChange? (c : Call) : Option SampleChange :=
  if c.function = "Dither_convert_8_to_16" then some (.converted .promoteDepth)
  else if c.function = "DitherPost" then some (.converted .flushDepth)
  else if c.function = "Dither_resize16nr" ∧ c.gives "csp" (quoted "YV24") then
    some (.converted .promoteChroma)
  else if c.function = "Dither_resize16nr" ∧ c.gives "csp" (quoted "YV12") then
    some (.converted .reduceChroma)
  else if c.function ∈ boostedFunctions ∧ c.gives "fCsp" (quoted "YV12") then some .halved
  else none

/-- What a line does to samples. -/
def Line.sampleChange? (l : Line) : Option SampleChange := l.call?.bind Call.sampleChange?

/-- What a script does to its samples, in this order. -/
def Script.sampleChanges (s : Script) : List SampleChange := s.lines.filterMap Line.sampleChange?

/-! ## Lines -/

/-- What is no change of the format is no change of the samples. -/
theorem Call.sampleChange?_eq_none {c : Call} (h : c.change? = none) : c.sampleChange? = none := by
  unfold Call.change? at h
  repeat' split at h
  all_goals cases h
  rename_i h1 h2 h3 h4 h5
  rw [Call.sampleChange?, if_neg h1, if_neg h2, if_neg h3, if_neg h4, if_neg]
  simpa [boostedFunctions] using h5

theorem Line.sampleChange?_of_callsOf {l : Line} {fs : List String} (h : l.CallsOf fs)
    (hfs : ∀ f ∈ fs, f ∉ convertingFunctions) : l.sampleChange? = none := by
  obtain ⟨c, hc, hmem⟩ := h
  rw [Line.sampleChange?, hc]
  exact Call.sampleChange?_eq_none (Call.change?_of_function (hfs _ hmem))

/-- A line that replays from one format to another converts samples or leaves the format. -/
theorem Replays.single_inv {free : List String} {l : Line} {c : Call} {f g : SampleFormat}
    (hl : l.call? = some c) (h : Replays free f [l] g) :
    g = c.behind f ∧ ∀ x ∈ c.change?, x.1 = f := by
  cases h with
  | dependency => cases hl
  | statement hc hs hrest =>
    cases hl.symm.trans hc
    cases hrest
    exact ⟨rfl, hs.conversion⟩

theorem Call.change?_ne {c : Call} {x : SampleFormat × SampleFormat} (h : c.change? = some x) :
    x.1 ≠ x.2 := by
  unfold Call.change? at h
  repeat' split at h
  all_goals cases h
  all_goals decide

/-- A line that keeps the format changes no samples. -/
theorem Line.sampleChange?_of_replays {free : List String} {l : Line} {f : SampleFormat}
    (h : Replays free f [l] f) : l.sampleChange? = none := by
  rcases hl : l.call? with _ | c
  · rw [Line.sampleChange?, hl]
    rfl
  · obtain ⟨hbehind, hfrom⟩ := h.single_inv hl
    rw [Line.sampleChange?, hl]
    refine Call.sampleChange?_eq_none ?_
    rcases hx : c.change? with _ | x
    · rfl
    · rw [Call.behind, hx] at hbehind
      exact absurd ((hfrom x hx).trans hbehind) (Call.change?_ne hx)

theorem Conversion.sampleChange?_callText (c : Conversion) (placement : ChromaPlacement) :
    (Line.term (c.callText placement)).sampleChange? = some (.converted c) := by
  cases c <;> cases placement <;> decide +kernel

/-- The boosted pass that is told to hand back halved chroma is the last one on full chroma. -/
theorem Upscaling.sampleChange?_boostedCall (u : Upscaling) (b : Boost) (s : FormatState) :
    (Line.term (u.boostedCall b s)).sampleChange? =
      if u.lastPass && s.samples.isFullChroma then some .halved else none := by
  have hreplay : Replays [] _ _ _ := u.replays_boostedCall b s
  split
  · rename_i hlast
    rw [if_pos hlast] at hreplay
    have hfull : s.samples ≠ extended := by
      rw [Bool.and_eq_true] at hlast
      intro h
      rw [h] at hlast
      cases hlast.2
    obtain ⟨c, hc, hmem⟩ := u.boostedCall_callsOf b s
    obtain ⟨hbehind, -⟩ := hreplay.single_inv hc
    have hchange : c.change? ≠ none := by
      intro hnone
      rw [Call.behind, hnone] at hbehind
      exact hfull hbehind.symm
    rw [Line.sampleChange?, hc]
    show c.sampleChange? = some .halved
    have hnames : ∀ f ∈ boostedFunctions,
        f ≠ "Dither_convert_8_to_16" ∧ f ≠ "DitherPost" ∧ f ≠ "Dither_resize16nr" := by decide
    obtain ⟨h1, h2, h3⟩ := hnames _ hmem
    have hgives : c.gives "fCsp" (quoted "YV12") = true := by
      by_contra hno
      exact hchange (by simp [Call.change?, h1, h2, h3, hno])
    simp [Call.sampleChange?, h1, h2, h3, hmem, hgives]
  · rename_i hlast
    rw [if_neg hlast] at hreplay
    exact Line.sampleChange?_of_replays hreplay

/-! ## Stages -/

/-- Does the stage hand back halved chroma where it is fed full chroma? -/
def Stage.halves : Stage → Bool
  | upscale u => u.boost.isSome && u.lastPass
  | _ => false

/-- What the lines of a stage do to samples. -/
theorem Stage.filterMap_sampleChange? {stage : Stage} {s : FormatState} {st : Statements}
    (h : stage.statements (s.feed stage.contract) = .ok st) :
    st.lines.filterMap Line.sampleChange? =
      if stage.halves && (s.fedFormat stage.contract).isFullChroma then [.halved] else [] := by
  have quiet : (∀ f ∈ stage.functions, f ∉ convertingFunctions) →
      st.lines.filterMap Line.sampleChange? = [] := fun hfs =>
    List.filterMap_eq_nil_iff.2 fun l hl =>
      Line.sampleChange?_of_callsOf (Stage.lines_callsOf h l hl) hfs
  cases stage with
  | upscale u =>
    rcases hb : u.boost with _ | b
    · rw [quiet (by simp [functions, hb, convertingFunctions])]
      simp [halves, hb]
    · cases h
      have hline := u.sampleChange?_boostedCall b (s.feed (upscale u).contract)
      simp only [Upscaling.statements, hb, List.filterMap_cons, List.filterMap_nil, hline, halves,
        Option.isSome_some, Bool.true_and, FormatState.feed_samples]
      split <;> simp_all
  | resize size kernel =>
    have hreplay : Replays [] _ _ _ := replays_resize h
    have hline : ∀ l ∈ st.lines, l.sampleChange? = none := by
      obtain ⟨l, hl⟩ : ∃ l, st.lines = [l] := by
        simp only [statements, resizeStatements] at h
        repeat' split at h
        all_goals cases h
        all_goals exact ⟨_, rfl⟩
      rw [hl] at hreplay ⊢
      exact List.forall_mem_singleton.2 (Line.sampleChange?_of_replays hreplay)
    rw [List.filterMap_eq_nil_iff.2 hline]
    rfl
  | _ => exact quiet (by simp [functions, convertingFunctions, correctingFunctions])

theorem Stage.leave_samples (stage : Stage) (s : FormatState) : (stage.leave s).samples =
    if stage.halves && s.samples.isFullChroma then extended else s.samples := by
  cases stage with
  | upscale u =>
    cases hb : u.boost.isSome
    · simp [leave, halves, hb]
    · simp only [leave, halves, hb, if_pos, Bool.true_and]
      split <;> rfl
  | _ => rfl

theorem Stage.leave_depthPromoted (stage : Stage) (s : FormatState) :
    (stage.leave s).depthPromoted = s.depthPromoted := by
  cases stage with
  | upscale u =>
    simp only [leave]
    split
    · split <;> rfl
    · rfl
  | _ => rfl

namespace Graph

open FormatState

/-! ## Along stages -/

/-- The format that a stage with this contract is fed; the colour matrix has no part in it. -/
def fed (f : SampleFormat) (promoted : Bool) (c : Contract) : SampleFormat :=
  fedFormat ⟨f, none, promoted⟩ c

/-- What happens to samples along stages. -/
def changes (f : SampleFormat) (promoted : Bool) : List Stage → List SampleChange
  | [] => []
  | stage :: rest =>
    let g := fed f promoted stage.contract
    (steps f g).map .converted ++
      if stage.halves && g.isFullChroma then .halved :: changes extended true rest
      else changes g (promoted || g.isExtended) rest

theorem fedFormat_eq_fed (s : FormatState) (c : Contract) :
    s.fedFormat c = fed s.samples s.depthPromoted c := by
  cases c <;> rfl

theorem conversionsFor_eq_steps (s : FormatState) (c : Contract) :
    conversionsFor s c = steps s.samples (s.fedFormat c) := by
  unfold conversionsFor fedFormat
  cases s.requirementFor c with
  | any => cases s.samples <;> rfl
  | exactly f => rfl

theorem along_eq_changes (s : FormatState) (stages : List Stage) :
    along (fun s stage => (conversionsFor s stage.contract).map .converted ++
      if stage.halves && (s.fedFormat stage.contract).isFullChroma then [.halved] else []) s stages =
      changes s.samples s.depthPromoted stages := by
  induction stages generalizing s with
  | nil => rfl
  | cons stage rest ih =>
    rw [along_cons, ih, changes, conversionsFor_eq_steps, Stage.leave_samples,
      Stage.leave_depthPromoted, feed_samples, fedFormat_eq_fed, List.append_assoc]
    congr 1
    split
    · rename_i hhalves
      have hextended : (fed s.samples s.depthPromoted stage.contract).isExtended = true := by
        rw [Bool.and_eq_true] at hhalves
        revert hhalves
        cases fed s.samples s.depthPromoted stage.contract <;>
          simp [SampleFormat.isFullChroma, SampleFormat.isExtended]
      simp only [feed, fedFormat_eq_fed, hextended, Bool.or_true, List.singleton_append]
    · simp only [feed, fedFormat_eq_fed, List.nil_append]

/-- **A script changes its samples as its stages do.** -/
theorem sampleChanges_render {setting : Setting} {matrix : ColorMatrix} {stages : List Stage}
    {s : Script} (h : render setting matrix stages = .ok s) :
    s.sampleChanges = changes standard false stages := by
  have hconversion : ∀ c : Conversion, (Line.term (c.callText setting.placement)).sampleChange? =
      some (.converted c) := fun c => c.sampleChange?_callText _
  rw [Script.sampleChanges, filterMap_render (fun _ => rfl) hconversion
    (fun _ _ _ _ hst => Stage.filterMap_sampleChange? hst) h]
  simp only [List.filterMap_eq_map']
  exact along_eq_changes (.ofSource matrix) stages

/-! ## Phases -/

section phases

variable {stage : Stage} {stages rest : List Stage}

/-- Behind the flush nothing is converted any more. -/
theorem changes_flushed (stages : List Stage) : changes standard true stages = [] := by
  induction stages with
  | nil => rfl
  | cons stage rest ih =>
    have hfed : fed standard true stage.contract = standard := by
      cases stage.contract <;> rfl
    simp [changes, hfed, steps, SampleFormat.isFullChroma, ih]

/-- Stages that take what comes, or eight bits, change nothing in a fresh graph. -/
theorem changes_fresh (h : ∀ stage ∈ stages, stage.contract = .any ∨ stage.contract = .standard) :
    changes standard false (stages ++ rest) = changes standard false rest := by
  induction stages with
  | nil => rfl
  | cons stage _ ih =>
    have hfed : fed standard false stage.contract = standard := by
      rcases h stage List.mem_cons_self with hc | hc <;> rw [hc] <;> rfl
    rw [List.cons_append, changes]
    simp [hfed, steps, SampleFormat.isFullChroma, SampleFormat.isExtended,
      ih fun st hst => h st (List.mem_cons_of_mem _ hst)]

/-- Full chroma lasts as long as nothing asks for eight bits and no pass halves it. -/
theorem changes_full
    (h : ∀ stage ∈ stages, stage.contract ≠ .standard ∧ stage.halves = false) :
    changes extendedFullChroma true (stages ++ rest) = changes extendedFullChroma true rest := by
  induction stages with
  | nil => rfl
  | cons stage _ ih =>
    obtain ⟨hc, hhalves⟩ := h stage List.mem_cons_self
    have hfed : fed extendedFullChroma true stage.contract = extendedFullChroma := by
      cases hcontract : stage.contract with
      | standard => exact absurd hcontract hc
      | _ => rfl
    rw [List.cons_append, changes]
    simp [hfed, steps, hhalves, ih fun st hst => h st (List.mem_cons_of_mem _ hst)]

/-- A stage on eight bits ends full chroma for good. -/
theorem changes_full_standard (h : stage.contract = .standard) : changes extendedFullChroma true
    (stage :: rest) = [.converted .reduceChroma, .converted .flushDepth] := by
  have hfed : fed extendedFullChroma true stage.contract = standard := by
    rw [h]
    rfl
  simp [changes, hfed, steps, SampleFormat.isFullChroma, changes_flushed]

/-- Halved chroma is flushed once, at the latest at the output. -/
theorem changes_extended (h : ∀ stage ∈ stages, stage.contract ≠ .prefersExtended true) :
    changes extended true (stages ++ .output :: rest) = [.converted .flushDepth] := by
  induction stages with
  | nil => simp [changes, fed, Stage.contract, steps, Stage.halves, changes_flushed]
  | cons stage _ ih =>
    have ih := ih fun st hst => h st (List.mem_cons_of_mem _ hst)
    rw [List.cons_append, changes]
    have hc := h stage List.mem_cons_self
    rcases hcontract : stage.contract with _ | _ | fullChroma
    · simpa [fed, steps, SampleFormat.isFullChroma] using ih
    · simp [fed, steps, SampleFormat.isFullChroma, changes_flushed]
    · cases fullChroma
      · simpa [fed, fedFormat, requirementFor, steps, SampleFormat.isFullChroma] using ih
      · exact absurd hcontract hc

end phases

/-- Where nothing asks for full chroma, the first stage that asks for depth has it promoted. -/
theorem changes_unboosted {front back : List Stage}
    (hfront : ∀ stage ∈ front, stage.contract ≠ .prefersExtended true)
    (hback : ∀ stage ∈ back, stage.contract = .any ∨ stage.contract = .standard) :
    changes standard false (front ++ .output :: back) =
      if front.any Stage.asksDepth then [.converted .promoteDepth, .converted .flushDepth]
      else [] := by
  induction front with
  | nil =>
    have hclosing : ∀ stage ∈ Stage.output :: back,
        stage.contract = .any ∨ stage.contract = .standard :=
      List.forall_mem_cons.2 ⟨.inr rfl, hback⟩
    rw [List.nil_append, ← List.append_nil (Stage.output :: back), changes_fresh hclosing]
    rfl
  | cons stage front ih =>
    have hrest := fun st hst => hfront st (List.mem_cons_of_mem _ hst)
    have ih := ih hrest
    have hc := hfront stage List.mem_cons_self
    rw [List.cons_append, changes, List.any_cons, Stage.asksDepth]
    rcases hcontract : stage.contract with _ | _ | fullChroma
    · simpa [fed, steps, SampleFormat.isFullChroma, SampleFormat.isExtended] using ih
    · simpa [fed, steps, SampleFormat.isFullChroma, SampleFormat.isExtended] using ih
    · cases fullChroma
      · simpa [fed, fedFormat, requirementFor, steps, SampleFormat.isFullChroma,
          SampleFormat.isExtended] using changes_extended hrest
      · exact absurd hcontract hc

end Graph

/-! ## Jobs -/

namespace Job

open Restoration.Graph

variable (j : Job) (e : Engine)

/-- Does the job ask for a filter that works on extended samples, or for the conversion of the
colour matrix? -/
def asksDepth : Bool :=
  j.denoising.isSome || j.dering || j.degraining.isSome || j.boosts
    || j.traits.colorMatrix ≠ .rec709

/-- Does the job flush its samples between two boosted passes? -/
def flushesBetween : Bool :=
  2 ≤ j.upscaleFactor.toNat && (j.stabilization.isSome || j.interpolation.isSome)

variable {j e}

theorem contract_opening {preview : Bool} :
    ∀ stage ∈ j.opening preview, stage.contract = .any := by
  intro stage h
  rcases mem_opening h with ⟨_, rfl⟩ | ⟨_, rfl⟩ | ⟨_, rfl⟩ <;> rfl

theorem contract_back : ∀ stage ∈ back e, stage.contract = .any ∨ stage.contract = .standard :=
  fun stage h => (isClosing_of_mem_back e stage h).2

theorem contract_motion : ∀ stage ∈ j.motion e, stage.contract ≠ .prefersExtended true := by
  intro stage h
  rcases mem_motion h with ⟨_, -, rfl⟩ | ⟨_, -, rfl⟩ | ⟨_, -, rfl⟩ <;> simp [Stage.contract]

/-- The stages behind the passes of the upscaler. -/
def closing (j : Job) : List Stage := (j.finalCrop?.map .crop).toList ++ j.resizing?.toList

theorem contract_closing : ∀ stage ∈ j.closing,
    stage.contract = .any ∨ stage.contract = .standard := by
  intro stage h
  simp only [closing, List.mem_append, Option.mem_toList, Option.map_eq_some_iff] at h
  rcases h with ⟨m, -, rfl⟩ | h
  · exact .inr rfl
  · unfold resizing? at h
    split at h
    · split at h
      · cases h
      · cases h
        cases hk : j.downscaler <;> simp [Stage.contract]
    · cases h

/-- Without boost no stage asks for full chroma. -/
theorem contract_front (h : j.boosts = false) :
    ∀ stage ∈ j.front e, stage.contract ≠ .prefersExtended true := by
  intro stage hmem
  rcases List.mem_append.1 hmem with hmem | hmem
  · rcases List.mem_append.1 hmem with hmem | hmem
    · rw [contract_opening stage hmem]
      exact Contract.noConfusion
    · rcases mem_picture hmem with ⟨_, rfl⟩ | ⟨_, -, rfl⟩ | ⟨-, rfl⟩ | hmem | ⟨_, rfl⟩
      · simp [Stage.contract]
      · simp [Stage.contract, h]
      · simp [Stage.contract]
      · rcases mem_enlarging hmem with ⟨hfactor, _, rfl⟩ | hmem
        · have hboost : j.boost = none := by simpa [boosts, hfactor] using h
          cases hu : j.upscaler <;> simp [doubling, Stage.contract, hboost, hu]
        · exact contract_motion stage hmem
      · cases hk : j.downscaler <;> simp [Stage.contract]
  · rw [mem_correction hmem]
    simp [Stage.contract]

theorem front_any_asksDepth : (j.front e).any Stage.asksDepth = j.asksDepth := by
  have honly : ∀ stage : Stage, stage.asksDepth = false → stage.correctsMatrix = false →
      stage.asksDepth = false := fun _ h _ => h
  have hdoubling : ∀ last, (j.doubling e last).asksDepth = j.boost.isSome := by
    intro last
    cases hb : j.boost <;> cases hu : j.upscaler <;>
      simp [doubling, Stage.asksDepth, Stage.contract, hb, hu]
  rw [front, List.any_append, any_ahead hdoubling honly, correction_eq, asksDepth]
  cases hb : j.boosts <;> cases hd : j.denoising <;> cases hg : j.degraining <;>
    by_cases hm : j.traits.colorMatrix = .rec709 <;> simp [hm, Stage.asksDepth, Stage.contract]

/-! ### Boosted jobs -/

/-- The first boosted pass is fed full chroma, whatever stands ahead of it. -/
theorem changes_first_pass (denoising : Option Denoising) (gpu dering : Bool) {pass : Stage}
    (hpass : pass.contract = .prefersExtended true) (rest : List Stage) :
    changes standard false
      ((denoising.map fun d => .denoise d gpu true).toList ++
        ((if dering then [.dering] else []) ++ pass :: rest)) =
      .converted .promoteDepth :: .converted .promoteChroma ::
        if pass.halves then .halved :: changes extended true rest
        else changes extendedFullChroma true rest := by
  have hfull : changes extendedFullChroma true (pass :: rest) =
      if pass.halves then .halved :: changes extended true rest
      else changes extendedFullChroma true rest := by
    rw [changes, hpass]
    simp [fed, FormatState.fedFormat, FormatState.requirementFor, FormatState.steps,
      SampleFormat.isFullChroma]
  have hextended : changes extended true (pass :: rest) =
      .converted .promoteChroma :: changes extendedFullChroma true (pass :: rest) := by
    rw [changes, changes, hpass]
    rfl
  have hstandard : changes standard false (pass :: rest) =
      .converted .promoteDepth :: changes extended true (pass :: rest) := by
    rw [changes, changes, hpass]
    rfl
  rw [← hfull]
  cases denoising with
  | some d => cases dering <;> rfl
  | none =>
    cases dering
    · exact hstandard.trans (congrArg _ hextended)
    · exact congrArg (SampleChange.converted .promoteDepth :: ·) hextended

theorem contract_doubling (h : j.boosts = true) (last : Bool) :
    (j.doubling e last).contract = .prefersExtended true ∧
      (j.doubling e last).halves = last := by
  have hboost : j.boost.isSome = true := by
    rw [boosts, Bool.and_eq_true] at h
    exact h.2
  obtain ⟨b, hb⟩ := Option.isSome_iff_exists.1 hboost
  cases hu : j.upscaler <;> simp [doubling, Stage.contract, Stage.halves, hb]

/-- Between two boosted passes full chroma outlasts all but stabilization and interpolation. -/
theorem changes_motion (rest : List Stage) :
    changes extendedFullChroma true (j.motion e ++ rest) =
      if j.stabilization.isSome ∨ j.interpolation.isSome then
        [.converted .reduceChroma, .converted .flushDepth]
      else changes extendedFullChroma true rest := by
  have hdegrain : ∀ stage ∈ (j.degraining.map Stage.degrain).toList,
      stage.contract ≠ .standard ∧ stage.halves = false := by
    intro stage h
    simp only [Option.mem_toList, Option.map_eq_some_iff] at h
    obtain ⟨o, -, rfl⟩ := h
    exact ⟨Contract.noConfusion, rfl⟩
  rw [motion, List.append_assoc, List.append_assoc, changes_full hdegrain]
  cases j.stabilization with
  | some options => exact changes_full_standard rfl
  | none =>
    cases j.interpolation with
    | some i => exact changes_full_standard rfl
    | none => rfl

theorem changes_boosted (h : j.boosts = true) :
    changes standard false (j.stages e) =
      if j.flushesBetween then
        [.converted .promoteDepth, .converted .promoteChroma, .converted .reduceChroma,
          .converted .flushDepth]
      else [.converted .promoteDepth, .converted .promoteChroma, .halved, .converted .flushDepth] := by
  have hahead : ∀ stage ∈ j.opening e.preview ++ (j.sourceCrop?.map Stage.crop).toList,
      stage.contract = .any ∨ stage.contract = .standard := by
    intro stage hmem
    rcases List.mem_append.1 hmem with hmem | hmem
    · exact .inl (contract_opening stage hmem)
    · simp only [Option.mem_toList, Option.map_eq_some_iff] at hmem
      obtain ⟨m, -, rfl⟩ := hmem
      exact .inr rfl
  have hclosing : ∀ stage ∈ j.closing, stage.contract ≠ .prefersExtended true := by
    intro stage hmem hcontract
    rcases contract_closing stage hmem with hc | hc <;> rw [hc] at hcontract <;> cases hcontract
  have hplan : j.stages e = (j.opening e.preview ++ (j.sourceCrop?.map Stage.crop).toList) ++
      ((j.denoising.map fun d => .denoise d e.gpu true).toList ++
        ((if j.dering then [.dering] else []) ++
          (j.enlarging e ++ (j.closing ++ .output :: back e)))) := by
    rw [stages_eq, front, correction_eq, if_pos (.inl h), picture, closing, h]
    simp only [List.append_assoc, List.nil_append]
  rw [hplan, changes_fresh hahead]
  have hfactor : 0 < j.upscaleFactor.toNat := by
    rw [boosts, Bool.and_eq_true, decide_eq_true_eq] at h
    exact h.1
  unfold enlarging flushesBetween
  rcases hn : j.upscaleFactor.toNat with _ | _ | n
  · omega
  · obtain ⟨hc, hhalves⟩ := contract_doubling (e := e) h true
    have htail : ∀ stage ∈ j.motion e ++ j.closing, stage.contract ≠ .prefersExtended true :=
      List.forall_mem_append.2 ⟨contract_motion, hclosing⟩
    rw [List.cons_append, changes_first_pass _ _ _ hc, if_pos hhalves, ← List.append_assoc,
      changes_extended htail]
    simp
  · obtain ⟨hc, hhalves⟩ := contract_doubling (e := e) h false
    obtain ⟨hlast, hhalvesLast⟩ := contract_doubling (e := e) h true
    have hbetween : ∀ stage ∈ List.replicate n (j.doubling e false),
        stage.contract ≠ .standard ∧ stage.halves = false := by
      intro stage hmem
      rw [List.eq_of_mem_replicate hmem, hc]
      exact ⟨Contract.noConfusion, hhalves⟩
    simp only [List.append_assoc, List.cons_append]
    rw [changes_first_pass _ _ _ hc, hhalves, if_neg Bool.false_ne_true, changes_motion]
    by_cases hm : j.stabilization.isSome ∨ j.interpolation.isSome
    · have hle : 2 ≤ n + 1 + 1 := by omega
      rw [if_pos hm, if_pos (by simpa [hle] using hm)]
    · have hfed : fed extendedFullChroma true (j.doubling e true).contract = extendedFullChroma := by
        rw [hlast]
        rfl
      rw [if_neg hm, if_neg (by simpa using hm), changes_full hbetween, List.nil_append,
        changes, hfed, hhalvesLast]
      simp [FormatState.steps, SampleFormat.isFullChroma, changes_extended hclosing]

/-! ### All jobs -/

/-- **What a job does to its samples.** -/
theorem changes_stages (j : Job) (e : Engine) : changes standard false (j.stages e) =
    if j.boosts then
      if j.flushesBetween then
        [.converted .promoteDepth, .converted .promoteChroma, .converted .reduceChroma,
          .converted .flushDepth]
      else [.converted .promoteDepth, .converted .promoteChroma, .halved, .converted .flushDepth]
    else if j.asksDepth then [.converted .promoteDepth, .converted .flushDepth]
    else [] := by
  cases h : j.boosts
  · rw [stages_eq, changes_unboosted (contract_front h) contract_back, front_any_asksDepth]
    rfl
  · exact changes_boosted h

/-- **The conversions of a job are determined by what it asks for.** Depth is promoted at most once,
for any filter that works on extended samples, and flushed as often; chroma is promoted for the boost
alone, and taken back by a conversion only if eight bits are needed between two boosted passes. What
no conversion takes back, the last boosted pass does. -/
theorem conversions_determined (j : Job) (e : Engine) :
    ∃ s, j.render e (j.stages e) = .ok s ∧
      j.compile e = (if j.sizesFit then .ok s else .error .sizeOverflow) ∧
      s.sampleChanges.count (.converted .promoteDepth) =
        (if j.denoising.isSome ∨ j.dering ∨ j.degraining.isSome ∨ j.boosts ∨
          j.traits.colorMatrix ≠ .rec709 then 1 else 0) ∧
      s.sampleChanges.count (.converted .flushDepth) =
        s.sampleChanges.count (.converted .promoteDepth) ∧
      s.sampleChanges.count (.converted .promoteChroma) = (if j.boosts then 1 else 0) ∧
      s.sampleChanges.count (.converted .reduceChroma) =
        (if j.boosts ∧ 2 ≤ j.upscaleFactor.toNat ∧
          (j.stabilization.isSome ∨ j.interpolation.isSome) then 1 else 0) ∧
      s.sampleChanges.count (.converted .reduceChroma) + s.sampleChanges.count .halved =
        s.sampleChanges.count (.converted .promoteChroma) := by
  obtain ⟨s, hs⟩ := render_stages_ok j e
  have hchanges : s.sampleChanges = changes standard false (j.stages e) := sampleChanges_render hs
  have hasks : (j.denoising.isSome ∨ j.dering ∨ j.degraining.isSome ∨ j.boosts ∨
      j.traits.colorMatrix ≠ .rec709) ↔ j.asksDepth = true := by
    simp [asksDepth, or_assoc]
  have hflushes : (2 ≤ j.upscaleFactor.toNat ∧
      (j.stabilization.isSome ∨ j.interpolation.isSome)) ↔ j.flushesBetween = true := by
    simp [flushesBetween]
  have hboosts : j.boosts = true → j.asksDepth = true := fun h => by simp [asksDepth, h]
  refine ⟨s, hs, by rw [compile_eq, hs]; rfl, ?_⟩
  rw [hchanges, changes_stages]
  simp only [hasks, hflushes]
  cases hb : j.boosts
  · cases j.asksDepth <;> simp
  · rw [hboosts hb]
    cases j.flushesBetween <;> simp

end Job

end Restoration
