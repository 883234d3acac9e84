import Restoration.Proofs.Graph.Completion
import Restoration.Proofs.Stage.Formats

/-!
# Formats line up

Replayed from the text of its lines alone, a draft is always in the format that its state says: the
conversions ahead of a stage lead from the format of the draft to the one that the stage is fed, and
the lines of the stage suit that one. So the script of a job replays from eight bits back to eight
bits:

    j.compile e = ok s  →  Replays namingFunctions standard s.lines standard
-/

namespace Restoration

open SampleFormat (standard extended extendedFullChroma)
open Statements

variable {free : List String}

/-! ## One stage -/

/-- The file that a stage names in its lines. -/
def Stage.file? : Stage → Option Path
  | source clip _ => some clip.forEngine
  | deshake run => some run.log
  | _ => none

/-- The arguments of a stage can be told apart: a call that names a file is left out, or the name
holds no quotes. -/
def Stage.Readable (free : List String) (stage : Stage) : Prop :=
  free = namingFunctions ∨ ∀ p ∈ stage.file?, '"' ∉ p.text.toList

/-- The lines of a stage replay from the format that it is fed to the one that it leaves. -/
theorem Stage.replays {stage : Stage} (hread : stage.Readable free) {s : FormatState}
    {st : Statements} (h : stage.statements (s.feed stage.contract) = .ok st) :
    Replays free (s.fedFormat stage.contract) st.lines
      (stage.leave (s.feed stage.contract)).samples := by
  cases stage with
  | source clip rate =>
    cases h
    exact replays_source clip rate _ (hread.imp_right fun h => h _ rfl)
  | retime rate =>
    cases h
    exact replays_retime rate _
  | trim cut =>
    cases h
    exact cut.replays _
  | crop margins =>
    cases h
    exact margins.replays
  | denoise options gpu fullChroma =>
    cases h
    exact options.replays gpu (s.feed _)
  | dering =>
    cases h
    exact replays_dering (s.feed _)
  | upscale u =>
    cases h
    cases hb : u.boost with
    | none =>
      have hsamples : u.upscaler = .nnedi3 →
          (s.feed (upscale u).contract).samples = standard := by
        intro hu
        have hcontract : (upscale u).contract = .standard := by simp [contract, hb, hu]
        rw [hcontract]
        rfl
      simpa [Upscaling.statements, leave, hb] using u.replays_plainCall hsamples
    | some b =>
      have hleave : (leave (upscale u) (s.feed (upscale u).contract)).samples =
          if u.lastPass && (s.feed (upscale u).contract).samples.isFullChroma then extended
          else s.fedFormat (upscale u).contract := by
        simp only [leave, hb, Option.isSome_some, if_true]
        split <;> rfl
      rw [hleave]
      simp only [Upscaling.statements, hb]
      exact u.replays_boostedCall b (s.feed (upscale u).contract)
  | degrain options =>
    cases h
    exact options.replays (s.feed _)
  | deshake run =>
    cases h
    exact run.replays (hread.imp_right fun h => h _ rfl)
  | interpolate rate threads gpu =>
    cases h
    exact rate.replays threads gpu
  | resize size kernel => exact replays_resize h
  | correctMatrix m =>
    cases h
    exact m.replays (s.feed _)
  | output =>
    cases h
    exact .done _
  | preview =>
    cases h
    exact replays_preview
  | prefetch threads =>
    cases h
    exact replays_prefetch threads _

/-! ## Conversions -/

theorem Conversion.replays (c : Conversion) (placement : ChromaPlacement) :
    Replays free c.input [.term (c.callText placement)] c.output := by
  cases c with
  | promoteDepth =>
    exact replays_change (x := (standard, extended)) (by decide) (by decide) (by decide)
      (Suits.loosen (by decide) free)
  | promoteChroma =>
    refine replays_change (x := (extended, extendedFullChroma)) (by decide) ?_ ?_
      (Suits.loosen ?_ free) <;> cases placement <;> decide
  | reduceChroma =>
    exact replays_change (x := (extendedFullChroma, extended)) (by decide) (by decide) (by decide)
      (Suits.loosen (by decide) free)
  | flushDepth =>
    exact replays_change (x := (extended, standard)) (by decide) (by decide) (by decide)
      (Suits.loosen (by decide) free)

namespace Graph

open FormatState

theorem replays_linesOf (directory : Path) {st : Statements} {f g : SampleFormat}
    (h : Replays free f st.lines g) : Replays free f (linesOf directory st) g := by
  have hds : st.dependencies.map (fun d => Line.dependency (d.rootedAt directory)) =
      (st.dependencies.map (·.rootedAt directory)).map .dependency := by
    rw [List.map_map]
    rfl
  rw [linesOf, hds]
  exact h.dependencies _

theorem replays_convert (setting : Setting) {c : Conversion} {cs : List Conversion} {g : SampleFormat}
    (h : Replays free c.output (conversionLines setting cs) g) :
    Replays free c.input (conversionLines setting (c :: cs)) g := by
  rw [conversionLines, List.flatMap_cons]
  exact (replays_linesOf _ (c.replays setting.placement)).append h

/-- The steps from one format to another replay as such. -/
theorem replays_steps (setting : Setting) (f g : SampleFormat) :
    Replays free f (conversionLines setting (steps f g)) g := by
  cases f <;> cases g
  case standard.standard | extended.extended | extendedFullChroma.extendedFullChroma => exact .done _
  case standard.extended => exact replays_convert setting (c := .promoteDepth) (.done _)
  case extended.standard => exact replays_convert setting (c := .flushDepth) (.done _)
  case extended.extendedFullChroma => exact replays_convert setting (c := .promoteChroma) (.done _)
  case extendedFullChroma.extended => exact replays_convert setting (c := .reduceChroma) (.done _)
  case standard.extendedFullChroma =>
    exact replays_convert setting (c := .promoteDepth)
      (replays_convert setting (c := .promoteChroma) (.done _))
  case extendedFullChroma.standard =>
    exact replays_convert setting (c := .reduceChroma)
      (replays_convert setting (c := .flushDepth) (.done _))

theorem replays_conversions (setting : Setting) (s : FormatState) (c : Contract) :
    Replays free s.samples (conversionLines setting (conversionsFor s c)) (s.fedFormat c) := by
  unfold conversionsFor fedFormat
  cases s.requirementFor c with
  | any => exact .done _
  | exactly f => exact replays_steps setting s.samples f

/-! ## Drafts -/

/-- The lines of a draft replay from eight bits to the format that its state says. -/
structure Draft.InStep (free : List String) (d : Draft) : Prop where
  honest : d.state.Honest
  replays : Replays free standard d.lines d.state.samples

/-- **One stage more keeps lines and state in step.** -/
theorem Draft.InStep.add {setting : Setting} {d d' : Draft} (h : d.InStep free) {stage : Stage}
    (hread : stage.Readable free) (hadd : d.add setting stage = .ok d') : d'.InStep free := by
  obtain ⟨st, hst, heq⟩ := Draft.add_eq setting d h.honest stage
  rw [heq] at hadd
  split at hadd
  · cases hadd
  · cases hadd
    refine ⟨stage.honest_leave (honest_feed _ _), h.replays.append ?_⟩
    exact (replays_conversions setting d.state stage.contract).append
      (replays_linesOf _ (Stage.replays hread hst))

theorem Draft.InStep.foldlM_add {setting : Setting} {d d' : Draft} (h : d.InStep free)
    {stages : List Stage} (hread : ∀ stage ∈ stages, stage.Readable free)
    (hadd : stages.foldlM (Draft.add setting) d = .ok d') : d'.InStep free := by
  induction stages generalizing d with
  | nil =>
    cases hadd
    exact h
  | cons stage rest ih =>
    rw [List.foldlM_cons] at hadd
    cases h1 : d.add setting stage with
    | error fault =>
      rw [h1] at hadd
      cases hadd
    | ok d1 =>
      rw [h1] at hadd
      exact ih (h.add (hread stage List.mem_cons_self) h1)
        (fun st hst => hread st (List.mem_cons_of_mem _ hst)) hadd

/-- A script that rendering makes replays from eight bits back to eight bits. -/
theorem replays_render {setting : Setting} {matrix : ColorMatrix} {stages : List Stage} {s : Script}
    (hread : ∀ stage ∈ stages, stage.Readable free) (h : render setting matrix stages = .ok s) :
    Replays free standard s.lines standard := by
  unfold render at h
  cases hd : draft setting matrix stages with
  | error fault =>
    rw [hd] at h
    cases h
  | ok d =>
    rw [hd] at h
    have hstep : d.InStep free :=
      Draft.InStep.foldlM_add ⟨honest_ofSource matrix, .done _⟩ hread hd
    simp only [bind, Except.bind, requireResolved] at h
    by_cases hr : d.state.isResolved = true
    · rw [if_pos hr] at h
      cases h
      have hsamples : d.state.samples = standard := by
        simp only [isResolved, Bool.and_eq_true, beq_iff_eq] at hr
        exact hr.1
      exact (hsamples ▸ hstep.replays).tidy
    · rw [if_neg hr] at h
      cases h

end Graph

/-! ## Jobs -/

namespace Job

open Restoration.Graph

variable (j : Job) (e : Engine)

theorem file?_of_mem_opening {preview : Bool} {stage : Stage} (h : stage ∈ j.opening preview) :
    ∀ p ∈ stage.file?, p = j.source.forEngine := by
  rcases mem_opening h with ⟨_, rfl⟩ | ⟨_, rfl⟩ | ⟨_, rfl⟩
  · rintro p ⟨⟩
    rfl
  · rintro p ⟨⟩
  · rintro p ⟨⟩

theorem file?_of_mem_picture {stage : Stage} (h : stage ∈ j.picture e) :
    ∀ p ∈ stage.file?, p = (j.path .motionLog).forEngine := by
  rcases mem_picture h with ⟨_, rfl⟩ | ⟨_, -, rfl⟩ | ⟨-, rfl⟩ | h | ⟨_, rfl⟩
  · rintro p ⟨⟩
  · rintro p ⟨⟩
  · rintro p ⟨⟩
  · rcases mem_enlarging h with ⟨-, _, rfl⟩ | h
    · rintro p ⟨⟩
    · rcases mem_motion h with ⟨_, -, rfl⟩ | ⟨_, -, rfl⟩ | ⟨_, -, rfl⟩
      · rintro p ⟨⟩
      · rintro p ⟨⟩
        rfl
      · rintro p ⟨⟩
  · rintro p ⟨⟩

/-- The files that the stages of a job name are its source and its motion log. -/
theorem file?_of_mem_stages {stage : Stage} (h : stage ∈ j.stages e) :
    ∀ p ∈ stage.file?, p = j.source.forEngine ∨ p = (j.path .motionLog).forEngine := by
  rw [stages_eq, front] at h
  simp only [List.mem_append, List.mem_cons] at h
  rcases h with ((h | h) | h) | rfl | h
  · exact fun p hp => .inl (j.file?_of_mem_opening h p hp)
  · exact fun p hp => .inr (j.file?_of_mem_picture e h p hp)
  · rw [mem_correction h]
    rintro p ⟨⟩
  · rintro p ⟨⟩
  · rcases mem_back h with rfl | ⟨_, rfl⟩ <;> rintro p ⟨⟩

theorem file?_of_mem_motionPlan {stage : Stage} (h : stage ∈ j.motionPlan) :
    ∀ p ∈ stage.file?, p = j.source.forEngine ∨ p = (j.path .motionLog).forEngine := by
  rw [motionPlan_eq, List.mem_append, List.mem_singleton] at h
  rcases h with h | rfl
  · rcases mem_motionFront h with h | ⟨_, rfl⟩ | rfl
    · exact fun p hp => .inl (j.file?_of_mem_opening h p hp)
    · rintro p ⟨⟩
    · rintro p ⟨⟩
      exact .inr rfl
  · rintro p ⟨⟩

/-- Formats line up if the calls that name files are left out, or the names hold no quotes. -/
theorem replays_of_compiled {s : Script} (h : j.compile e = .ok s ∨ j.compileMotion e = .ok s)
    (hfree : free = namingFunctions ∨
      '"' ∉ j.source.text.toList ∧ '"' ∉ (j.path .motionLog).text.toList) :
    Replays free standard s.lines standard := by
  have hread : ∀ stage : Stage, (∀ p ∈ stage.file?,
      p = j.source.forEngine ∨ p = (j.path .motionLog).forEngine) → stage.Readable free := by
    refine fun stage hfile => hfree.imp_right fun hnames p hp => ?_
    rcases hfile p hp with rfl | rfl
    · exact hnames.1
    · exact hnames.2
  rcases h with h | h
  · rw [compile_eq] at h
    split at h
    · cases hr : j.render e (j.stages e) with
      | error fault =>
        rw [hr] at h
        cases h
      | ok t =>
        rw [hr] at h
        cases h
        exact replays_render (fun stage hst => hread stage (j.file?_of_mem_stages e hst)) hr
    · cases h
  · unfold compileMotion at h
    cases hr : Graph.render (settingOf j e) .rec709 j.motionPlan with
    | error fault =>
      rw [hr] at h
      cases h
    | ok t =>
      rw [hr] at h
      cases h
      exact replays_render (fun stage hst => hread stage (j.file?_of_mem_motionPlan hst)) hr

/-- **Formats line up.** Replayed from its text, the script of a job goes from eight bits with halved
chroma back to them, and every statement suits the samples that it meets. If the names of files hold
no quotes, not even the calls that name them say anything else. -/
theorem formats_line_up {s : Script} (h : j.compile e = .ok s ∨ j.compileMotion e = .ok s) :
    Replays namingFunctions standard s.lines standard ∧
      ('"' ∉ j.source.text.toList → '"' ∉ (j.path .motionLog).text.toList →
        Replays [] standard s.lines standard) :=
  ⟨replays_of_compiled j e h (.inl rfl), fun hsource hlog =>
    replays_of_compiled j e h (.inr ⟨hsource, hlog⟩)⟩

theorem formats_line_up_two_boosted_passes :
    ∃ s, Job.compile
        { source := ⟨"clip.avi"⟩, directory := ⟨"jobs"⟩, index := 1, denoising := some {},
          stabilization := some {}, upscaleFactor := 2, boost := some {} } {} = .ok s ∧
      Replays namingFunctions standard s.lines standard ∧ Replays [] standard s.lines standard := by
  obtain ⟨s, hs⟩ := (compile_ok_iff
    { source := ⟨"clip.avi"⟩, directory := ⟨"jobs"⟩, index := 1, denoising := some {},
      stabilization := some {}, upscaleFactor := 2, boost := some {} } {}).2 rfl
  have h := formats_line_up _ _ (.inl hs)
  exact ⟨s, hs, h.1, h.2 (by decide) (by decide +kernel)⟩

end Job

end Restoration
