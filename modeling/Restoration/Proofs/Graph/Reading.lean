import Restoration.Proofs.Graph.Spelling
import Restoration.Proofs.Script.Reading
import Restoration.Proofs.Script.Restriction
import Restoration.Script.Probe

/-!
# Reading a job's scripts back

Scripts are written by one program and edited by others, which know of a script only what they read
from its text. As long as no path breaks its quotes or its line, they read what was written:

    j.compile e = ok s  →  Script.parse s.text = s
-/

namespace Restoration

open Statements

/-! ## Lines -/

theorem Line.Spells.legible {fs : List String} {file : Option Path} {comment : Option String}
    {l : Line} (h : l.Spells fs file comment) (hfs : ∀ f ∈ fs, Callable f ∧ f ∉ loadingFunctions)
    (hfile : ∀ p ∈ file, Quotable p.text) (hcomment : ∀ c ∈ comment, IsComment c) : l.Legible := by
  have hsound : ∀ {as : List String}, (∀ a ∈ as, Harmless file a) → ∀ a ∈ as, Sound a := by
    intro as has a ha
    rcases has a ha with hquiet | ⟨p, hp, hcites⟩
    · exact hquiet.toSound
    · exact hcites.sound (hfile p hp)
  cases h with
  | term hf has => exact legible_term (hfs _ hf).1 (hfs _ hf).2 (hsound has)
  | commented hf has hc => exact legible_commented (hfs _ hf).1 (hsound has) (hcomment _ hc)

theorem callable_plain : ∀ f ∈ "Prefetch" :: plainFunctions, Callable f ∧ f ∉ loadingFunctions := by
  decide +kernel

theorem Stage.callable_functions {stage : Stage} :
    ∀ f ∈ stage.functions, Callable f ∧ f ∉ loadingFunctions := by
  intro f hf
  refine callable_plain f ?_
  rcases stage.functions_plain with hplain | ⟨n, rfl⟩
  · exact List.mem_cons_of_mem _ (hplain hf)
  · exact List.mem_singleton.1 hf ▸ List.mem_cons_self

theorem Stage.isComment_comment? {stage : Stage} : ∀ c ∈ stage.comment?, IsComment c := by
  have hmark : IsComment FrameCut.mark ∧ IsComment previewMark := by decide
  cases stage with
  | trim cut =>
    intro c hc
    rw [comment?] at hc
    split at hc
    · cases hc
      exact hmark.1
    · cases hc
  | preview =>
    rintro c ⟨⟩
    exact hmark.2
  | _ => rintro c ⟨⟩

/-- The names of everything that stages depend on can stand in a script. -/
theorem readable_loadables : ∀ d ∈ loadables, Quotable d.path.text ∧ d.Readable := by
  decide +kernel

/-- What stages depend on is read back from any directory whose path can stand in a script. -/
theorem legible_loadable {directory : Path} (h : Quotable directory.text) {d : Dependency}
    (hd : d ∈ loadables) : (Line.dependency (d.rootedAt directory)).Legible := by
  obtain ⟨hpath, hread⟩ := readable_loadables d hd
  have hrooted : (d.rootedAt directory).path = directory.join d.path ∧
      (d.rootedAt directory).Readable := by
    cases d <;> exact ⟨rfl, hread⟩
  refine Dependency.legible ?_ hrooted.2
  rw [hrooted.1]
  exact h.join hpath

namespace Graph

/-- The lines of a script are legible if the files that its stages name can stand in it. -/
theorem legible_render {setting : Setting} {matrix : ColorMatrix} {stages : List Stage} {s : Script}
    (hdirectory : Quotable setting.pluginDirectory.text)
    (hfiles : ∀ stage ∈ stages, ∀ p ∈ stage.file?, Quotable p.text)
    (h : render setting matrix stages = .ok s) : ∀ l ∈ s.lines, l.Legible := by
  refine forall_mem_rendered (fun d hd => legible_loadable hdirectory hd) (fun l hl => ?_)
    (fun stage hst l hl => ?_) h
  · refine hl.legible (fun f hf => callable_plain f ?_) (by simp) (by simp)
    exact List.mem_cons_of_mem _ (by simp [plainFunctions, hf])
  · exact hl.legible Stage.callable_functions (hfiles stage hst) Stage.isComment_comment?

end Graph

/-! ## Edited scripts and probes -/

namespace Script

theorem legible_restrictingLine (r : FrameRange) : (restrictingLine r).Legible := by
  have hspells : (restrictingLine r).Spells ["Trim"] none (some FrameCut.mark) :=
    FrameCut.line_spells { first := r.start, last := some r.stop, marked := true }
  exact hspells.legible (by decide) (by simp) (by decide)

theorem legible_frameCountProbe {script side : Path} (hscript : Quotable script.text)
    (hside : Quotable side.text) : ∀ l ∈ (frameCountProbe script side).lines, l.Legible := by
  have hwrite : "WriteFileStart(\"" ++ side.text ++
      "\", \"FrameRate\", \"\"\",\"\"\", \"FrameCount\")" =
      call "WriteFileStart" [quoted side.text, "\"FrameRate\"", "\"\"\",\"\"\"", "\"FrameCount\""] := by
    apply String.toList_injective
    simp [toList_call, quoted]
  have htrim : "Trim(0, -1)" = call "Trim" ["0", "-1"] := by simp [call]
  simp only [frameCountProbe, List.forall_mem_cons]
  refine ⟨Dependency.legible hscript trivial, ?_, ?_, by simp⟩
  · rw [hwrite]
    refine legible_term (by decide) (by decide) ?_
    refine List.forall_mem_cons.2 ⟨(cites_quoted side).sound hside, by decide⟩
  · rw [htrim]
    exact legible_term (by decide) (by decide) (by decide)

theorem legible_gpuProbe {directory : Path} (h : Quotable directory.text) :
    ∀ l ∈ (gpuProbe directory).lines, l.Legible := by
  have hclip : "BlankClip(length=10, width=64, height=64, pixel_type=\"YV12\")" =
      call "BlankClip" ["length=10", "width=64", "height=64", "pixel_type=\"YV12\""] := by simp [call]
  intro l hl
  rcases List.mem_cons.1 (tidy_subset _ hl) with rfl | hl
  · rw [hclip]
    exact legible_term (by decide) (by decide) (by decide)
  · have hdenoising : ∀ l ∈ (Denoising.statements {} true (.ofSource .rec709)).lines, l.Legible := by
      intro l hl
      have hspells : l.Spells ["KNLMeansCL"] none none := Denoising.lines_spell _ _ _ l hl
      exact hspells.legible (by decide) (by simp) (by simp)
    exact Graph.forall_mem_linesOf (fun d hd => legible_loadable h hd)
      (show [plugin "KNLMeansCL.dll"] ⊆ loadables by decide) hdenoising l hl

end Script

/-! ## Jobs -/

namespace Job

open Restoration.Graph

/-- **A job's scripts are read as they were written**, whatever they are made of and wherever the
files lie, as long as no path breaks its quotes or its line. So are their restrictions to any range of
frames, and the probes that are run for the job. -/
theorem scripts_read_back (j : Job) (e : Engine) (hsource : Quotable j.source.text)
    (hdirectory : Quotable j.directory.text) (hplugins : Quotable e.pluginDirectory.text) :
    (∀ s, j.compile e = .ok s →
      Script.parse s.text = s ∧ ∀ r, Script.parse (s.restrict r).text = s.restrict r) ∧
    (∀ s, j.compileMotion e = .ok s → Script.parse s.text = s) ∧
    Script.parse (Script.gpuProbe e.pluginDirectory).text = Script.gpuProbe e.pluginDirectory ∧
    Script.parse (Script.frameCountProbe (j.path .script) (j.path .frameCount)).text =
      Script.frameCountProbe (j.path .script) (j.path .frameCount) := by
  have hfile : ∀ p : Path, p = j.source.forEngine ∨ p = (j.path .motionLog).forEngine →
      Quotable p.text := by
    rintro p (rfl | rfl)
    · exact hsource
    · exact quotable_path hdirectory .motionLog
  refine ⟨fun s hs => ?_, fun s hs => ?_, ?_, ?_⟩
  · have hlegible := legible_render hplugins
      (fun stage hst p hp => hfile p (j.file?_of_mem_stages e hst p hp)) (render_of_compile hs)
    refine ⟨Script.parse_text hlegible, fun r => Script.parse_text fun l hl => ?_⟩
    rcases Script.mem_restrict hl with hl | rfl
    · exact hlegible l hl
    · exact Script.legible_restrictingLine r
  · exact Script.parse_text (legible_render hplugins
      (fun stage hst p hp => hfile p (j.file?_of_mem_motionPlan hst p hp))
      (render_of_compileMotion hs))
  · exact Script.parse_text (Script.legible_gpuProbe hplugins)
  · exact Script.parse_text (Script.legible_frameCountProbe (quotable_path hdirectory .script)
      (quotable_path hdirectory .frameCount))

theorem scripts_read_back_hard_paths :
    ∃ s, Job.compile
        { source := ⟨"/media/a, (b) # c.mkv"⟩, directory := ⟨"/jobs # 1"⟩, index := 1,
          stabilization := some {} }
        { pluginDirectory := ⟨"plugins, (x86)"⟩, threads := 4, preview := true } = .ok s ∧
      Script.parse s.text = s ∧ Script.parse (s.restrict ⟨0, 99⟩).text = s.restrict ⟨0, 99⟩ := by
  obtain ⟨s, hs⟩ := (compile_ok_iff
    { source := ⟨"/media/a, (b) # c.mkv"⟩, directory := ⟨"/jobs # 1"⟩, index := 1,
      stabilization := some {} }
    { pluginDirectory := ⟨"plugins, (x86)"⟩, threads := 4, preview := true }).2 rfl
  refine ⟨s, hs, ((scripts_read_back _ _ ?_ ?_ ?_).1 s hs).imp_right (· ⟨0, 99⟩)⟩
  all_goals decide +kernel

end Job

end Restoration
