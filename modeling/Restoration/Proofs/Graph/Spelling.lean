import Restoration.Proofs.Graph.Contents
import Restoration.Proofs.Graph.Matrix
import Restoration.Proofs.Job.Path
import Restoration.Proofs.Stage.Spelling

/-!
# What the lines of a script spell

A script holds the lines of its stages and of the conversions between them, and ahead of those what
they depend on, looked up in the plugin directory. Hence what holds of these three holds of all lines
(`forall_mem_rendered`).
-/

namespace Restoration

open Statements

namespace Graph

variable {setting : Setting} {matrix : ColorMatrix} {stages : List Stage}

section written

variable {P : Line → Prop}

theorem forall_mem_linesOf {directory : Path}
    (hload : ∀ d ∈ loadables, P (.dependency (d.rootedAt directory))) {st : Statements}
    (hloads : st.dependencies ⊆ loadables) (hlines : ∀ l ∈ st.lines, P l) :
    ∀ l ∈ linesOf directory st, P l := by
  refine List.forall_mem_append.2 ⟨?_, hlines⟩
  rw [List.forall_mem_map]
  exact fun d hd => hload d (hloads hd)

variable (hload : ∀ d ∈ loadables, P (.dependency (d.rootedAt setting.pluginDirectory)))
  (hconversion : ∀ l : Line, l.Spells convertingFunctions none none → P l)

include hload hconversion

theorem forall_mem_conversionLines (cs : List Conversion) :
    ∀ l ∈ conversionLines setting cs, P l := by
  intro l hl
  obtain ⟨c, -, hl⟩ := List.mem_flatMap.1 hl
  refine forall_mem_linesOf hload (List.subset_append_left _ _) ?_ l hl
  exact List.forall_mem_singleton.2 (hconversion _ (c.line_spells _))

/-- What holds of dependencies, of conversions and of what each stage spells holds of all lines. -/
theorem forall_mem_rendered
    (hstage : ∀ stage ∈ stages, ∀ l : Line,
      l.Spells stage.functions stage.file? stage.comment? → P l)
    {s : Script} (h : render setting matrix stages = .ok s) : ∀ l ∈ s.lines, P l := by
  have hdraft : ∀ {d d' : Draft}, d.state.Honest → (∀ l ∈ d.lines, P l) →
      stages.foldlM (Draft.add setting) d = .ok d' → ∀ l ∈ d'.lines, P l := by
    clear h
    induction stages with
    | nil =>
      intro d d' _ hd hadd
      cases hadd
      exact hd
    | cons stage rest ih =>
      intro d d' hhonest hd hadd
      obtain ⟨d₁, hone, hrest⟩ := foldlM_add_cons_ok hadd
      refine ih (fun st hst => hstage st (List.mem_cons_of_mem _ hst)) (Draft.honest_add hhonest hone)
        ?_ hrest
      obtain ⟨st, hst, rfl⟩ := Draft.eq_of_add hhonest hone
      refine List.forall_mem_append.2 ⟨hd, List.forall_mem_append.2
        ⟨forall_mem_conversionLines hload hconversion _, ?_⟩⟩
      exact forall_mem_linesOf hload (Stage.dependencies_loadable hst) fun l hl =>
        hstage stage List.mem_cons_self l (Stage.lines_spell hst l hl)
  obtain ⟨d, hd, -, rfl⟩ := render_ok_iff.1 h
  exact fun l hl => hdraft (FormatState.honest_ofSource matrix) (by simp) hd l (Script.tidy_subset _ hl)

end written

end Graph

/-! ## Functions -/

/-- The functions that scripts call, but for loading and prefetching. -/
def plainFunctions : List String :=
  convertingFunctions ++ correctingFunctions ++ boostedFunctions ++ scalingFunctions ++
    ["LWLibavVideoSource", "AssumeFPS", "Trim", "Crop", "KNLMeansCL", "HQDeringmod", "nnedi3_rpow2",
      "SuperXBR", "SMDegrain", "ConvertToRGB32", "Deshaker", "ConvertToYV12", "InterFrame",
      "AddBorders"]

theorem Stage.functions_plain (stage : Stage) :
    stage.functions ⊆ plainFunctions ∨ ∃ n, stage = .prefetch n := by
  cases stage with
  | prefetch n => exact .inr ⟨n, rfl⟩
  | upscale u =>
    left
    rw [functions]
    split <;> decide
  | resize size kernel => exact .inl (show scalingFunctions ⊆ plainFunctions by decide)
  | correctMatrix m => exact .inl (show correctingFunctions ⊆ plainFunctions by decide)
  | _ => exact .inl (by simp [functions, plainFunctions])

/-! ## Paths -/

theorem Quotable.join {p q : Path} (hp : Quotable p.text) (hq : Quotable q.text) :
    Quotable (p.join q).text := by
  unfold Path.join
  split
  · exact hq
  split
  · exact ⟨by simp [hp.quote, hq.quote], by simp [hp.line, hq.line]⟩
  · exact ⟨by simp [hp.quote, hq.quote], by simp [hp.line, hq.line]⟩

/-- A quiet name adds no mark to the path of its folder. -/
theorem hasText_join {p : Path} {n m : String} (hm : m ∈ marks) (hn : Path.isAbsolute ⟨n⟩ = false)
    (hquiet : hasText n m = false) : hasText (p.join ⟨n⟩).text m = hasText p.text m := by
  have hslash : '/' ∉ m.toList := (isMark_of_mem m hm).plain '/' (by decide)
  have habsent : ¬ m.toList <:+: n.toList := fun h => by
    rw [hasText_iff.2 h] at hquiet
    cases hquiet
  have hbehind : ∀ front : List Char, m.toList <:+: front ++ '/' :: n.toList ↔ m.toList <:+: front := by
    refine fun front => ⟨fun h => ?_, fun h => h.trans (List.prefix_append _ _).isInfix⟩
    exact (Text.infix_append_cons hslash h).resolve_right habsent
  have hends : ∀ front : List Char, m.toList <:+: front ++ ['/'] ↔ m.toList <:+: front :=
    fun front => ⟨Text.infix_concat hslash, fun h => h.trans (List.prefix_append _ _).isInfix⟩
  rw [Bool.eq_iff_iff, hasText_iff, hasText_iff, Path.join, hn, Bool.false_or]
  split
  · rename_i hempty
    rw [String.isEmpty_iff] at hempty
    rw [hempty]
    exact iff_of_false habsent fun h => habsent (h.trans List.nil_infix)
  split
  · rename_i hlast
    obtain ⟨front, hfront⟩ : ∃ front, p.text.toList = front ++ ['/'] :=
      ⟨_, (List.dropLast_append_getLast? _ hlast).symm⟩
    rw [String.toList_append, hfront, List.append_assoc, hends]
    exact hbehind front
  · rw [String.toList_append, String.toList_append, List.append_assoc]
    exact hbehind p.text.toList

/-! ## Jobs -/

namespace Job

variable {j : Job}

/-- No character in the names of a job's files means anything to a reader of scripts. -/
theorem isQuiet_fileName (j : Job) (f : JobFile) : ∀ c ∈ (j.fileName f).toList, isQuiet c = true := by
  have happend : ∀ {a b : String}, (∀ c ∈ a.toList, isQuiet c = true) →
      (∀ c ∈ b.toList, isQuiet c = true) → ∀ c ∈ (a ++ b).toList, isQuiet c = true := by
    intro a b ha hb
    rw [String.toList_append]
    exact List.forall_mem_append.2 ⟨ha, hb⟩
  have hnumeral : ∀ n, ∀ c ∈ (Numeral.text n).toList, isQuiet c = true := fun n c hc =>
    isQuiet_of_isNumeric (isNumeric_of_mem_text hc)
  have hextension : ∀ c ∈ j.extension.toList, isQuiet c = true := by
    unfold extension
    cases j.delivery.container <;> decide
  have hstem : ∀ c ∈ j.stem.toList, isQuiet c = true :=
    happend (happend (by decide) (hnumeral _)) (by decide)
  cases f with
  | chunkScript n => exact happend (happend (happend hstem (by decide)) (hnumeral n)) (by decide)
  | fragment n => exact happend (happend (happend hstem (by decide)) (hnumeral n)) hextension
  | delivery => exact happend (happend hstem (by decide)) hextension
  | _ => exact happend hstem (by decide)

theorem quotable_path (h : Quotable j.directory.text) (f : JobFile) : Quotable (j.path f).text := by
  have hloud : ∀ c, isQuiet c = false → c ∉ (j.fileName f).toList := fun c hc hmem => by
    rw [j.isQuiet_fileName f c hmem] at hc
    cases hc
  exact h.join ⟨hloud _ rfl, hloud _ rfl⟩

/-- The path of a job's file spells what the path of the job's directory does. -/
theorem hasText_path {m : String} (hm : m ∈ marks) (f : JobFile) :
    hasText (j.path f).text m = hasText j.directory.text m := by
  obtain ⟨rest, hrest⟩ := opens_of_stem (j.stem_fileName f)
  refine hasText_join hm ?_ ((quiet_of_chars (j.isQuiet_fileName f)).unmarked m hm)
  simp [Path.isAbsolute, hrest]

end Job

end Restoration
