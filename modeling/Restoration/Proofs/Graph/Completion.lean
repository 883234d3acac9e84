import Restoration.Proofs.Graph.Feeding
import Restoration.Proofs.Graph.Plan

/-!
# Every job compiles

A list of stages moves the state of the graph by `passing`, whatever lines it writes. Ahead of an
output no stage can fail, and behind it nothing is left to convert; so a plan fails only if the
colour matrix still waits at the output, and the plan of a job sees to it that it does not:

    render setting matrix (front ++ .output :: back) = ok s        (render_ok)
    (∃ s, j.compile e = ok s) ↔ j.sizesFit                         (compile_ok_iff)
-/

namespace Restoration

namespace Graph

open FormatState

/-- The state of a graph behind some stages. -/
def passing (s : FormatState) (stages : List Stage) : FormatState :=
  stages.foldl (fun s stage => stage.leave (s.feed stage.contract)) s

@[simp] theorem passing_nil (s : FormatState) : passing s [] = s := rfl

@[simp] theorem passing_cons (s : FormatState) (stage : Stage) (stages : List Stage) :
    passing s (stage :: stages) = passing (stage.leave (s.feed stage.contract)) stages := rfl

theorem honest_passing {s : FormatState} (h : s.Honest) (stages : List Stage) :
    (passing s stages).Honest := by
  induction stages generalizing s with
  | nil => exact h
  | cons stage rest ih => exact ih (stage.honest_leave (honest_feed s _))

/-- The colour matrix waits until some stage converts it. -/
theorem passing_pendingMatrix (s : FormatState) (stages : List Stage) :
    (passing s stages).pendingMatrix =
      if stages.any Stage.correctsMatrix then none else s.pendingMatrix := by
  induction stages generalizing s with
  | nil => rfl
  | cons stage rest ih =>
    rw [passing_cons, ih, Stage.leave_pendingMatrix, List.any_cons]
    cases stage.correctsMatrix <;> simp

/-- Stages that take what comes, or eight bits, and leave the matrix alone. -/
def IsClosing (stage : Stage) : Prop :=
  stage.correctsMatrix = false ∧ (stage.contract = .any ∨ stage.contract = .standard)

theorem isResolved_iff (s : FormatState) :
    s.isResolved = true ↔ s.samples = .standard ∧ s.pendingMatrix = none := by
  simp [isResolved]

/-- Nothing is left to convert behind stages that find nothing to convert. -/
theorem isResolved_passing {s : FormatState} {stages : List Stage} (hs : s.isResolved = true)
    (h : ∀ stage ∈ stages, IsClosing stage) : (passing s stages).isResolved = true := by
  induction stages generalizing s with
  | nil => exact hs
  | cons stage rest ih =>
    obtain ⟨hc, hcontract⟩ := h stage List.mem_cons_self
    rw [passing_cons, Stage.leave_of_not_correctsMatrix hc]
    refine ih ?_ fun st hst => h st (List.mem_cons_of_mem _ hst)
    rw [isResolved_iff] at hs ⊢
    refine ⟨?_, hs.2⟩
    rcases hcontract with hc | hc
    · rw [feed_samples, hc, fedFormat_any, hs.1]
    · rw [feed_samples, hc, fedFormat_standard]

/-! ## Drafts -/

/-- A stage that is no output never fails. -/
theorem Draft.add_ok (setting : Setting) {d : Draft} (h : d.state.Honest) {stage : Stage}
    (hout : stage = .output → d.state.pendingMatrix = none) :
    ∃ d', d.add setting stage = .ok d' ∧
      d'.state = stage.leave (d.state.feed stage.contract) := by
  obtain ⟨st, -, hadd⟩ := Draft.add_eq setting d h stage
  rw [if_neg] at hadd
  · exact ⟨_, hadd, rfl⟩
  · rintro ⟨ho, hp⟩
    rw [hout ho] at hp
    cases hp

theorem foldlM_add_ok (setting : Setting) {d : Draft} (h : d.state.Honest) {stages : List Stage}
    (hout : Stage.output ∉ stages) :
    ∃ d', stages.foldlM (Draft.add setting) d = .ok d' ∧ d'.state = passing d.state stages := by
  induction stages generalizing d with
  | nil => exact ⟨d, rfl, rfl⟩
  | cons stage rest ih =>
    have hstage : stage = .output → d.state.pendingMatrix = none :=
      fun ho => absurd (ho ▸ List.mem_cons_self) hout
    obtain ⟨d1, hadd, hstate⟩ := Draft.add_ok setting h hstage
    have h1 : d1.state.Honest := by
      rw [hstate]
      exact stage.honest_leave (honest_feed _ _)
    obtain ⟨d2, hrest, hd2⟩ := ih h1 fun ho => hout (List.mem_cons_of_mem _ ho)
    refine ⟨d2, ?_, by rw [hd2, hstate, passing_cons]⟩
    rw [List.foldlM_cons, hadd]
    exact hrest

/-- **A plan with one output renders**, if the colour matrix does not wait for it there. -/
theorem render_ok (setting : Setting) (matrix : ColorMatrix) {front back : List Stage}
    (hfront : Stage.output ∉ front) (hback : Stage.output ∉ back)
    (hclosing : ∀ stage ∈ back, IsClosing stage)
    (hpending : (passing (.ofSource matrix) front).pendingMatrix = none) :
    ∃ s, render setting matrix (front ++ .output :: back) = .ok s := by
  obtain ⟨d1, h1, hs1⟩ := foldlM_add_ok setting
    (d := { state := .ofSource matrix }) (honest_ofSource matrix) hfront
  have hh1 : d1.state.Honest := by
    rw [hs1]
    exact honest_passing (honest_ofSource matrix) front
  have hstage : Stage.output = .output → d1.state.pendingMatrix = none := by
    intro _
    rw [hs1]
    exact hpending
  obtain ⟨d2, h2, hs2⟩ := Draft.add_ok setting hh1 hstage
  have hresolved : d2.state.isResolved = true := by
    rw [hs2, isResolved_iff]
    refine ⟨rfl, ?_⟩
    show d1.state.pendingMatrix = none
    rw [hs1]
    exact hpending
  have hh2 : d2.state.Honest := by
    rw [hs2]
    exact Stage.output.honest_leave (honest_feed _ _)
  obtain ⟨d3, h3, hs3⟩ := foldlM_add_ok setting hh2 hback
  have hdraft : draft setting matrix (front ++ .output :: back) = .ok d3 := by
    rw [draft, List.foldlM_append, h1]
    show (Stage.output :: back).foldlM (Draft.add setting) d1 = _
    rw [List.foldlM_cons, h2]
    exact h3
  refine ⟨Script.tidy ⟨d3.lines⟩, ?_⟩
  rw [render, hdraft]
  show (requireResolved d3.state >>= fun _ => pure (Script.tidy ⟨d3.lines⟩)) = .ok _
  rw [requireResolved, hs3, if_pos (isResolved_passing hresolved hclosing)]
  rfl

end Graph

/-! ## Plans -/

namespace Job

open Restoration.Graph

variable (j : Job) (e : Engine)

theorem isClosing_of_mem_back : ∀ stage ∈ back e, IsClosing stage := by
  intro stage h
  rcases mem_back h with rfl | ⟨n, rfl⟩
  · exact ⟨rfl, .inr rfl⟩
  · exact ⟨rfl, .inl rfl⟩

/-- Ahead of its output, a plan converts the colour matrix of a source that needs it. -/
theorem front_pendingMatrix :
    (passing (.ofSource j.traits.colorMatrix) (j.front e)).pendingMatrix = none := by
  rw [passing_pendingMatrix]
  by_cases hm : j.traits.colorMatrix = .rec709
  · rw [hm]
    split <;> rfl
  · rw [if_pos]
    unfold front correction
    cases hany : (j.opening e.preview ++ j.picture e).any Stage.correctsMatrix
    · rw [if_pos ⟨hm, by simp⟩, List.any_append, hany]
      rfl
    · rw [List.any_append, hany]
      rfl

theorem render_stages_ok : ∃ s, j.render e (j.stages e) = .ok s := by
  rw [stages_eq]
  exact render_ok _ _ (output_not_mem_front j e) (output_not_mem_back e)
    (isClosing_of_mem_back e) (front_pendingMatrix j e)

theorem render_of_compile {j : Job} {e : Engine} {s : Script} (h : j.compile e = .ok s) :
    j.render e (j.stages e) = .ok s := by
  rw [compile_eq] at h
  split at h
  · cases hrender : j.render e (j.stages e) with
    | error fault =>
      rw [hrender] at h
      cases h
    | ok t =>
      rw [hrender] at h
      cases h
      rfl
  · cases h

/-- A job compiles exactly if its frame sizes fit in 32 bits. -/
theorem compile_ok_iff : (∃ s, j.compile e = .ok s) ↔ j.sizesFit = true := by
  obtain ⟨s, hs⟩ := render_stages_ok j e
  rw [compile_eq]
  constructor
  · rintro ⟨t, ht⟩
    by_cases hfit : j.sizesFit = true
    · exact hfit
    · rw [if_neg hfit] at ht
      cases ht
  · intro hfit
    exact ⟨s, by rw [if_pos hfit, hs]; rfl⟩

theorem compileMotion_ok : ∃ s, j.compileMotion e = .ok s := by
  have hpending : (passing (.ofSource .rec709) j.motionFront).pendingMatrix = none := by
    rw [passing_pendingMatrix]
    split <;> rfl
  obtain ⟨s, hs⟩ := render_ok (settingOf j e) .rec709 (output_not_mem_motionFront j)
    (show Stage.output ∉ [] by simp) (by simp) hpending
  refine ⟨s, ?_⟩
  rw [compileMotion, motionPlan_eq, hs]
  rfl

/-- Sizes fit if the margins of the source add up, and the wanted width is found, within 32 bits. -/
theorem sizesFit_of_bounds
    (hmargins : ∀ m, j.cropSource = some m →
      m.left.toNat + m.right.toNat < sideBound ∧ m.top.toNat + m.bottom.toNat < sideBound)
    (hwidth : ∀ size, j.targetSize = some size → size.width < sideBound) : j.sizesFit = true := by
  have hfit : j.marginsFit = true := by
    have hm : j.sourceMargins.left.toNat + j.sourceMargins.right.toNat < sideBound ∧
        j.sourceMargins.top.toNat + j.sourceMargins.bottom.toNat < sideBound := by
      unfold sourceMargins
      cases hc : j.cropSource with
      | none => decide
      | some m => exact hmargins m hc
    unfold marginsFit
    split
    · rw [Bool.and_eq_true, decide_eq_true_eq, decide_eq_true_eq]
      exact hm
    · rfl
  unfold sizesFit
  split
  · rw [hfit, Bool.or_true, Bool.true_and]
    cases ht : j.targetSize with
    | none => rfl
    | some size => exact decide_eq_true (hwidth size ht)
  · rfl

/-- **Every job compiles.** The stages of a job always render, and so does its motion pass; only
sizes beyond 32 bits keep a job from its script. -/
theorem every_job_compiles :
    (∃ s, j.render e (j.stages e) = .ok s) ∧ (∃ s, j.compileMotion e = .ok s) ∧
      ((∃ s, j.compile e = .ok s) ↔ j.sizesFit = true) ∧
      ((∀ m, j.cropSource = some m →
          m.left.toNat + m.right.toNat < sideBound ∧ m.top.toNat + m.bottom.toNat < sideBound) →
        (∀ size, j.targetSize = some size → size.width < sideBound) →
        ∃ s, j.compile e = .ok s) :=
  ⟨render_stages_ok j e, compileMotion_ok j e, compile_ok_iff j e, fun hmargins hwidth =>
    (compile_ok_iff j e).2 (sizesFit_of_bounds j hmargins hwidth)⟩

end Job

end Restoration
