import Restoration.Proofs.Graph.Conversions

/-!
# What can go wrong in rendering

Whatever the stages are and in whatever order they come, rendering fails for one reason only:

    j.render e stages = error fault  →  fault = unresolved samples pending

No conversion meets other samples than its input and no stage refuses what it is fed, because samples
with sixteen bits stem from a promotion. Depth is promoted once, and what was flushed stays flushed.
-/

namespace Restoration

open SampleFormat (standard extended extendedFullChroma)

namespace FormatState

/-- Depth was promoted, and its samples were flushed since. -/
structure Flushed (s : FormatState) : Prop where
  samples : s.samples = standard
  promoted : s.depthPromoted = true

theorem Flushed.fedFormat {s : FormatState} (h : s.Flushed) (c : Contract) :
    s.fedFormat c = standard := by
  cases c <;> simp [FormatState.fedFormat, requirementFor, h.samples, h.promoted]

theorem Flushed.feed {s : FormatState} (h : s.Flushed) (c : Contract) : (s.feed c).Flushed where
  samples := h.fedFormat c
  promoted := by rw [FormatState.feed, h.promoted, Bool.true_or]

theorem Flushed.leave {s : FormatState} (h : s.Flushed) (stage : Stage) : (stage.leave s).Flushed where
  samples := by simp [Stage.leave_samples, h.samples, SampleFormat.isFullChroma]
  promoted := by rw [Stage.leave_depthPromoted, h.promoted]

end FormatState

namespace Graph

open FormatState

/-! ## Conversions ahead of one stage -/

section conversions

variable {s : FormatState} (h : s.Honest) (c : Contract)

include h

/-- Depth is promoted where it was not promoted before and is afterwards, and then once. -/
theorem count_promoteDepth : (conversionsFor s c).count .promoteDepth + s.depthPromoted.toNat =
    (s.feed c).depthPromoted.toNat := by
  have hsteps : ∀ f g, (steps f g).count .promoteDepth =
      if f = standard ∧ g.isExtended = true then 1 else 0 := by
    intro f g
    cases f <;> cases g <;> rfl
  rw [conversionsFor_eq_steps, hsteps, FormatState.feed]
  cases hp : s.depthPromoted with
  | false =>
    have hs : s.samples = standard := h.standard_or_promoted.resolve_right (by simp [hp])
    cases hfed : (s.fedFormat c).isExtended <;> simp [hs]
  | true =>
    have hnot : ¬ (s.samples = standard ∧ (s.fedFormat c).isExtended = true) := by
      rintro ⟨hs, hfed⟩
      rw [Flushed.fedFormat ⟨hs, hp⟩] at hfed
      cases hfed
    rw [if_neg hnot, Bool.true_or, Nat.zero_add]

/-- A flush comes last, so the stage behind it is fed eight bits. -/
theorem flushed_of_flushDepth (hflush : .flushDepth ∈ conversionsFor s c) : (s.feed c).Flushed := by
  have hsteps : ∀ f g, .flushDepth ∈ steps f g → f.isExtended = true ∧ g = standard := by
    intro f g
    cases f <;> cases g <;> simp [steps, SampleFormat.isExtended]
  rw [conversionsFor_eq_steps] at hflush
  obtain ⟨hs, hfed⟩ := hsteps _ _ hflush
  exact ⟨hfed, by rw [FormatState.feed, h hs, Bool.true_or]⟩

end conversions

/-! ## Conversions along stages -/

/-- The conversions that stages have inserted, up to the first fault. -/
def inserted (setting : Setting) (d : Draft) : List Stage → List Conversion
  | [] => []
  | stage :: rest =>
    conversionsFor d.state stage.contract ++
      match d.add setting stage with
      | .ok d' => inserted setting d' rest
      | .error _ => []

/-- What happens at a stage, up to the statements that it writes: the conversions ahead of it can all
be applied, they end in what it requires, and it does not refuse that. -/
structure Meets (setting : Setting) (d : Draft) (stage : Stage) (fed : Draft) : Prop where
  converted : (conversionsFor d.state stage.contract).foldlM (Draft.convert setting) d = .ok fed
  satisfied : (d.state.requirementFor stage.contract).satisfiedBy fed.state.samples = true
  accepted : ∃ st, stage.statements fed.state = .ok st

variable {setting : Setting} {d d' : Draft} {stage : Stage} {stages front : List Stage}

theorem meets (setting : Setting) (h : d.state.Honest) (stage : Stage) : ∃ fed,
    Meets setting d stage fed ∧ fed.state = d.state.feed stage.contract :=
  ⟨_, ⟨foldlM_convert setting d h _, satisfiedBy_fedFormat _ _, stage.statements_ok _⟩, rfl⟩

theorem Draft.state_of_add (h : d.state.Honest) (hadd : d.add setting stage = .ok d') :
    d'.state = stage.leave (d.state.feed stage.contract) := by
  obtain ⟨st, -, heq⟩ := Draft.add_eq setting d h stage
  rw [heq] at hadd
  split at hadd <;> cases hadd
  rfl

theorem Draft.honest_add (h : d.state.Honest) (hadd : d.add setting stage = .ok d') :
    d'.state.Honest := by
  rw [Draft.state_of_add h hadd]
  exact stage.honest_leave (honest_feed _ _)

/-- The only stage that can fail is an output that the colour matrix still waits for. -/
theorem Draft.add_error (h : d.state.Honest) {fault : FormatFault}
    (hadd : d.add setting stage = .error fault) : fault = .unresolved standard true := by
  obtain ⟨st, -, heq⟩ := Draft.add_eq setting d h stage
  rw [heq] at hadd
  split at hadd <;> cases hadd
  rfl

/-- Stages are drawn up one after the other. -/
theorem foldlM_add_cons_ok (h : (stage :: stages).foldlM (Draft.add setting) d = .ok d') :
    ∃ d₁, d.add setting stage = .ok d₁ ∧ stages.foldlM (Draft.add setting) d₁ = .ok d' := by
  rw [List.foldlM_cons] at h
  cases hadd : d.add setting stage with
  | error fault =>
    rw [hadd] at h
    cases h
  | ok d₁ =>
    rw [hadd] at h
    exact ⟨d₁, rfl, h⟩

theorem honest_foldlM_add (h : d.state.Honest)
    (hadd : stages.foldlM (Draft.add setting) d = .ok d') : d'.state.Honest := by
  induction stages generalizing d with
  | nil =>
    cases hadd
    exact h
  | cons stage rest ih =>
    obtain ⟨d₁, hone, hrest⟩ := foldlM_add_cons_ok hadd
    exact ih (Draft.honest_add h hone) hrest

theorem foldlM_add_error (h : d.state.Honest) {fault : FormatFault}
    (hadd : stages.foldlM (Draft.add setting) d = .error fault) :
    fault = .unresolved standard true := by
  induction stages generalizing d with
  | nil => cases hadd
  | cons stage rest ih =>
    rw [List.foldlM_cons] at hadd
    cases hone : d.add setting stage with
    | error fault' =>
      rw [hone] at hadd
      cases hadd
      exact Draft.add_error h hone
    | ok d₁ =>
      rw [hone] at hadd
      exact ih (Draft.honest_add h hone) hadd

/-- The stages behind the first ones insert what they insert behind the draft of those. -/
theorem inserted_append (h : front.foldlM (Draft.add setting) d = .ok d') (stages : List Stage) :
    inserted setting d (front ++ stages) = inserted setting d front ++ inserted setting d' stages := by
  induction front generalizing d with
  | nil =>
    cases h
    rfl
  | cons stage rest ih =>
    obtain ⟨d₁, hone, hrest⟩ := foldlM_add_cons_ok h
    simp only [List.cons_append, inserted, hone, ih hrest, List.append_assoc]

/-- **Depth is promoted once at most**, and not at all where it already was. -/
theorem count_inserted (h : d.state.Honest) (stages : List Stage) :
    (inserted setting d stages).count .promoteDepth + d.state.depthPromoted.toNat ≤ 1 := by
  induction stages generalizing d with
  | nil =>
    rw [inserted, List.count_nil, Nat.zero_add]
    exact Bool.toNat_le _
  | cons stage rest ih =>
    have hone := count_promoteDepth h stage.contract
    have hbound := Bool.toNat_le (d.state.feed stage.contract).depthPromoted
    rw [inserted, List.count_append]
    cases hadd : d.add setting stage with
    | error fault =>
      rw [List.count_nil]
      omega
    | ok d₁ =>
      have hrest := ih (Draft.honest_add h hadd)
      rw [Draft.state_of_add h hadd, Stage.leave_depthPromoted] at hrest
      dsimp only
      omega

/-- **A flushed graph stays flushed.** -/
theorem flushed_foldlM_add (h : d.state.Honest)
    (hadd : stages.foldlM (Draft.add setting) d = .ok d')
    (hflush : d.state.Flushed ∨ .flushDepth ∈ inserted setting d stages) : d'.state.Flushed := by
  induction stages generalizing d with
  | nil =>
    cases hadd
    exact hflush.resolve_right (by simp [inserted])
  | cons stage rest ih =>
    obtain ⟨d₁, hone, hrest⟩ := foldlM_add_cons_ok hadd
    refine ih (Draft.honest_add h hone) hrest ?_
    rw [inserted, hone, List.mem_append] at hflush
    rw [Draft.state_of_add h hone]
    rcases hflush with hflushed | hhere | hlater
    · exact .inl ((hflushed.feed _).leave stage)
    · exact .inl ((flushed_of_flushDepth h _ hhere).leave stage)
    · exact .inr hlater

theorem render_error {matrix : ColorMatrix} {fault : FormatFault}
    (h : render setting matrix stages = .error fault) :
    ∃ samples pending, fault = .unresolved samples pending := by
  unfold render at h
  cases hdraft : draft setting matrix stages with
  | error fault' =>
    rw [hdraft] at h
    cases h
    exact ⟨_, _, foldlM_add_error (honest_ofSource matrix) hdraft⟩
  | ok d =>
    rw [hdraft] at h
    simp only [bind, Except.bind, requireResolved] at h
    split at h <;> cases h
    rename_i hunresolved
    split at hunresolved <;> cases hunresolved
    exact ⟨_, _, rfl⟩

end Graph

namespace Job

open Restoration.Graph FormatState

/-- **No stages can break a graph.** Whatever they are, rendering them is refused only for what is
left to convert at an output or at the end. At every stage that is reached, the conversions ahead of
it apply and give it what it requires, and it takes that. All in all depth is promoted once at most,
and no stage behind a flush is fed sixteen bits. -/
theorem render_fails_only_unresolved (j : Job) (e : Engine) (stages : List Stage) :
    (∀ fault, j.render e stages = .error fault →
      ∃ samples pending, fault = .unresolved samples pending) ∧
    (∀ front stage back d, stages = front ++ stage :: back →
      draft (settingOf j e) j.traits.colorMatrix front = .ok d →
      ∃ fed, Meets (settingOf j e) d stage fed ∧
        (.flushDepth ∈ inserted (settingOf j e) { state := .ofSource j.traits.colorMatrix }
          (front ++ [stage]) → fed.state.samples = standard)) ∧
    (inserted (settingOf j e) { state := .ofSource j.traits.colorMatrix } stages).count
      .promoteDepth ≤ 1 := by
  have hsource := honest_ofSource j.traits.colorMatrix
  refine ⟨fun fault => render_error, ?_, Nat.le_of_add_right_le (count_inserted hsource stages)⟩
  rintro front stage back d - hdraft
  have hhonest := honest_foldlM_add hsource hdraft
  obtain ⟨fed, hmeets, hfed⟩ := meets (settingOf j e) hhonest stage
  refine ⟨fed, hmeets, fun hflush => ?_⟩
  rw [hfed]
  rw [inserted_append hdraft, List.mem_append] at hflush
  -- the flush was ahead of an earlier stage, or it is ahead of this one
  rcases hflush with hearlier | hhere
  · exact (flushed_foldlM_add hsource hdraft (.inr hearlier)).fedFormat _
  · refine (flushed_of_flushDepth hhonest _ ?_).samples
    rw [inserted, List.mem_append] at hhere
    refine hhere.resolve_right ?_
    cases d.add (settingOf j e) stage <;> simp [inserted]

end Job

end Restoration
