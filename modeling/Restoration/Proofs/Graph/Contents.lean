import Restoration.Proofs.Graph.Faults

/-!
# What a script holds

A script holds the draft of its stages: every stage has its lines in it, in the order of the stages,
and bringing it into order adds nothing.

    render (stages ++ [prefetch n]) = render stages ++ [prefetchLine n]
-/

namespace Restoration

open Statements

/-! ## Order -/

/-- An engine opens every path as it is written. -/
theorem Dependency.withPath_forEngine (d : Dependency) : d.withPath d.path.forEngine = d := by
  cases d <;> rfl

namespace Script

theorem keepFirst_subset {α : Type} (same : α → α → Bool) (l : List α) : keepFirst same l ⊆ l := by
  induction l with
  | nil => exact List.nil_subset _
  | cons a r ih =>
    exact List.cons_subset_cons _ (List.Subset.trans (List.filter_subset_self _) ih)

/-- Bringing a script into order adds no line. -/
theorem tidy_subset (lines : List Line) : (tidy ⟨lines⟩).lines ⊆ lines := by
  intro l hl
  rw [tidy, List.mem_append] at hl
  rcases hl with hl | hl
  · obtain ⟨d, hd, rfl⟩ := List.mem_map.1 hl
    obtain ⟨d', hd', rfl⟩ := List.mem_map.1 (keepFirst_subset _ _ hd)
    obtain ⟨m, hm, hdependency⟩ := List.mem_filterMap.1 hd'
    rw [Dependency.withPath_forEngine]
    cases m <;> cases hdependency
    exact hm
  · exact (List.mem_filter.1 hl).1

theorem mem_tidy {lines : List Line} {l : Line} (h : l ∈ lines) (hl : l.isDependency = false) :
    l ∈ (tidy ⟨lines⟩).lines :=
  List.mem_append_right _ (List.mem_filter.2 ⟨h, by rw [hl]; rfl⟩)

/-- A dependency ahead of all other lines stays there. -/
theorem mem_tidy_cons (d : Dependency) (lines : List Line) :
    .dependency d ∈ (tidy ⟨.dependency d :: lines⟩).lines := by
  refine List.mem_append_left _ (List.mem_map.2 ⟨d, ?_, rfl⟩)
  rw [List.filterMap_cons]
  show d ∈ keepFirst _ (d.withPath d.path.forEngine :: _)
  rw [Dependency.withPath_forEngine, keepFirst]
  exact List.mem_cons_self

theorem tidy_concat (lines : List Line) {l : Line} (hl : l.isDependency = false) :
    (tidy ⟨lines ++ [l]⟩).lines = (tidy ⟨lines⟩).lines ++ [l] := by
  have hnone : dependency? l = none := by
    cases l
    · cases hl
    all_goals rfl
  simp [tidy, hnone, hl]

end Script

/-! ## Rendering -/

/-- The line that makes an engine prefetch. -/
def prefetchLine (threads : Nat) : Line := .term (call "Prefetch" [Numeral.text threads])

namespace Graph

variable {setting : Setting} {matrix : ColorMatrix} {stages : List Stage} {s : Script}

/-- A script is the draft of its stages, brought into order, if nothing is left to convert. -/
theorem render_ok_iff : render setting matrix stages = .ok s ↔
    ∃ d, draft setting matrix stages = .ok d ∧ d.state.isResolved = true ∧
      s = Script.tidy ⟨d.lines⟩ := by
  unfold render
  cases draft setting matrix stages with
  | error fault => simp [bind, Except.bind]
  | ok d =>
    simp only [bind, Except.bind, requireResolved, pure, Except.pure]
    by_cases hresolved : d.state.isResolved = true
    · rw [if_pos hresolved]
      constructor
      · rintro ⟨⟩
        exact ⟨d, rfl, hresolved, rfl⟩
      · rintro ⟨_, ⟨⟩, -, rfl⟩
        rfl
    · rw [if_neg hresolved]
      constructor
      · rintro ⟨⟩
      · rintro ⟨_, ⟨⟩, h, -⟩
        exact absurd h hresolved

/-- A stage adds its conversions and its statements to the draft. -/
theorem Draft.eq_of_add {d d' : Draft} (h : d.state.Honest) {stage : Stage}
    (hadd : d.add setting stage = .ok d') :
    ∃ st, stage.statements (d.state.feed stage.contract) = .ok st ∧
      d' = ⟨d.lines ++ (conversionLines setting (conversionsFor d.state stage.contract) ++
        linesOf setting.pluginDirectory st), stage.leave (d.state.feed stage.contract)⟩ := by
  obtain ⟨st, hst, heq⟩ := Draft.add_eq setting d h stage
  rw [heq] at hadd
  split at hadd
  · cases hadd
  · exact ⟨st, hst, (Except.ok.inj hadd).symm⟩

theorem lines_foldlM_add {d d' : Draft} (h : d.state.Honest)
    (hadd : stages.foldlM (Draft.add setting) d = .ok d') : ∃ more, d'.lines = d.lines ++ more := by
  induction stages generalizing d with
  | nil =>
    cases hadd
    exact ⟨[], (List.append_nil _).symm⟩
  | cons stage rest ih =>
    obtain ⟨d₁, hone, hrest⟩ := foldlM_add_cons_ok hadd
    obtain ⟨more, hmore⟩ := ih (Draft.honest_add h hone) hrest
    obtain ⟨st, -, rfl⟩ := Draft.eq_of_add h hone
    exact ⟨_, hmore.trans (List.append_assoc _ _ _)⟩

/-- Every stage has its lines in the draft. -/
theorem lines_of_mem {d d' : Draft} (h : d.state.Honest) {stage : Stage} (hstage : stage ∈ stages)
    (hadd : stages.foldlM (Draft.add setting) d = .ok d') :
    ∃ fed st, stage.statements fed = .ok st ∧ st.lines ⊆ d'.lines := by
  induction stages generalizing d with
  | nil => cases hstage
  | cons first rest ih =>
    obtain ⟨d₁, hone, hrest⟩ := foldlM_add_cons_ok hadd
    have hhonest := Draft.honest_add h hone
    rcases List.mem_cons.1 hstage with rfl | hstage
    · obtain ⟨more, hmore⟩ := lines_foldlM_add hhonest hrest
      obtain ⟨st, hst, rfl⟩ := Draft.eq_of_add h hone
      refine ⟨_, st, hst, fun l hl => ?_⟩
      rw [hmore]
      simp [linesOf, hl]
    · exact ih hhonest hstage hrest

theorem mem_render_of_mem (h : render setting matrix stages = .ok s) {stage : Stage}
    (hstage : stage ∈ stages) : ∃ fed st, stage.statements fed = .ok st ∧
      ∀ l ∈ st.lines, l.isDependency = false → l ∈ s.lines := by
  obtain ⟨d, hdraft, -, rfl⟩ := render_ok_iff.1 h
  obtain ⟨fed, st, hst, hlines⟩ :=
    lines_of_mem (FormatState.honest_ofSource matrix) hstage hdraft
  exact ⟨fed, st, hst, fun l hl => Script.mem_tidy (hlines hl)⟩

/-- What the source depends on is loaded from the plugin directory, whatever follows. -/
theorem mem_render_source {clip : Path} {rate : Option FrameRate}
    (h : render setting matrix (.source clip rate :: stages) = .ok s) :
    .dependency ((plugin "LSMASHSource.dll").rootedAt setting.pluginDirectory) ∈ s.lines := by
  obtain ⟨d, hdraft, -, rfl⟩ := render_ok_iff.1 h
  have hsource := FormatState.honest_ofSource matrix
  obtain ⟨d₁, hone, hrest⟩ := foldlM_add_cons_ok hdraft
  obtain ⟨more, hmore⟩ := lines_foldlM_add (Draft.honest_add hsource hone) hrest
  obtain ⟨st, hst, rfl⟩ := Draft.eq_of_add hsource hone
  cases hst
  rw [hmore]
  exact Script.mem_tidy_cons _ _

/-- Prefetching adds its line at the end of the script, and nothing else. -/
theorem render_prefetch {threads : Nat}
    (h : render setting matrix (stages ++ [.prefetch threads]) = .ok s) :
    ∃ t, render setting matrix stages = .ok t ∧ s.lines = t.lines ++ [prefetchLine threads] := by
  obtain ⟨d', hdraft, hresolved, rfl⟩ := render_ok_iff.1 h
  rw [draft, List.foldlM_append] at hdraft
  cases hfront : draft setting matrix stages with
  | error fault =>
    rw [draft] at hfront
    rw [hfront] at hdraft
    cases hdraft
  | ok d =>
    have hhonest := honest_foldlM_add (FormatState.honest_ofSource matrix) hfront
    rw [draft] at hfront
    rw [hfront] at hdraft
    have hadd : [Stage.prefetch threads].foldlM (Draft.add setting) d = .ok d' := hdraft
    obtain ⟨d₁, hone, hrest⟩ := foldlM_add_cons_ok hadd
    cases hrest
    obtain ⟨st, hst, rfl⟩ := Draft.eq_of_add hhonest hone
    cases hst
    refine ⟨_, render_ok_iff.2 ⟨d, hfront, hresolved, rfl⟩, ?_⟩
    exact Script.tidy_concat d.lines (l := prefetchLine threads) rfl

end Graph

end Restoration
