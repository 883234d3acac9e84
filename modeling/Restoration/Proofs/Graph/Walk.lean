import Restoration.Proofs.Graph.Completion
import Mathlib.Data.List.Basic

/-!
# Reading a script along its stages

A reader of lines that reads nothing from dependencies finds in a script what it finds stage by stage:
in the conversions ahead of each stage and in the lines of the stage itself,

    s.lines.filterMap read = along f (ofSource matrix) stages               (filterMap_render)

so whatever a script says of itself can be computed from the states that its stages meet.
-/

namespace Restoration

namespace Graph

open FormatState

variable {β : Type}

/-- What `f` says of each stage and of the state ahead of it, from stage to stage. -/
def along (f : FormatState → Stage → List β) (s : FormatState) : List Stage → List β
  | [] => []
  | stage :: rest => f s stage ++ along f (stage.leave (s.feed stage.contract)) rest

@[simp] theorem along_nil (f : FormatState → Stage → List β) (s : FormatState) : along f s [] = [] :=
  rfl

@[simp] theorem along_cons (f : FormatState → Stage → List β) (s : FormatState) (stage : Stage)
    (rest : List Stage) : along f s (stage :: rest) =
      f s stage ++ along f (stage.leave (s.feed stage.contract)) rest := rfl

theorem along_append (f : FormatState → Stage → List β) (s : FormatState) (front back : List Stage) :
    along f s (front ++ back) = along f s front ++ along f (passing s front) back := by
  induction front generalizing s with
  | nil => rfl
  | cons stage rest ih =>
    rw [List.cons_append, along_cons, along_cons, ih, passing_cons, List.append_assoc]

theorem along_eq_nil {f : FormatState → Stage → List β} {stages : List Stage}
    (h : ∀ stage ∈ stages, ∀ s, f s stage = []) (s : FormatState) : along f s stages = [] := by
  induction stages generalizing s with
  | nil => rfl
  | cons stage rest ih =>
    rw [along_cons, h stage List.mem_cons_self, List.nil_append]
    exact ih (fun st hst => h st (List.mem_cons_of_mem _ hst)) _

/-! ## Readers of lines -/

section reading

variable {read : Line → Option β} (hdependency : ∀ d, read (.dependency d) = none)

include hdependency

theorem filterMap_dependencies (ds : List Dependency) :
    (ds.map Line.dependency).filterMap read = [] := by
  rw [List.filterMap_map]
  exact List.filterMap_eq_nil_iff.2 fun d _ => hdependency d

theorem filterMap_linesOf (directory : Path) (st : Statements) :
    (linesOf directory st).filterMap read = st.lines.filterMap read := by
  have hds : st.dependencies.map (fun d => Line.dependency (d.rootedAt directory)) =
      (st.dependencies.map (·.rootedAt directory)).map .dependency := by
    rw [List.map_map]
    rfl
  rw [linesOf, hds, List.filterMap_append, filterMap_dependencies hdependency, List.nil_append]

/-- Bringing a script into order keeps everything that is read from its statements. -/
theorem filterMap_tidy (lines : List Line) :
    (Script.tidy ⟨lines⟩).lines.filterMap read = lines.filterMap read := by
  rw [Script.tidy, List.filterMap_append, filterMap_dependencies hdependency, List.nil_append,
    List.filterMap_filter]
  refine List.filterMap_congr fun l _ => ?_
  cases l with
  | dependency d => exact (hdependency d).symm
  | _ => rfl

theorem filterMap_conversionLines (setting : Setting) (cs : List Conversion) :
    (conversionLines setting cs).filterMap read =
      cs.filterMap fun c => read (.term (c.callText setting.placement)) := by
  induction cs with
  | nil => rfl
  | cons c cs ih =>
    have hcons : conversionLines setting (c :: cs) =
        linesOf setting.pluginDirectory
          { dependencies := Statements.ditherTools, lines := [.term (c.callText setting.placement)] }
        ++ conversionLines setting cs := rfl
    rw [hcons, List.filterMap_append, filterMap_linesOf hdependency, ih, List.filterMap_cons,
      List.filterMap_cons]
    cases read (.term (c.callText setting.placement)) <;> rfl

variable {setting : Setting} {g : Conversion → Option β} {f : FormatState → Stage → List β}
  (hconversion : ∀ c, read (.term (c.callText setting.placement)) = g c)

include hconversion

/-- Drawing up stages adds what is read from them. -/
theorem filterMap_foldlM_add {stages : List Stage}
    (hstage : ∀ stage ∈ stages, ∀ s st, stage.statements (s.feed stage.contract) = .ok st →
      st.lines.filterMap read = f s stage)
    {d d' : Draft} (h : d.state.Honest) (hadd : stages.foldlM (Draft.add setting) d = .ok d') :
    d'.lines.filterMap read = d.lines.filterMap read ++
      along (fun s stage => (conversionsFor s stage.contract).filterMap g ++ f s stage)
        d.state stages := by
  induction stages generalizing d with
  | nil =>
    cases hadd
    exact (List.append_nil _).symm
  | cons stage rest ih =>
    obtain ⟨st, hst, heq⟩ := Draft.add_eq setting d h stage
    rw [List.foldlM_cons, heq] at hadd
    split at hadd
    · cases hadd
    · rw [ih (fun s hs => hstage s (List.mem_cons_of_mem _ hs))
        (stage.honest_leave (honest_feed _ _)) hadd]
      simp only [along_cons, List.filterMap_append, filterMap_conversionLines hdependency,
        filterMap_linesOf hdependency, hconversion, hstage stage List.mem_cons_self d.state st hst,
        List.append_assoc]

/-- **A script reads as its stages do**, one behind the other. -/
theorem filterMap_render {matrix : ColorMatrix} {stages : List Stage}
    (hstage : ∀ stage ∈ stages, ∀ s st, stage.statements (s.feed stage.contract) = .ok st →
      st.lines.filterMap read = f s stage)
    {s : Script} (h : render setting matrix stages = .ok s) :
    s.lines.filterMap read =
      along (fun s stage => (conversionsFor s stage.contract).filterMap g ++ f s stage)
        (.ofSource matrix) stages := by
  unfold render at h
  cases hd : draft setting matrix stages with
  | error fault =>
    rw [hd] at h
    cases h
  | ok d =>
    rw [hd] at h
    simp only [bind, Except.bind, requireResolved] at h
    split at h
    · cases h
    · cases h
      rw [filterMap_tidy hdependency,
        filterMap_foldlM_add hdependency hconversion hstage (honest_ofSource matrix) hd]
      rfl

end reading

/-- What holds of dependencies, conversions and the lines of each stage holds of a whole script. -/
theorem forall_mem_render {P : Line → Prop} {setting : Setting} {matrix : ColorMatrix}
    {stages : List Stage} (hdependency : ∀ d, P (.dependency d))
    (hconversion : ∀ c : Conversion, P (.term (c.callText setting.placement)))
    (hstage : ∀ stage ∈ stages, ∀ (s : FormatState) (st : Statements),
      stage.statements (s.feed stage.contract) = .ok st → ∀ l ∈ st.lines, P l)
    {s : Script} (h : render setting matrix stages = .ok s) : ∀ l ∈ s.lines, P l := by
  classical
  have hfails : ∀ l, (if P l then none else some l) = none ↔ P l := fun l => by simp
  have hstages : ∀ stage ∈ stages, ∀ (s : FormatState) (st : Statements),
      stage.statements (s.feed stage.contract) = .ok st →
        st.lines.filterMap (fun l => if P l then none else some l) = [] :=
    fun stage hmem s st hst => List.filterMap_eq_nil_iff.2 fun l hl =>
      (hfails l).2 (hstage stage hmem s st hst l hl)
  have hread := filterMap_render (fun d => (hfails _).2 (hdependency d))
    (fun c => (hfails _).2 (hconversion c)) hstages h
  rw [along_eq_nil fun _ _ _ => by simp] at hread
  exact fun l hl => (hfails l).1 (List.filterMap_eq_nil_iff.1 hread l hl)

end Graph

end Restoration
