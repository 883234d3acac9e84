import Mathlib.Algebra.Ring.Nat
import Restoration.Proofs.Graph.Contents
import Restoration.Proofs.Script.Call

/-!
# Scripts for one processor or the other

Whether filters may use the graphics processor is written into the lines of the denoiser and of
motion interpolation, and nowhere else. For the main processor each such line has one letter more of
those that tell the two apart, the `C` of `"CPU"` or the `l` of `false`:

    tells (text for the main processor) = tells (text for the graphics processor) + lines that say it

so the two scripts are the same exactly if no such line is there.
-/

namespace Restoration

open Statements

/-- Does the letter tell the main processor from the graphics processor? -/
def isTelltale (c : Char) : Bool := c == 'C' || c == 'l'

/-- How many letters tell that a text is made for the main processor. -/
def tells (s : String) : Nat := s.toList.countP isTelltale

@[simp] theorem tells_append (s t : String) : tells (s ++ t) = tells s + tells t := by
  rw [tells, String.toList_append, List.countP_append]
  rfl

/-- Calls have as many as their names and arguments. -/
theorem tells_call (f : String) (as : List String) :
    tells (call f as) = tells f + (as.map tells).sum := by
  have hseparated : ∀ bs : List (List Char),
      ([',', ' '].intercalate bs).countP isTelltale = (bs.map (List.countP isTelltale)).sum := by
    intro bs
    induction bs with
    | nil => rfl
    | cons b bs ih =>
      cases bs with
      | nil => simp
      | cons c bs =>
        rw [List.intercalate_cons_cons, List.countP_append, List.countP_append, ih]
        rfl
  rw [tells, toList_call, List.countP_append, List.countP_cons, List.countP_append,
    hseparated, List.map_map]
  rfl

namespace Stage

/-- The stage for the graphics processor or without it. -/
def onGpu (gpu : Bool) : Stage → Stage
  | denoise options _ fullChroma => denoise options gpu fullChroma
  | interpolate rate threads _ => interpolate rate threads gpu
  | stage => stage

/-- Does the stage say which processor it uses? -/
def saysGpu : Stage → Bool
  | denoise .. | interpolate .. => true
  | _ => false

@[simp] theorem contract_onGpu (gpu : Bool) (stage : Stage) :
    (stage.onGpu gpu).contract = stage.contract := by
  cases stage <;> rfl

@[simp] theorem leave_onGpu (gpu : Bool) (stage : Stage) (s : FormatState) :
    (stage.onGpu gpu).leave s = stage.leave s := by
  cases stage <;> rfl

theorem onGpu_of_not_saysGpu {stage : Stage} (h : stage.saysGpu = false) (gpu : Bool) :
    stage.onGpu gpu = stage := by
  cases stage <;> first | rfl | cases h

end Stage

namespace Graph

open FormatState

/-! ## Lines -/

/-- The telltale letters of the lines that are no dependencies. -/
def tellsOf (lines : List Line) : Nat :=
  ((lines.filter (!·.isDependency)).map fun l => tells l.text).sum

/-- The second lines have the dependencies of the first, and `n` telltale letters more. -/
structure Trails (n : Nat) (a b : List Line) : Prop where
  dependencies : b.filterMap Script.dependency? = a.filterMap Script.dependency?
  tells : tellsOf b = tellsOf a + n

namespace Trails

variable {n m : Nat} {a a' b b' : List Line}

theorem refl (a : List Line) : Trails 0 a a := ⟨rfl, rfl⟩

theorem append (h : Trails n a b) (h' : Trails m a' b') : Trails (n + m) (a ++ a') (b ++ b') where
  dependencies := by
    rw [List.filterMap_append, List.filterMap_append, h.dependencies, h'.dependencies]
  tells := by
    have hn := h.tells
    have hm := h'.tells
    simp only [tellsOf, List.filter_append, List.map_append, List.sum_append] at hn hm ⊢
    omega

/-- The letters of a whole script. -/
theorem tells_text (s : Script) : Restoration.tells s.text = (s.lines.map fun l => Restoration.tells l.text).sum := by
  rw [Restoration.tells, Script.text, String.toList_ofList, List.countP_flatMap]
  refine congrArg List.sum (List.map_congr_left fun l _ => ?_)
  rw [Function.comp_apply, List.countP_append]
  rfl

theorem tidy (h : Trails n a b) :
    Restoration.tells (Script.tidy ⟨b⟩).text = Restoration.tells (Script.tidy ⟨a⟩).text + n := by
  have hn := h.tells
  simp only [tellsOf] at hn
  simp only [tells_text, Script.tidy, h.dependencies, List.map_append, List.sum_append]
  omega

end Trails

/-! ## Stages -/

/-- Without the graphics processor a stage that says so has one telltale letter more. -/
theorem trails_onGpu {stage : Stage} {s : FormatState} {st st' : Statements}
    (h : (stage.onGpu true).statements s = .ok st) (h' : (stage.onGpu false).statements s = .ok st') :
    st'.dependencies = st.dependencies ∧
      Trails (if stage.saysGpu then 1 else 0) st.lines st'.lines := by
  cases stage with
  | denoise options gpu full =>
    cases h
    cases h'
    refine ⟨rfl, rfl, ?_⟩
    show tellsOf _ = tellsOf _ + 1
    have hdevice : Restoration.tells (quoted "CPU") = Restoration.tells (quoted "GPU") + 1 := by decide
    simp [tellsOf, Denoising.statements, Line.isDependency, Line.text, tells_call, hdevice]
    omega
  | interpolate rate threads gpu =>
    cases h
    cases h'
    refine ⟨rfl, rfl, ?_⟩
    show tellsOf _ = tellsOf _ + 1
    have hflag : Restoration.tells (flag false) = Restoration.tells (flag true) + 1 := by decide
    simp [tellsOf, InterpolatedRate.statements, Line.isDependency, Line.text, tells_call, hflag]
    omega
  | _ =>
    cases h.symm.trans h'
    exact ⟨rfl, .refl _⟩

theorem Trails.linesOf {n : Nat} {st st' : Statements} (directory : Path)
    (hdependencies : st'.dependencies = st.dependencies) (h : Trails n st.lines st'.lines) :
    Trails n (Graph.linesOf directory st) (Graph.linesOf directory st') := by
  have happend := (Trails.refl (st.dependencies.map fun d => .dependency (d.rootedAt directory))).append h
  rw [Nat.zero_add] at happend
  rw [Graph.linesOf, Graph.linesOf, hdependencies]
  exact happend

section

variable {setting : Setting} {matrix : ColorMatrix} {d d' u u' : Draft} {n : Nat}

/-- One stage keeps two drafts in step. -/
theorem trails_add {stage : Stage} (hstate : d'.state = d.state) (hhonest : d.state.Honest)
    (hd : Trails n d.lines d'.lines) (h : d.add setting (stage.onGpu true) = .ok u)
    (h' : d'.add setting (stage.onGpu false) = .ok u') :
    u'.state = u.state ∧ u.state.Honest ∧
      Trails (n + if stage.saysGpu then 1 else 0) u.lines u'.lines := by
  obtain ⟨st, hst, rfl⟩ := Draft.eq_of_add hhonest h
  obtain ⟨st', hst', rfl⟩ := Draft.eq_of_add (hstate ▸ hhonest) h'
  simp only [Stage.contract_onGpu, Stage.leave_onGpu, hstate] at hst hst' ⊢
  refine ⟨trivial, stage.honest_leave (honest_feed _ _), ?_⟩
  obtain ⟨hdependencies, htrails⟩ := trails_onGpu hst hst'
  have hlines := htrails.linesOf setting.pluginDirectory hdependencies
  have hboth := hd.append ((Trails.refl (conversionLines setting
    (conversionsFor d.state stage.contract))).append hlines)
  rwa [Nat.zero_add] at hboth

/-- **Stage by stage**, the two drafts stay in step. -/
theorem trails_foldlM {stages : List Stage} (hstate : d'.state = d.state) (hhonest : d.state.Honest)
    (hd : Trails n d.lines d'.lines)
    (h : (stages.map (Stage.onGpu true)).foldlM (Draft.add setting) d = .ok u)
    (h' : (stages.map (Stage.onGpu false)).foldlM (Draft.add setting) d' = .ok u') :
    Trails (n + stages.countP Stage.saysGpu) u.lines u'.lines := by
  induction stages generalizing n d d' with
  | nil =>
    cases h
    cases h'
    exact hd
  | cons stage rest ih =>
    rw [List.map_cons, List.foldlM_cons] at h h'
    cases hadd : d.add setting (stage.onGpu true) with
    | error fault =>
      rw [hadd] at h
      cases h
    | ok d₁ =>
      cases hadd' : d'.add setting (stage.onGpu false) with
      | error fault =>
        rw [hadd'] at h'
        cases h'
      | ok d₁' =>
        rw [hadd] at h
        rw [hadd'] at h'
        obtain ⟨hstate₁, hhonest₁, hd₁⟩ := trails_add hstate hhonest hd hadd hadd'
        have hrest := ih hstate₁ hhonest₁ hd₁ h h'
        rwa [List.countP_cons, Nat.add_comm (rest.countP _), ← Nat.add_assoc]

theorem tells_render {stages : List Stage} {s s' : Script}
    (h : render setting matrix (stages.map (Stage.onGpu true)) = .ok s)
    (h' : render setting matrix (stages.map (Stage.onGpu false)) = .ok s') :
    Restoration.tells s'.text = Restoration.tells s.text + stages.countP Stage.saysGpu := by
  obtain ⟨u, hu, -, rfl⟩ := render_ok_iff.1 h
  obtain ⟨u', hu', -, rfl⟩ := render_ok_iff.1 h'
  have htrails := trails_foldlM rfl (honest_ofSource matrix) (.refl []) hu hu'
  rw [Nat.zero_add] at htrails
  exact htrails.tidy

end

end Graph

/-! ## Plans -/

namespace Job

/-- Does a filter of the job ask which processor to use? -/
def asksGpu (j : Job) : Bool := j.denoising.isSome || j.interpolation.isSome

theorem map_onGpu_of_not_saysGpu {stages : List Stage} (h : stages.any Stage.saysGpu = false)
    (gpu : Bool) : stages.map (Stage.onGpu gpu) = stages := by
  conv => rhs; rw [← List.map_id stages]
  refine List.map_congr_left fun stage hstage => ?_
  exact Stage.onGpu_of_not_saysGpu (by simpa using List.any_eq_false.1 h stage hstage) gpu

variable (j : Job) (e : Engine) (gpu : Bool)

theorem opening_any_saysGpu (preview : Bool) : (j.opening preview).any Stage.saysGpu = false := by
  refine List.any_eq_false.2 fun stage h => ?_
  rcases mem_opening h with ⟨_, rfl⟩ | ⟨_, rfl⟩ | ⟨_, rfl⟩ <;> simp [Stage.saysGpu]

theorem resizing_any_saysGpu : j.resizing?.toList.any Stage.saysGpu = false := by
  unfold resizing?
  split
  · split <;> rfl
  · rfl

theorem motion_onGpu : j.motion { e with gpu := gpu } = (j.motion e).map (Stage.onGpu gpu) := by
  unfold motion
  cases j.degraining <;> cases j.stabilization <;> cases j.interpolation <;> rfl

theorem enlarging_onGpu :
    j.enlarging { e with gpu := gpu } = (j.enlarging e).map (Stage.onGpu gpu) := by
  have hpass : ∀ last, (j.doubling e last).onGpu gpu = j.doubling e last := fun _ => rfl
  have hpass' : ∀ last, j.doubling { e with gpu := gpu } last = j.doubling e last := fun _ => rfl
  unfold enlarging
  rcases j.upscaleFactor.toNat with _ | _ | n <;>
    simp [motion_onGpu, hpass, hpass']

theorem picture_onGpu : j.picture { e with gpu := gpu } = (j.picture e).map (Stage.onGpu gpu) := by
  have hresize := map_onGpu_of_not_saysGpu (resizing_any_saysGpu j) gpu
  unfold picture
  rw [enlarging_onGpu]
  cases j.sourceCrop? <;> cases j.denoising <;> cases j.dering <;> cases j.finalCrop? <;>
    simp [Stage.onGpu, hresize]

/-- The plans for the two processors differ in the stages that say which one they use. -/
theorem stages_onGpu : j.stages { e with gpu := gpu } = (j.stages e).map (Stage.onGpu gpu) := by
  have hopening := map_onGpu_of_not_saysGpu (opening_any_saysGpu j e.preview) gpu
  rw [stages_eq, stages_eq, front, front, correction_eq, correction_eq, picture_onGpu]
  unfold back
  simp only [List.map_append, List.map_cons, hopening]
  split <;> split <;> split <;> rfl

theorem enlarging_any_saysGpu : (j.enlarging e).any Stage.saysGpu = j.interpolation.isSome := by
  have hpass : ∀ last, (j.doubling e last).saysGpu = false := fun _ => rfl
  have hmotion : (j.motion e).any Stage.saysGpu = j.interpolation.isSome := by
    unfold motion
    cases j.degraining <;> cases j.stabilization <;> cases j.interpolation <;> rfl
  unfold enlarging
  rcases j.upscaleFactor.toNat with _ | _ | n <;> simp [hmotion, hpass]

theorem any_saysGpu_stages : (j.stages e).any Stage.saysGpu = j.asksGpu := by
  have hpicture : (j.picture e).any Stage.saysGpu = j.asksGpu := by
    unfold picture asksGpu
    simp only [List.any_append, enlarging_any_saysGpu, resizing_any_saysGpu]
    cases j.sourceCrop? <;> cases j.denoising <;> cases j.dering <;> cases j.finalCrop? <;>
      simp [Stage.saysGpu]
  rw [stages_eq, front, correction_eq]
  unfold back
  simp only [List.any_append, List.any_cons, opening_any_saysGpu, hpicture]
  split <;> split <;> split <;> simp [Stage.saysGpu]

/-- The letters of the texts for the two processors. -/
theorem tells_compile {s s' : Script} (h : j.compile { e with gpu := true } = .ok s)
    (h' : j.compile { e with gpu := false } = .ok s') :
    tells s'.text = tells s.text + (j.stages e).countP Stage.saysGpu := by
  have hrender := render_of_compile h
  have hrender' := render_of_compile h'
  rw [render, stages_onGpu] at hrender hrender'
  exact Graph.tells_render hrender hrender'

/-- **The processor shows in the script** exactly if the job denoises or interpolates. -/
theorem compile_text_eq_iff {g g' : Bool} {s s' : Script}
    (h : j.compile { e with gpu := g } = .ok s) (h' : j.compile { e with gpu := g' } = .ok s') :
    s.text = s'.text ↔ g = g' ∨ j.asksGpu = false := by
  constructor
  · -- one of the texts would have more letters
    intro htext
    by_contra hno
    rw [not_or, Bool.not_eq_false, ← any_saysGpu_stages j e] at hno
    have hcount : 0 < (j.stages e).countP Stage.saysGpu :=
      List.countP_pos_iff.2 (List.any_eq_true.1 hno.2)
    cases g <;> cases g'
    · exact hno.1 rfl
    · have := tells_compile j e h' h
      rw [htext] at this
      omega
    · have := tells_compile j e h h'
      rw [htext] at this
      omega
    · exact hno.1 rfl
  · rintro (rfl | hasks)
    · cases h.symm.trans h'
      rfl
    · rw [← any_saysGpu_stages j e] at hasks
      have hplan : ∀ gpu, j.stages { e with gpu := gpu } = j.stages e := fun gpu => by
        rw [stages_onGpu, map_onGpu_of_not_saysGpu hasks]
      have hrender := render_of_compile h
      have hrender' := render_of_compile h'
      rw [render, hplan] at hrender hrender'
      cases hrender.symm.trans hrender'
      rfl

end Job

end Restoration
