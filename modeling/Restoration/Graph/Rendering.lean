import Restoration.Graph.Plan

/-!
# Rendering

A list of stages becomes a script by following the state of the graph: ahead of each stage stand
the conversions that it needs, and at the output nothing may be left to convert.

    compile j e = render (stages j e)        if the frame sizes of j fit in 32 bits
-/

namespace Restoration

namespace Graph

/-- A script in the making, and the state of the graph at its end. -/
structure Draft where
  lines : List Line := []
  state : FormatState

/-- The lines of some statements, with their dependencies looked up in `directory`. -/
def linesOf (directory : Path) (s : Statements) : List Line :=
  (s.dependencies.map fun d => .dependency (d.rootedAt directory)) ++ s.lines

/-- What rendering takes from the job and the engine. -/
structure Setting where
  pluginDirectory : Path
  placement : ChromaPlacement

/-- The draft with one more conversion. -/
def Draft.convert (setting : Setting) (d : Draft) (c : Conversion) : Except FormatFault Draft := do
  let statements ← c.statements setting.placement d.state
  let state ← d.state.apply c
  pure ⟨d.lines ++ linesOf setting.pluginDirectory statements, state⟩

/-- Refuses a state that leaves something to convert. -/
def requireResolved (s : FormatState) : Except FormatFault Unit :=
  if s.isResolved then .ok () else .error (.unresolved s.samples s.pendingMatrix.isSome)

/-- The draft with one more stage, behind the conversions that it needs. -/
def Draft.add (setting : Setting) (d : Draft) (stage : Stage) : Except FormatFault Draft := do
  let requirement := d.state.requirementFor stage.contract
  let d ← (d.state.transitionsTo requirement).foldlM (Draft.convert setting) d
  d.state.require stage.name requirement
  if stage = .output then requireResolved d.state
  let statements ← stage.statements d.state
  pure ⟨d.lines ++ linesOf setting.pluginDirectory statements, stage.leave d.state⟩

/-- The draft of a list of stages, for a source with the given colour matrix. -/
def draft (setting : Setting) (matrix : ColorMatrix) (stages : List Stage) :
    Except FormatFault Draft :=
  stages.foldlM (Draft.add setting) { state := .ofSource matrix }

/-- The script of a list of stages. -/
def render (setting : Setting) (matrix : ColorMatrix) (stages : List Stage) :
    Except FormatFault Script := do
  let d ← draft setting matrix stages
  requireResolved d.state
  pure (Script.tidy ⟨d.lines⟩)

/-- What rendering takes from this job and engine. -/
def settingOf (j : Job) (engine : Engine) : Setting :=
  ⟨engine.pluginDirectory, j.traits.chromaPlacement⟩

end Graph

namespace Job

/-- The script of a list of stages, made for this job. -/
def render (j : Job) (engine : Engine) (stages : List Stage) : Except FormatFault Script :=
  Graph.render (Graph.settingOf j engine) j.traits.colorMatrix stages

/-- The script of the job. -/
def compile (j : Job) (engine : Engine) : Except ScriptFault Script := do
  let stages ← j.plan engine
  (j.render engine stages).mapError .format

/-- The script that writes the motion log. The colour matrix does not matter to it. -/
def compileMotion (j : Job) (engine : Engine) : Except ScriptFault Script :=
  (Graph.render (Graph.settingOf j engine) .rec709 j.motionPlan).mapError .format

theorem compile_eq (j : Job) (engine : Engine) : j.compile engine =
    if j.sizesFit then (j.render engine (j.stages engine)).mapError .format
    else .error .sizeOverflow := by
  rw [compile, plan]
  split <;> rfl

end Job

end Restoration
