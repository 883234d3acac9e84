import Restoration.Proofs.Encoding.Scripts

/-!
# Watching changes nothing

Work with watched tools is the work with the tools themselves, seen together with the record. It is
enough that this holds of each tool: nothing else reads what the tools keep.

    run tools o b.unwatched = run tools.watched o b        without the record
-/

namespace Restoration

variable {σ σ' τ ε ε' α β : Type}

/-- The work `x` is what `y` does to the part of a state that is in `view`. -/
def Mirrors (view : σ → σ') (y : ExceptT ε (StateM σ) α) (x : ExceptT ε (StateM σ') α) : Prop :=
  ∀ s, x (view s) = ((y s).1, view (y s).2)

namespace Mirrors

variable {view : σ → σ'} {y : ExceptT ε (StateM σ) α} {x : ExceptT ε (StateM σ') α}

theorem pure (a : α) : Mirrors view (Pure.pure a : ExceptT ε (StateM σ) α) (Pure.pure a) :=
  fun _ => rfl

theorem throw (e : ε) : Mirrors view (throw e : ExceptT ε (StateM σ) α) (throw e) := fun _ => rfl

theorem bind {g : α → ExceptT ε (StateM σ) β} {f : α → ExceptT ε (StateM σ') β}
    (hx : Mirrors view y x) (hf : ∀ a, Mirrors view (g a) (f a)) :
    Mirrors view (y >>= g) (x >>= f) := by
  intro s
  rw [bind_run, bind_run, hx s]
  rcases hy : y s with ⟨_ | a, t⟩
  · rfl
  · exact hf a t

theorem get_bind {g : σ → ExceptT ε (StateM σ) β} {f : σ' → ExceptT ε (StateM σ') β}
    (h : ∀ s, Mirrors view (g s) (f (view s))) : Mirrors view (get >>= g) (get >>= f) := by
  intro s
  rw [bind_run, bind_run]
  exact h s s

theorem modify {g : σ → σ} {f : σ' → σ'} (h : ∀ s, f (view s) = view (g s)) :
    Mirrors view (modify g : ExceptT ε (StateM σ) PUnit) (modify f) := by
  intro s
  show (Except.ok PUnit.unit, f (view s)) = (Except.ok PUnit.unit, view (g s))
  rw [h]

theorem ite {c : Prop} [Decidable c] {y' : ExceptT ε (StateM σ) α} {x' : ExceptT ε (StateM σ') α}
    (h : Mirrors view y x) (h' : Mirrors view y' x') :
    Mirrors view (if c then y else y') (if c then x else x') := by
  split
  · exact h
  · exact h'

theorem mapM {g : α → ExceptT ε (StateM σ) β} {f : α → ExceptT ε (StateM σ') β}
    (h : ∀ a, Mirrors view (g a) (f a)) (as : List α) : Mirrors view (as.mapM g) (as.mapM f) := by
  induction as with
  | nil => exact .pure []
  | cons a rest ih =>
    rw [List.mapM_cons, List.mapM_cons]
    exact .bind (h a) fun b => .bind ih fun bs => .pure (b :: bs)

end Mirrors

/-! ## Work at a desk -/

/-- The work at a watched desk is this work. -/
abbrev Work.Mirrors (w : Work (Watched τ) ε α) (v : Work τ ε α) : Prop :=
  Restoration.Mirrors Desk.unwatched w v

namespace Work

theorem files_unwatched (d : Desk (Watched τ)) : d.unwatched.files = d.files := rfl

theorem mirrors_look (f : FileTree → Except FileFault α) (fault : FileFault → ε) :
    Mirrors (look f fault : Work (Watched τ) ε α) (look f fault) := by
  intro d
  rw [look_run, look_run, files_unwatched]
  cases f d.files <;> rfl

theorem mirrors_change (f : FileTree → Except FileFault FileTree) (fault : FileFault → ε) :
    Mirrors (change f fault : Work (Watched τ) ε Unit) (change f fault) := by
  intro d
  rw [change_run, change_run, files_unwatched]
  cases f d.files <;> rfl

theorem mirrors_files (f : FileTree → FileTree) :
    Mirrors (modify fun d => { d with files := f d.files } : Work (Watched τ) ε PUnit)
      (modify fun d => { d with files := f d.files }) := .modify fun _ => rfl

theorem mirrors_isCancelled :
    Mirrors (isCancelled : Work (Watched τ) ε Bool) isCancelled := fun _ => rfl

theorem mirrors_outcome {w : Work (Watched τ) ε α} {v : Work τ ε α} (h : Mirrors w v) :
    Mirrors (w.outcome : Work (Watched τ) ε' (Except ε α)) v.outcome := by
  intro d
  rw [outcome_run, outcome_run, h d]

theorem mirrors_named {w : Work (Watched τ) ε α} {v : Work τ ε α} (h : Mirrors w v)
    (fault : ε → ε') : Mirrors (w.named fault) (v.named fault) := by
  intro d
  rw [named_run, named_run, h d]

variable {tools : Toolbox τ}

theorem mirrors_runScript (script : Path) (o : RunOptions) :
    Mirrors (tools.watched.runScript script o) (tools.runScript script o) := fun _ => rfl

theorem mirrors_encode (script output : Path) (job : Job) (o : RunOptions) :
    Mirrors (tools.watched.encode script output job o) (tools.encode script output job o) :=
  fun _ => rfl

theorem mirrors_scriptFrames (probe side : Path) :
    Mirrors (tools.watched.scriptFrames probe side) (tools.scriptFrames probe side) := fun _ => rfl

theorem mirrors_mediaFrames (media : Path) :
    Mirrors (tools.watched.mediaFrames media) (tools.mediaFrames media) := fun _ => rfl

theorem mirrors_join (concatList output : Path) (job : Job) :
    Mirrors (tools.watched.join concatList output job) (tools.join concatList output job) :=
  fun _ => rfl

end Work

open Work

/-! ## Surveys -/

namespace Survey

theorem mirrors_prepareProbe (job : Job) :
    Work.Mirrors (prepareProbe job : Work (Watched τ) JobFault Unit) (prepareProbe job) := by
  refine .bind (mirrors_look _ _) fun text => ?_
  dsimp only
  split
  · exact .bind (mirrors_change _ _) fun _ => mirrors_change _ _
  · exact mirrors_change _ _

theorem mirrors_delete (fault : Path → FileFault → JobFault) (ps : List Path) :
    Work.Mirrors (delete fault ps : Work (Watched τ) JobFault Unit) (delete fault ps) := by
  induction ps with
  | nil => exact .pure ()
  | cons p rest ih =>
    refine .get_bind fun d => .bind (.modify fun _ => rfl) fun _ => ?_
    rw [files_unwatched]
    split
    · exact ih
    · exact .throw _

theorem mirrors_require {α : Type} (r : Except JobFault α) :
    Work.Mirrors (require r : Work (Watched τ) JobFault α) (require r) := by
  cases r with
  | ok a => exact .pure a
  | error fault => exact .throw fault

theorem mirrors_list (job : Job) :
    Work.Mirrors (Survey.list job : Work (Watched τ) JobFault Listing) (Survey.list job) := by
  refine .get_bind fun d => ?_
  dsimp only [files_unwatched]
  cases listFragments d.files job with
  | ok listing => exact .pure listing
  | error fault => exact .throw fault

theorem mirrors_survey (tools : Toolbox τ) (job : Job) :
    Work.Mirrors (job.survey tools.watched) (job.survey tools) := by
  refine .bind (mirrors_prepareProbe job) fun _ => ?_
  refine .bind (mirrors_outcome (mirrors_scriptFrames _ _)) fun count => ?_
  refine .bind (mirrors_list job) fun listing => ?_
  refine .bind (.mapM (fun (p, _) => mirrors_outcome (mirrors_mediaFrames p)) _) fun counts => ?_
  refine .bind (mirrors_require _) fun total => .ite (.pure _) ?_
  refine .bind mirrors_isCancelled fun raised => .ite (.pure _) ?_
  refine .bind (mirrors_delete _ _) fun _ => .bind (mirrors_require _) fun fragments =>
    .bind (mirrors_require _) fun layout => ?_
  exact .bind (mirrors_delete _ _) fun _ => .pure _

end Survey

/-! ## Encodings -/

/-- The bench with an empty record. -/
def Bench.watched (b : Bench τ) : Bench (Watched τ) := ⟨b.job, b.desk.watched⟩

/-- The bench without its record. -/
def Bench.unwatched (b : Bench (Watched τ)) : Bench τ := ⟨b.job, b.desk.unwatched⟩

namespace Encoding

variable {tools : Toolbox τ} {o : EncodingOptions}

/-- The work at a watched bench is this work. -/
abbrev Mirrors (w : Encoding (Watched τ) α) (v : Encoding τ α) : Prop :=
  Restoration.Mirrors Bench.unwatched w v

theorem mirrors_onDesk {w : Work (Watched τ) JobFault α} {v : Work τ JobFault α}
    (h : Work.Mirrors w v) : Mirrors (onDesk w) (onDesk v) := by
  intro b
  change ((v b.desk.unwatched).1, (⟨b.job, (v b.desk.unwatched).2⟩ : Bench τ)) = _
  rw [h b.desk]
  rfl

theorem mirrors_theJob : Mirrors (theJob : Encoding (Watched τ) Job) theJob := fun _ => rfl

theorem mirrors_update (f : Job → Job) :
    Mirrors (update f : Encoding (Watched τ) Unit) (update f) := fun _ => rfl

theorem mirrors_isCancelled : Mirrors (isCancelled : Encoding (Watched τ) Bool) isCancelled :=
  fun _ => rfl

theorem mirrors_saveAs (status : JobStatus) :
    Mirrors (saveAs status : Encoding (Watched τ) Unit) (saveAs status) := by
  intro b
  rw [saveAs_run, saveAs_run, save_run, save_run]
  dsimp only [Bench.unwatched, Desk.unwatched, Desk.withTools]
  cases ({ b.job with status := status } : Job).store b.desk.files <;> rfl

theorem mirrors_made (r : Except ScriptFault Script) :
    Work.Mirrors (made r : Work (Watched τ) JobFault Script) (made r) := by
  cases r with
  | ok s => exact .pure s
  | error fault => exact .throw _

theorem mirrors_write (s : Script) (p : Path) :
    Work.Mirrors (write s p : Work (Watched τ) JobFault Unit) (write s p) := mirrors_change _ _

theorem mirrors_prepareScripts (job : Job) :
    Work.Mirrors (prepareScripts tools.watched o job) (prepareScripts tools o job) := by
  rw [prepareScripts_eq, prepareScripts_eq]
  refine .bind (.get_bind fun d => .ite ?_ (.pure ())) fun _ => ?_
  · refine .bind (mirrors_made _) fun s => .bind (mirrors_write s _) fun _ => ?_
    exact mirrors_named (mirrors_runScript _ _) _
  · refine .get_bind fun d => .ite ?_ (.pure ())
    exact .bind (mirrors_made _) fun s => mirrors_write s _

theorem mirrors_encodeAll (job : Job) (base : Script) (chunks : List FrameRange) :
    Work.Mirrors (encodeAll tools.watched o job base chunks) (encodeAll tools o job base chunks) := by
  induction chunks with
  | nil => exact .pure []
  | cons c rest ih =>
    refine .bind Work.mirrors_isCancelled fun raised => .ite (.pure []) ?_
    refine .bind (.bind (mirrors_write _ _) fun _ => ?_) fun r => .bind ih fun rs => .pure _
    exact .bind (mirrors_outcome (mirrors_encode _ _ _ _)) fun r => .pure _

theorem mirrors_encodeChunks (p : Progress) :
    Mirrors (encodeChunks tools.watched o p) (encodeChunks tools o p) := by
  refine .bind mirrors_theJob fun job => ?_
  refine .bind (mirrors_onDesk (mirrors_look _ _)) fun text => ?_
  refine .bind (mirrors_onDesk (.modify fun _ => rfl)) fun _ => ?_
  refine .bind (mirrors_onDesk (mirrors_encodeAll _ _ _)) fun rs => .get_bind fun b => ?_
  refine .bind (mirrors_update _) fun _ => .bind (mirrors_onDesk (.modify fun _ => rfl)) fun _ => ?_
  exact .pure _

theorem mirrors_finish (p : Progress) : Mirrors (finish tools.watched o p) (finish tools o p) := by
  refine .bind mirrors_theJob fun job => ?_
  refine .bind (mirrors_onDesk (mirrors_change _ _)) fun _ => ?_
  refine .bind (mirrors_onDesk (mirrors_named (mirrors_join _ _ _) _)) fun _ => ?_
  refine .bind (mirrors_saveAs _) fun _ => .ite ?_ (.pure _)
  refine .bind (mirrors_onDesk (mirrors_files
    fun t => (removeIntermediates job p.fragments t).removeAll [job.path .record])) fun _ => .pure _

theorem mirrors_stop : Mirrors (stop : Encoding (Watched τ) EncodingReport) stop :=
  .bind (mirrors_saveAs _) fun _ => .pure _

theorem mirrors_run : Mirrors (run tools.watched o) (run tools o) := by
  refine .bind mirrors_theJob fun job => ?_
  refine .bind (mirrors_onDesk (mirrors_change _ _)) fun _ => .bind (mirrors_saveAs _) fun _ => ?_
  refine .bind mirrors_theJob fun job => ?_
  refine .bind (mirrors_onDesk (mirrors_prepareScripts job)) fun _ => ?_
  refine .bind mirrors_theJob fun job => .bind (mirrors_onDesk (Survey.mirrors_survey _ _)) fun p => ?_
  refine .bind mirrors_isCancelled fun raised => .ite mirrors_stop ?_
  dsimp only
  refine .ite (.bind (mirrors_saveAs _) fun _ => .bind mirrors_theJob fun job => fun _ => rfl) ?_
  rw [bind_ite, bind_ite]
  refine .bind (.ite (.pure 0) (mirrors_encodeChunks p)) fun failures => ?_
  refine .bind mirrors_isCancelled fun raised => .ite mirrors_stop ?_
  refine .bind mirrors_theJob fun job => .bind (mirrors_onDesk (Survey.mirrors_survey _ _)) fun p => ?_
  refine .bind mirrors_isCancelled fun raised => .ite mirrors_stop ?_
  refine .bind (mirrors_update _) fun _ => .ite (.bind (mirrors_saveAs _) fun _ => .pure _) ?_
  exact .bind (mirrors_finish p) fun output => .pure _

/-- **Watching changes nothing**: the run is the same. -/
theorem run_watched (tools : Toolbox τ) (o : EncodingOptions) (b : Bench τ) :
    run tools o b =
      ((run tools.watched o b.watched).1, (run tools.watched o b.watched).2.unwatched) :=
  mirrors_run b.watched

end Encoding

end Restoration
