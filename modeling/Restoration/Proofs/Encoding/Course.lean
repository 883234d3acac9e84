import Restoration.Proofs.Encoding.Scripts

/-!
# The course of an encoding

An encoding halts with an error, by being stopped or with frames missing, or it takes all steps up
to the joining of the fragments. Only the last step joins anything, so whatever a halted encoding
did is told by its other tools:

    run tools o b = (r, b')  →  Halts Q b r b' ∨ Concludes tools o b r b'
-/

namespace Restoration

open Work

namespace Encoding

variable {τ α β : Type} {Q : τ → τ → Prop} {tools : Toolbox τ} {o : EncodingOptions}

/-- What the tools keep is so related; the job, the files and the flag may be any. -/
def OnBench (Q : τ → τ → Prop) (b b' : Bench τ) : Prop := OnTools Q b.desk b'.desk

theorem steady_onBench (hQ : Steady Q) : Steady (OnBench Q) where
  refl b := hQ.refl b.desk.tools
  trans h h' := hQ.trans h h'

/-- The encoding ended otherwise than by a finished file. -/
structure Halts (Q : τ → τ → Prop) (b : Bench τ) (r : Except JobFault EncodingReport)
    (b' : Bench τ) : Prop where
  kept : OnBench Q b b'
  ne_complete : ∀ output frames, r ≠ .ok (.complete output frames)

/-! ## Steps that join nothing -/

/-- Two scripts are written at most when scripts are prepared, and the first pass is run at most. -/
theorem always_prepareScripts {R : Desk τ → Desk τ → Prop} (hR : Steady R) (job : Job)
    (hwrite : ∀ f, f = .motionScript ∨ f = .script → ∀ s (d : Desk τ) t,
      d.files.write (job.path f) s = .ok t → R d { d with files := t })
    (hrun : Always R (tools.runScript (job.path .motionScript).forEngine o.run)) :
    Always R (prepareScripts tools o job) := by
  have hmade : ∀ s, Always R (made s : Work τ JobFault Script) := by
    intro s
    cases s with
    | ok s => exact .pure hR s
    | error fault => exact .throw hR _
  have hchange : ∀ f, f = .motionScript ∨ f = .script → ∀ s : Script,
      Always R (write s (job.path f) : Work τ JobFault Unit) :=
    fun f hf s => always_change hR _ fun d t => hwrite f hf s.text d t
  rw [prepareScripts_eq]
  refine .bind hR (.bind hR (.get hR) fun d => .ite ?_ (.pure hR ())) fun _ => ?_
  · refine .bind hR (hmade _) fun s => .bind hR (hchange _ (.inl rfl) s) fun _ => ?_
    exact always_named hrun _
  · refine .bind hR (.get hR) fun d => .ite ?_ (.pure hR ())
    exact .bind hR (hmade _) fun s => hchange _ (.inr rfl) s

/-- One chunk after the other, the flag is looked at, a script is written and an encoder is run. -/
theorem always_encodeAll {R : Desk τ → Desk τ → Prop} (hR : Steady R) (job : Job)
    (hlook : ∀ d, R d d.looked)
    (hwrite : ∀ p s (d : Desk τ) t, d.files.write p s = .ok t → R d { d with files := t })
    (hencode : ∀ script output, Always R (tools.encode script output job o.run))
    (base : Script) (chunks : List FrameRange) : Always R (encodeAll tools o job base chunks) := by
  induction chunks with
  | nil => exact .pure hR []
  | cons c rest ih =>
    refine .bind hR (fun d => ?_) fun raised => .ite (.pure hR []) ?_
    · rw [isCancelled_run]
      exact hlook d
    refine .bind hR (.bind hR (always_change hR _ fun d t => hwrite _ _ d t) fun _ => ?_) fun r => ?_
    · exact .bind hR (always_outcome (hencode _ _)) fun r => .pure hR _
    · exact .bind hR ih fun rs => .pure hR _

section Keeping

variable (hQ : Steady Q)

include hQ

theorem always_saveAs (status : JobStatus) : Always (OnBench Q) (saveAs status : Encoding τ Unit) := by
  intro b
  rw [saveAs_run, save_run]
  split <;> exact hQ.refl b.desk.tools

theorem always_encodeChunks
    (hencode : ∀ script output job o, Always (OnTools Q) (tools.encode script output job o))
    (p : Progress) : Always (OnBench Q) (encodeChunks tools o p) := by
  have hR := steady_onBench hQ
  refine .bind hR (fun b => hQ.refl b.desk.tools) fun job => ?_
  refine .bind hR (always_onDesk (always_look hQ.onTools _ _)) fun text => ?_
  refine .bind hR (fun b => hQ.refl b.desk.tools) fun _ => ?_
  refine .bind hR (always_onDesk (always_encodeAll hQ.onTools job (fun d => hQ.refl d.tools)
    (fun _ _ d _ _ => hQ.refl d.tools) (fun _ _ => hencode _ _ _ _) _ _)) fun rs => ?_
  refine .bind hR (.get hR) fun b => .bind hR (fun b => hQ.refl b.desk.tools) fun _ => ?_
  exact .bind hR (fun b => hQ.refl b.desk.tools) fun _ => .pure hR _

end Keeping

/-! ## All steps -/

/-- The steps of an encoding that comes to joining fragments. -/
inductive Concludes (tools : Toolbox τ) (o : EncodingOptions) (b : Bench τ)
    (r : Except JobFault EncodingReport) (b' : Bench τ) : Prop where
  | intro {job : Job} {d₀ d₁ d₂ d₄ : Desk τ} {b₃ : Bench τ} {p₁ p₂ : Progress} {failures : Nat}
      {rf : Except JobFault Path}
      (running : job = { b.job with status := .running })
      (filed : d₀ = { b.desk with files := d₀.files })
      (made : ∃ t, b.desk.files.makeFolders job.directory = .ok t ∧ job.store t = .ok d₀.files)
      (prepared : prepareScripts tools o job d₀ = (.ok (), d₁))
      (first : job.survey tools d₁ = (.ok p₁, d₂))
      (known : 0 < p₁.totalFrames)
      (encoded : (if p₁.left.isEmpty then pure 0 else encodeChunks tools o p₁) ⟨job, d₂.looked⟩ =
        (.ok failures, b₃))
      (second : b₃.job.survey tools b₃.desk.looked = (.ok p₂, d₄))
      (waved : d₄.isRaised = false)
      (complete : p₂.isComplete = true)
      (finished : finish tools o p₂
        ⟨{ b₃.job with resumePosition := p₂.resumePosition }, d₄.looked⟩ = (rf, b'))
      (reported : r = rf.map fun output => .complete output p₂.totalFrames) :
      Concludes tools o b r b'

variable {b s b' : Bench τ} {r : Except JobFault EncodingReport}

theorem Halts.of_error {fault : JobFault} (h : OnBench Q b b') :
    Halts Q b (.error fault : Except JobFault EncodingReport) b' :=
  ⟨h, fun _ _ heq => by cases heq⟩

/-- A step that joins nothing either halts the encoding or leads on. -/
theorem halts_or {C : Prop} {x : Encoding τ α} {f : α → Encoding τ EncodingReport} (hQ : Steady Q)
    (hx : Always (OnBench Q) x) (h : (x >>= f) s = (r, b')) (hs : OnBench Q b s)
    (next : ∀ a u, x s = (.ok a, u) → OnBench Q b u → f a u = (r, b') → Halts Q b r b' ∨ C) :
    Halts Q b r b' ∨ C := by
  rcases bind_cases h with ⟨fault, hstep, rfl⟩ | ⟨a, u, hstep, hrest⟩
  · exact .inl (.of_error ((steady_onBench hQ).trans hs (hx.apply hstep)))
  · exact next a u hstep ((steady_onBench hQ).trans hs (hx.apply hstep)) hrest

/-- Work whose report is not of a finished file halts the encoding. -/
theorem halts_of_saveAs {status : JobStatus} {report : EncodingReport} (hQ : Steady Q)
    (hreport : ∀ output frames, report ≠ .complete output frames)
    (h : (saveAs status >>= fun _ => pure report) s = (r, b')) (hs : OnBench Q b s) :
    Halts Q b r b' := by
  have := halts_or (C := False) hQ (always_saveAs hQ status) h hs fun _ u _ hu hrest => by
    cases hrest
    exact .inl ⟨hu, fun output frames heq => hreport output frames (Except.ok.inj heq)⟩
  exact this.resolve_right id

theorem halts_of_stop (hQ : Steady Q) (h : stop s = (r, b')) (hs : OnBench Q b s) :
    Halts Q b r b' := by
  unfold stop at h
  exact halts_of_saveAs hQ (by simp) h hs

theorem halts_of_leaveIncomplete {p : Progress} {failures : Nat} (hQ : Steady Q)
    (h : leaveIncomplete p failures s = (r, b')) (hs : OnBench Q b s) : Halts Q b r b' := by
  unfold leaveIncomplete at h
  exact halts_of_saveAs hQ (by simp) h hs

/-- **An encoding halts or comes to joining fragments.** -/
theorem run_cases (hQ : Steady Q)
    (hrun : ∀ script o, Always (OnTools Q) (tools.runScript script o))
    (hencode : ∀ script output job o, Always (OnTools Q) (tools.encode script output job o))
    (hcount : ∀ probe side, Always (OnTools Q) (tools.scriptFrames probe side))
    (hmeasure : ∀ media, Always (OnTools Q) (tools.mediaFrames media))
    (h : run tools o b = (r, b')) : Halts Q b r b' ∨ Concludes tools o b r b' := by
  have hR := steady_onBench hQ
  have hsurvey := Survey.always_survey hQ hcount hmeasure
  have hlook : Always (OnBench Q) (isCancelled : Encoding τ Bool) := fun b => hQ.refl b.desk.tools
  have hjob : Always (OnBench Q) (theJob : Encoding τ Job) := fun b => hQ.refl b.desk.tools
  have hupdate : ∀ f, Always (OnBench Q) (update f : Encoding τ Unit) :=
    fun f b => hQ.refl b.desk.tools
  refine halts_or hQ hjob h (hR.refl b) fun directory b₁ h₁ hb₁ h => ?_
  refine halts_or hQ (always_onDesk (always_change hQ.onTools _ fun d _ _ => hQ.refl d.tools)) h hb₁
    fun _ b₂ h₂ hb₂ h => ?_
  refine halts_or hQ (always_saveAs hQ _) h hb₂ fun _ b₃ h₃ hb₃ h => ?_
  refine halts_or hQ hjob h hb₃ fun _ b₄ h₄ hb₄ h => ?_
  refine halts_or hQ (always_onDesk (always_prepareScripts hQ.onTools _
      (fun _ _ _ d _ _ => hQ.refl d.tools) (hrun _ _))) h hb₄ fun _ b₅ h₅ hb₅ h => ?_
  refine halts_or hQ hjob h hb₅ fun _ b₆ h₆ hb₆ h => ?_
  refine halts_or hQ (always_onDesk (hsurvey _)) h hb₆ fun p₁ b₇ h₇ hb₇ h => ?_
  refine halts_or hQ hlook h hb₇ fun raised b₈ h₈ hb₈ h => ?_
  split at h
  · exact .inl (halts_of_stop hQ h hb₈)
  rename_i hraised
  dsimp only at h
  split at h
  · refine halts_or hQ (always_saveAs hQ _) h hb₈ fun _ b₉ h₉ hb₉ h => ?_
    refine halts_or hQ hjob h hb₉ fun _ b₁₀ h₁₀ hb₁₀ h => ?_
    exact halts_or hQ (.throw hR _) h hb₁₀ fun _ _ hthrow => by cases hthrow
  rename_i hknown
  rw [bind_ite] at h
  have hencodeChunks : Always (OnBench Q)
      (if p₁.left.isEmpty then pure 0 else encodeChunks tools o p₁ : Encoding τ Nat) :=
    .ite (.pure hR 0) (always_encodeChunks hQ hencode p₁)
  refine halts_or hQ hencodeChunks h hb₈ fun failures b₉ h₉ hb₉ h => ?_
  refine halts_or hQ hlook h hb₉ fun raised' b₁₀ h₁₀ hb₁₀ h => ?_
  split at h
  · exact .inl (halts_of_stop hQ h hb₁₀)
  rename_i hraised'
  refine halts_or hQ hjob h hb₁₀ fun _ b₁₁ h₁₁ hb₁₁ h => ?_
  refine halts_or hQ (always_onDesk (hsurvey _)) h hb₁₁ fun p₂ b₁₂ h₁₂ hb₁₂ h => ?_
  refine halts_or hQ hlook h hb₁₂ fun raised'' b₁₃ h₁₃ hb₁₃ h => ?_
  split at h
  · exact .inl (halts_of_stop hQ h hb₁₃)
  rename_i hraised''
  refine halts_or hQ (hupdate _) h hb₁₃ fun _ b₁₄ h₁₄ hb₁₄ h => ?_
  split at h
  · exact .inl (halts_of_leaveIncomplete hQ h hb₁₄)
  rename_i hcomplete
  -- every step was taken
  cases h₁
  obtain ⟨hfolders, hjob₂⟩ := onDesk_ok h₂
  obtain ⟨t, hmade, hdesk₂⟩ := change_ok hfolders
  obtain ⟨hjob₃, hdesk₃⟩ := saveAs_ok h₃
  have hstored := saveAs_store h₃
  cases h₄
  obtain ⟨hprepared, hjob₅⟩ := onDesk_ok h₅
  cases h₆
  obtain ⟨hfirst, hjob₇⟩ := onDesk_ok h₇
  cases h₈
  cases h₁₀
  cases h₁₁
  obtain ⟨hsecond, hjob₁₂⟩ := onDesk_ok h₁₂
  cases h₁₃
  cases h₁₄
  obtain ⟨rf, hfinished, hreported⟩ := bind_pure_cases h
  refine .inr (.intro ?_ ?_ ⟨t, ?_, ?_⟩ (hjob₅.symm ▸ hprepared) hfirst (Nat.pos_of_ne_zero hknown)
    (hjob₇ ▸ h₉) hsecond (Bool.eq_false_iff.2 hraised'') (by simpa using hcomplete)
    (by rw [← hjob₁₂]; exact hfinished) hreported)
  · rw [hjob₅, hjob₃, hjob₂]
  · rw [hdesk₃, hdesk₂]
  · rw [hjob₅, hjob₃, hjob₂]
    exact hmade
  · rw [hjob₅]
    rw [hdesk₂] at hstored
    exact hstored

/-! ## Step by step -/

/-- The last survey of an encoding, and what is made of it. -/
def wrapUp (tools : Toolbox τ) (o : EncodingOptions) (failures : Nat) :
    Encoding τ EncodingReport := do
  let p ← onDesk ((← theJob).survey tools)
  if ← isCancelled then return ← stop
  update fun j => { j with resumePosition := p.resumePosition }
  if !p.isComplete then return ← leaveIncomplete p failures
  let output ← finish tools o p
  return .complete output p.totalFrames

/-- **An encoding ends as its steps do.** `M` holds once the job's folder is made, and `R` from
its filing on up to the last survey. -/
theorem ends_run_of {P M R : Bench τ → Prop} {post : EncodingReport → Bench τ → Prop}
    {exit : JobFault → Bench τ → Prop}
    (folder : ∀ directory, Ends P
      (onDesk (change (fun t => t.makeFolders directory) (.folder directory))) (fun _ => M) exit)
    (filed : Ends M (saveAs .running) (fun _ => R) exit)
    (prepared : ∀ job, Ends R (onDesk (prepareScripts tools o job)) (fun _ => R) exit)
    (surveyed : ∀ job : Job, Ends R (onDesk (job.survey tools)) (fun _ => R) exit)
    (looked : Ends R isCancelled (fun _ => R) exit)
    (stopped : Ends R stop post exit)
    (empty : Ends R (do saveAs .failed; throw (.noFrames (← theJob).index)) post exit)
    (encoded : ∀ p, Ends R (encodeChunks tools o p) (fun _ => R) exit)
    (wrapped : ∀ failures, Ends R (wrapUp tools o failures) post exit) :
    Ends P (run tools o) post exit := by
  have hjob : ∀ S : Bench τ → Prop, Ends S (theJob : Encoding τ Job) (fun _ => S) exit :=
    fun _ => ⟨fun hs hx => by cases hx; exact hs, fun _ hx => by cases hx⟩
  refine .bind (hjob P) fun job => .bind (folder _) fun _ => .bind filed fun _ => ?_
  refine .bind (hjob R) fun job => .bind (prepared job) fun _ => ?_
  refine .bind (hjob R) fun job => .bind (surveyed job) fun p => ?_
  refine .bind looked fun raised => .ite (fun _ => stopped) fun _ => .ite (fun _ => empty) fun _ => ?_
  dsimp only
  rw [bind_ite]
  refine .bind (Q := fun _ => R) (.ite (fun _ => .pure fun _ h => h) fun _ => encoded p) ?_
  exact fun failures => .bind looked fun raised => .ite (fun _ => stopped) fun _ => wrapped failures

end Encoding

end Restoration
