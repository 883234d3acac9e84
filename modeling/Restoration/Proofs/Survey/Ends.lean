import Restoration.Proofs.Survey
import Restoration.Proofs.Survey.Directory

/-!
# How a survey ends

A survey first counts: it writes its probe, runs it, lists the job's directory and measures what it
finds there. Then it ends in one of five ways:

    nothing known             no file is removed
    a tool missing            the corrupt fragments are removed
    a fragment overlong       so they are
    everything laid           so are those that the layout has no room for
    a file stuck              some of these
-/

namespace Restoration

open FileTree Work

namespace Survey

variable {τ : Type} {tools : Toolbox τ} {job : Job} {d d' d₃ : Desk τ} {t t' t'' : FileTree}

/-! ## Removing -/

theorem takes_delete (fault : Path → FileFault → JobFault) (ps : List Path) (d : Desk τ) :
    Takes ps d.files (delete fault ps d).2.files := by
  induction ps generalizing d with
  | nil => exact .refl d.files
  | cons p rest ih =>
    have hone := takes_removeHeld d.files p
    rw [delete_cons]
    split
    · exact hone.append (ih { d with files := (d.files.removeHeld p).2 })
    · exact hone.mono (by simp)

/-- A removal fails at a path whose end cannot be removed. -/
theorem delete_error {fault : Path → FileFault → JobFault} {ps : List Path} {e : JobFault}
    (h : delete fault ps d = (.error e, d')) :
    ∃ p ∈ ps, d.files.Stuck p ∧ ∃ cause, e = fault p cause := by
  induction ps generalizing d with
  | nil => cases h
  | cons p rest ih =>
    rw [delete_cons] at h
    cases hr : (d.files.removeHeld p).1 with
    | ok u =>
      rw [hr] at h
      obtain ⟨p', hp', hstuck, he⟩ := ih h
      exact ⟨p', List.mem_cons_of_mem _ hp',
        (removes_removeHeld d.files p).same.stuck_iff.1 hstuck, he⟩
    | error cause =>
      rw [hr] at h
      cases h
      exact ⟨p, List.mem_cons_self, stuck_of_removeHeld hr, cause, rfl⟩

theorem Deletes.append {ps ps' : List Path} (h : Deletes ps t t') (h' : Deletes ps' t' t'') :
    Deletes (ps ++ ps') t t'' where
  same := h.same.append h'.same
  less q hq := h'.less q (h.less q hq)
  gone hfolder hn hp := by
    rcases List.mem_append.1 hp with hp | hp
    · exact h'.less _ (h.gone hfolder hn hp)
    · exact h'.gone (h.same.look_folder_iff.2 hfolder) hn hp

/-! ## Counting -/

/-- Writes the probe and runs it. -/
def count (tools : Toolbox τ) (job : Job) : Work τ JobFault (Except ToolFault Nat) := do
  prepareProbe job
  (tools.scriptFrames (job.path .frameCountScript) (job.path .frameCount)).outcome

theorem steady_ahead (job : Job) : Steady fun d d' : Desk τ => Ahead job d.files d'.files where
  refl d := .refl job d.files
  trans := .trans

theorem ahead_prepareProbe (job : Job) : Always (fun d d' : Desk τ => Ahead job d.files d'.files)
    (prepareProbe job : Work τ JobFault Unit) :=
  always_prepareProbe (steady_ahead job) job fun f hf s d t ht =>
    .write (by rcases hf with rfl | rfl <;> simp [writtenFiles]) ht

theorem ahead_count (htidy : tools.Tidy) (job : Job) :
    Always (fun d d' : Desk τ => Ahead job d.files d'.files) (count tools job) :=
  .bind (steady_ahead job) (ahead_prepareProbe job) fun _ => always_outcome fun d =>
    .of_side (htidy.scriptFrames (job.path .frameCountScript) (job.path .frameCount) d)

/-- The probe cannot be prepared without the job's script, or where scripts cannot be written. -/
theorem prepareProbe_error {fault : JobFault} (h : prepareProbe job d = (.error fault, d')) :
    (∃ cause, fault = .noScript job.index cause) ∨ ∃ cause, fault = .script cause := by
  rcases bind_cases h with ⟨e, hlook, he⟩ | ⟨text, d₁, -, h⟩
  · cases he
    obtain ⟨cause, rfl⟩ := look_fault hlook
    exact .inl ⟨_, rfl⟩
  · dsimp only at h
    split at h
    · rcases bind_cases h with ⟨e, hscript, he⟩ | ⟨⟨⟩, d₂, -, h⟩
      · cases he
        obtain ⟨cause, rfl⟩ := change_fault hscript
        exact .inr ⟨_, rfl⟩
      · obtain ⟨cause, rfl⟩ := change_fault h
        exact .inr ⟨_, rfl⟩
    · obtain ⟨cause, rfl⟩ := change_fault h
      exact .inr ⟨_, rfl⟩

/-! ## The ends of a survey -/

/-- The last steps of a survey that knows the number of frames. -/
def clear (listing : Listing) (counts : List (Except ToolFault Nat)) (total : Nat) :
    Work τ JobFault Progress := do
  delete .corruptFragment listing.corrupt
  let fragments ← require (measured listing.candidates counts)
  let layout ← require (layOut fragments total)
  delete .invalidFragment (layout.rejected.map (·.path))
  return Progress.ofLayout total layout

/-- The steps of a survey once everything is counted. -/
def conclude (listing : Listing) (total : Except ToolFault Nat)
    (counts : List (Except ToolFault Nat)) : Work τ JobFault Progress := do
  let total ← require (totalFrames total)
  if total = 0 then return {}
  if ← Work.isCancelled then return {}
  clear listing counts total

theorem survey_run (tools : Toolbox τ) (job : Job) (d : Desk τ) : job.survey tools d =
    match (count tools job d).1 with
    | .error fault => (.error fault, (count tools job d).2)
    | .ok total =>
      match listFragments (count tools job d).2.files job with
      | .error fault => (.error fault, (count tools job d).2)
      | .ok listing =>
        let probed := measureAll tools (listing.candidates.map Prod.fst) (count tools job d).2
        conclude listing total probed.1 probed.2 := by
  rw [Job.survey, count, bind_run, bind_run]
  rcases prepareProbe job d with ⟨fault | ⟨⟨⟩⟩, d₁⟩
  · rfl
  dsimp only
  rw [bind_run, outcome_run]
  dsimp only
  rw [bind_run, list_run]
  cases listFragments _ job with
  | error fault => rfl
  | ok listing =>
    dsimp only
    rw [bind_run, mapM_mediaFrames_run]
    rfl

/-- What a survey finds: the answer of the probe, the files in the directory, and the answers on the
frames of each. The flag is then looked at on the desk `d₃`. -/
structure Finds (tools : Toolbox τ) (job : Job) (d : Desk τ) (total : Except ToolFault Nat)
    (listing : Listing) (counts : List (Except ToolFault Nat)) (d₃ : Desk τ) : Prop where
  counted : (count tools job d).1 = .ok total
  listed : listFragments (count tools job d).2.files job = .ok listing
  probed : measureAll tools (listing.candidates.map Prod.fst) (count tools job d).2 = (counts, d₃)

/-- Did no removal fail? -/
def Removed (r : Except JobFault Progress) : Prop :=
  ∀ p cause, r ≠ .error (.corruptFragment p cause) ∧ r ≠ .error (.invalidFragment p cause)

theorem removed_of_count_error {fault : JobFault} (h : (count tools job d).1 = .error fault) :
    Removed (.error fault) := by
  rw [count, bind_run] at h
  rcases hprepared : prepareProbe job d with ⟨e | ⟨⟨⟩⟩, d₁⟩
  · rw [hprepared] at h
    cases h
    rcases prepareProbe_error hprepared with ⟨cause, rfl⟩ | ⟨cause, rfl⟩ <;> simp [Removed]
  · rw [hprepared] at h
    cases h

theorem removed_of_listing_error {fault : JobFault} (h : listFragments t job = .error fault) :
    Removed (.error fault) := by
  unfold listFragments at h
  split at h <;> cases h
  simp [Removed]

/-- A survey that finds nothing fails at once; any other comes to its conclusion. -/
theorem survey_cases (tools : Toolbox τ) (job : Job) (d : Desk τ) :
    (∃ fault, job.survey tools d = (.error fault, (count tools job d).2) ∧
      Removed (.error fault)) ∧
      (∀ total listing counts d₃, ¬ Finds tools job d total listing counts d₃) ∨
    ∃ total listing counts d₃, Finds tools job d total listing counts d₃ ∧
      job.survey tools d = conclude listing total counts d₃ := by
  rw [survey_run]
  cases hcounted : (count tools job d).1 with
  | error fault =>
    refine .inl ⟨⟨fault, rfl, removed_of_count_error hcounted⟩,
      fun total listing counts d₃ h => ?_⟩
    rw [h.counted] at hcounted
    cases hcounted
  | ok total =>
    dsimp only
    cases hlisted : listFragments (count tools job d).2.files job with
    | error fault =>
      refine .inl ⟨⟨fault, rfl, removed_of_listing_error hlisted⟩,
        fun total listing counts d₃ h => ?_⟩
      rw [h.listed] at hlisted
      cases hlisted
    | ok listing => exact .inr ⟨total, listing, _, _, ⟨hcounted, hlisted, rfl⟩, rfl⟩

theorem Finds.survey_eq {total : Except ToolFault Nat} {listing : Listing}
    {counts : List (Except ToolFault Nat)} (h : Finds tools job d total listing counts d₃) :
    job.survey tools d = conclude listing total counts d₃ := by
  rw [survey_run, h.counted, h.listed]
  dsimp only
  rw [h.probed]

/-- The candidates with the frames that were counted in them; a file that cannot be measured has
none. -/
def weighed (candidates : List (Path × Nat)) (counts : List (Except ToolFault Nat)) :
    List Fragment :=
  (candidates.zip counts).map fun (c, r) => ⟨c.1, c.2, r.toOption.getD 0⟩

/-- The survey took away at most the files at some paths. It ends with the result `goal` without any
of them, unless one could not be removed. -/
structure Clears (ps : List Path) (goal r : Except JobFault Progress) (t t' : FileTree) : Prop where
  takes : Takes ps t t'
  done : ((∃ p ∈ ps, t.Stuck p) ∧ ¬ Removed r) ∨ r = goal ∧ Deletes ps t t'

theorem Clears.removed_or {ps : List Path} {goal r : Except JobFault Progress}
    (h : Clears ps goal r t t') (hgoal : Removed goal) : Removed r ∨ ∃ p ∈ ps, t.Stuck p := by
  rcases h.done with ⟨hstuck, -⟩ | ⟨rfl, -⟩
  · exact .inr hstuck
  · exact .inl hgoal

/-- Is a fault among the answers that a tool itself is missing? -/
def Missing (counts : List (Except ToolFault Nat)) : Prop :=
  ∃ fault, .error fault ∈ counts ∧ fault.isMissing = true

/-- An answer that no tool is missing adds one fragment to the others. -/
theorem measured_cons {one : Except ToolFault Nat}
    (hone : ∀ fault, one = .error fault → fault.isMissing = false) (p : Path) (start : Nat)
    (rest : List (Path × Nat)) (counts : List (Except ToolFault Nat)) :
    measured ((p, start) :: rest) (one :: counts) =
      (measured rest counts).map (⟨p, start, one.toOption.getD 0⟩ :: ·) := by
  cases one with
  | ok n => cases hrest : measured rest counts <;> simp [measured, hrest] <;> rfl
  | error fault =>
    have hmissing := hone fault rfl
    cases hrest : measured rest counts <;> simp [measured, hmissing, hrest] <;> rfl

theorem measured_cases {candidates : List (Path × Nat)} {counts : List (Except ToolFault Nat)}
    (hlength : candidates.length = counts.length) :
    (∃ fault, .error fault ∈ counts ∧ fault.isMissing = true ∧
      measured candidates counts = .error (.fragmentProbe fault)) ∨
    ¬ Missing counts ∧ measured candidates counts = .ok (weighed candidates counts) := by
  induction candidates generalizing counts with
  | nil =>
    obtain rfl := List.length_eq_zero_iff.1 hlength.symm
    exact .inr ⟨by simp [Missing], rfl⟩
  | cons c rest ih =>
    obtain ⟨p, start⟩ := c
    obtain ⟨one, counts, rfl⟩ := List.exists_cons_of_length_eq_add_one hlength.symm
    by_cases hone : ∃ fault, one = .error fault ∧ fault.isMissing = true
    · obtain ⟨fault, rfl, hmissing⟩ := hone
      refine .inl ⟨fault, List.mem_cons_self, hmissing, ?_⟩
      simp only [measured, hmissing]
      rfl
    have hfound : ∀ fault, one = .error fault → fault.isMissing = false := by simpa using hone
    rw [measured_cons hfound]
    rcases ih (Nat.succ.inj hlength) with ⟨fault, hmem, hmissing, heq⟩ | ⟨hall, heq⟩
    · rw [heq]
      exact .inl ⟨fault, List.mem_cons_of_mem _ hmem, hmissing, rfl⟩
    · rw [heq]
      refine .inr ⟨?_, rfl⟩
      rintro ⟨fault, hmem, hmissing⟩
      rcases List.mem_cons.1 hmem with hfault | hmem
      · exact hone ⟨fault, hfault.symm, hmissing⟩
      · exact hall ⟨fault, hmem, hmissing⟩

/-- The paths of the fragments that a layout has no room for. -/
def rejects (listing : Listing) (counts : List (Except ToolFault Nat)) (total : Nat) : List Path :=
  (Layout.ofFragments (weighed listing.candidates counts) total).rejected.map (·.path)

/-- What becomes of the files once everything is counted, and how the survey ends: the corrupt ones are
removed, and those that the layout has no room for, if there is a layout. -/
inductive Concludes (listing : Listing) (counts : List (Except ToolFault Nat)) (total : Nat)
    (r : Except JobFault Progress) (t t' : FileTree) : Prop where
  | missing {fault : ToolFault} (mem : .error fault ∈ counts) (missing : fault.isMissing = true)
      (clears : Clears listing.corrupt (.error (.fragmentProbe fault)) r t t')
  | outgrown (measured : ¬ Missing counts)
      (overlong : ¬ (Layout.ofFragments (weighed listing.candidates counts) total).Fits)
      (clears : Clears listing.corrupt (.error .outgrown) r t t')
  | laid (measured : ¬ Missing counts)
      (fits : (Layout.ofFragments (weighed listing.candidates counts) total).Fits)
      (clears : Clears (listing.corrupt ++ rejects listing counts total)
        (.ok (.ofLayout total (.ofFragments (weighed listing.candidates counts) total))) r t t')

/-- A survey that fails once the corrupt fragments are removed. -/
theorem clears_corrupt {ps : List Path} {fault : JobFault} {rest : Unit → Work τ JobFault Progress}
    {r : Except JobFault Progress} (hrest : ∀ d, rest () d = (.error fault, d))
    (h : (delete .corruptFragment ps >>= rest) d = (r, d')) :
    Clears ps (.error fault) r d.files d'.files := by
  have htakes := takes_delete .corruptFragment ps d
  rcases bind_cases h with ⟨e, hheld, rfl⟩ | ⟨⟨⟩, d₁, hcleared, h⟩
  · rw [hheld] at htakes
    obtain ⟨p, hp, hstuck, cause, rfl⟩ := delete_error hheld
    exact ⟨htakes, .inl ⟨⟨p, hp, hstuck⟩, fun h => (h p cause).1 rfl⟩⟩
  · rw [hcleared] at htakes
    rw [hrest] at h
    cases h
    exact ⟨htakes, .inr ⟨rfl, (delete_ok hcleared).2⟩⟩

/-- A survey that ends well once the corrupt fragments and then some others are removed. -/
theorem clears_both {ps ps' : List Path} {p : Progress} {r : Except JobFault Progress}
    (h : (delete .corruptFragment ps >>= fun _ => delete .invalidFragment ps' >>= fun _ => pure p :
      Work τ JobFault Progress) d = (r, d')) :
    Clears (ps ++ ps') (.ok p) r d.files d'.files := by
  have hcorrupt := takes_delete .corruptFragment ps d
  rcases bind_cases h with ⟨e, hheld, rfl⟩ | ⟨⟨⟩, d₁, hcleared, h⟩
  · rw [hheld] at hcorrupt
    obtain ⟨q, hq, hstuck, cause, rfl⟩ := delete_error hheld
    exact ⟨hcorrupt.mono (List.subset_append_left _ _),
      .inl ⟨⟨q, List.mem_append_left _ hq, hstuck⟩, fun h => (h q cause).1 rfl⟩⟩
  rw [hcleared] at hcorrupt
  obtain ⟨r₀, hthinned, rfl⟩ := bind_pure_cases (x := delete .invalidFragment ps') h
  have hrejected := takes_delete .invalidFragment ps' d₁
  rw [hthinned] at hrejected
  refine ⟨hcorrupt.append hrejected, ?_⟩
  cases r₀ with
  | error e =>
    obtain ⟨q, hq, hstuck, cause, rfl⟩ := delete_error hthinned
    refine .inl ⟨⟨q, List.mem_append_right _ hq, hcorrupt.same.stuck_iff.1 hstuck⟩, ?_⟩
    exact fun h => (h q cause).2 rfl
  | ok u => exact .inr ⟨rfl, (delete_ok hcleared).2.append (delete_ok hthinned).2⟩

theorem concludes_clear {listing : Listing} {counts : List (Except ToolFault Nat)} {total : Nat}
    {r : Except JobFault Progress} (hlength : listing.candidates.length = counts.length)
    (h : clear listing counts total d = (r, d')) :
    Concludes listing counts total r d.files d'.files := by
  rw [clear] at h
  rcases measured_cases hlength with ⟨fault, hmem, hmissing, heq⟩ | ⟨hall, heq⟩
  · rw [heq] at h
    exact .missing hmem hmissing (clears_corrupt (fun _ => rfl) h)
  have hlay := layOut_eq (weighed listing.candidates counts) total
  by_cases hfits : (Layout.ofFragments (weighed listing.candidates counts) total).Fits
  · rw [if_pos hfits] at hlay
    refine .laid hall hfits (clears_both (Eq.trans ?_ h))
    rw [heq]
    show _ = (delete .corruptFragment listing.corrupt >>= fun _ =>
      require (layOut (weighed listing.candidates counts) total) >>= _) d
    rw [hlay]
    rfl
  · rw [if_neg hfits] at hlay
    refine .outgrown hall hfits (clears_corrupt (fun d => ?_) h)
    rw [heq]
    show (require (layOut (weighed listing.candidates counts) total) >>= _) d = _
    rw [hlay]
    rfl

theorem conclude_run {listing : Listing} {total : Except ToolFault Nat} {n : Nat}
    {counts : List (Except ToolFault Nat)} (hn : totalFrames total = .ok n) (d : Desk τ) :
    conclude listing total counts d =
      if n = 0 then (.ok {}, d)
      else if d.isRaised then (.ok {}, d.looked) else clear listing counts n d.looked := by
  rw [conclude, hn]
  show (if n = 0 then pure {} else
    Work.isCancelled >>= fun raised => if raised then pure {} else clear listing counts n :
      Work τ JobFault Progress) d = _
  split
  · rfl
  · rw [bind_run, isCancelled_run]
    dsimp only
    split <;> rfl

/-- How a survey ends that learns nothing: well, unless the tool that counts is missing. -/
def nothingKnown : Except ToolFault Nat → Except JobFault Progress
  | .error fault => if fault.isMissing then .error (.totalProbe fault) else .ok {}
  | .ok _ => .ok {}

theorem removed_nothingKnown (total : Except ToolFault Nat) : Removed (nothingKnown total) := by
  rcases total with fault | n
  · rw [nothingKnown]
    split <;> simp [Removed]
  · simp [nothingKnown, Removed]

/-- A survey that does not know the number of frames, or is asked to stop, leaves all files. -/
theorem conclude_unknown {listing : Listing} {total : Except ToolFault Nat}
    {counts : List (Except ToolFault Nat)}
    (hunknown : total = .ok 0 ∨ (∃ fault, total = .error fault) ∨ d.isRaised = true) :
    (conclude listing total counts d).1 = nothingKnown total ∧
      (conclude listing total counts d).2.files = d.files := by
  cases total with
  | ok n =>
    rw [conclude_run rfl]
    split
    · exact ⟨rfl, rfl⟩
    · rename_i hn
      have hraised : d.isRaised = true := by simpa [hn] using hunknown
      rw [if_pos hraised]
      exact ⟨rfl, rfl⟩
  | error fault =>
    cases hmissing : fault.isMissing with
    | true =>
      have htotal : totalFrames (.error fault) = .error (.totalProbe fault) := by
        simp [totalFrames, hmissing]
      rw [conclude, htotal, nothingKnown, hmissing]
      exact ⟨rfl, rfl⟩
    | false =>
      have htotal : totalFrames (.error fault) = .ok 0 := by simp [totalFrames, hmissing]
      rw [conclude_run htotal, nothingKnown, hmissing]
      exact ⟨rfl, rfl⟩

/-- A survey that knows the number of frames, and is not asked to stop, clears the directory. -/
theorem conclude_known {listing : Listing} {total : Nat} {counts : List (Except ToolFault Nat)}
    (hpos : 0 < total) (hraised : d.isRaised = false) :
    conclude listing (.ok total) counts d = clear listing counts total d.looked := by
  rw [conclude_run rfl, if_neg (Nat.ne_of_gt hpos), hraised]
  rfl

namespace Finds

variable {total : Except ToolFault Nat} {listing : Listing} {counts : List (Except ToolFault Nat)}

theorem length_eq (h : Finds tools job d total listing counts d₃) :
    listing.candidates.length = counts.length := by
  have hlength := length_measureAll tools (listing.candidates.map Prod.fst) (count tools job d).2
  rw [h.probed, List.length_map] at hlength
  exact hlength.symm

theorem leaves (h : Finds tools job d total listing counts d₃)
    (hunknown : total = .ok 0 ∨ (∃ fault, total = .error fault) ∨ d₃.isRaised = true) :
    (job.survey tools d).1 = nothingKnown total ∧ (job.survey tools d).2.files = d₃.files := by
  rw [h.survey_eq]
  exact conclude_unknown hunknown

/-- A survey that knows the number of frames, and is not asked to stop, removes what is of no use. -/
theorem concludes {total : Nat} (h : Finds tools job d (.ok total) listing counts d₃)
    (hpos : 0 < total) (hraised : d₃.isRaised = false) :
    Concludes listing counts total (job.survey tools d).1 d₃.files (job.survey tools d).2.files := by
  rw [h.survey_eq, conclude_known hpos hraised]
  exact concludes_clear (d := d₃.looked) h.length_eq rfl

/-- However a survey ends that finds something, it removes at most what is of no use. -/
theorem takes (h : Finds tools job d total listing counts d₃) :
    ∃ m, ∃ ps ⊆ listing.corrupt ++ rejects listing counts m,
      Takes ps d₃.files (job.survey tools d).2.files ∧
        (Removed (job.survey tools d).1 ∨ ∃ p ∈ ps, d₃.files.Stuck p) := by
  by_cases hknown : ∃ m, total = .ok m ∧ 0 < m ∧ d₃.isRaised = false
  · obtain ⟨m, rfl, hpos, hraised⟩ := hknown
    cases h.concludes hpos hraised with
    | missing _ _ hclears | outgrown _ _ hclears =>
      exact ⟨m, _, List.subset_append_left _ _, hclears.takes,
        hclears.removed_or (by simp [Removed])⟩
    | laid _ _ hclears =>
      exact ⟨m, _, List.Subset.refl _, hclears.takes, hclears.removed_or (by simp [Removed])⟩
  · have hunknown : total = .ok 0 ∨ (∃ fault, total = .error fault) ∨ d₃.isRaised = true := by
      rcases total with fault | m
      · exact .inr (.inl ⟨fault, rfl⟩)
      · rcases Nat.eq_zero_or_pos m with rfl | hpos
        · exact .inl rfl
        · exact .inr (.inr (by simpa [hpos] using hknown))
    obtain ⟨hr, hfiles⟩ := h.leaves hunknown
    rw [hr, hfiles]
    exact ⟨0, [], List.nil_subset _, .refl d₃.files, .inl (removed_nothingKnown total)⟩

end Finds

end Survey

end Restoration
