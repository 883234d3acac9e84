import Restoration.Proofs.Frames.Words
import Restoration.Proofs.Job.Path
import Restoration.Proofs.Tools.Record
import Restoration.Survey

/-!
# The course of a survey

A survey that finds out the number of frames has done all of its steps. So everything in the job's
directory that could be taken for a fragment was either measured and laid, or deleted:

    s ∈ framesOf left  →  no fragment that starts at s is there after the survey
-/

namespace Restoration

open FileTree Work

namespace Survey

variable {τ : Type} {tools : Toolbox τ} {job : Job} {d d' : Desk τ}

/-! ## Steps -/

theorem prepareProbe_ok (h : prepareProbe job d = (.ok (), d')) :
    d' = { d with files := d'.files } ∧
      SameBut (fun q => d.files.resolve (job.path .script) = .ok q ∨
        d.files.resolve (job.path .frameCountScript) = .ok q) d.files d'.files := by
  obtain ⟨text, d₁, hlook, h⟩ := bind_ok h
  obtain ⟨-, rfl⟩ := look_ok hlook
  dsimp only at h
  split at h
  · obtain ⟨⟨⟩, d₁, hscript, h⟩ := bind_ok h
    obtain ⟨hd₁, hsame⟩ := change_write_ok hscript
    obtain ⟨hd', hsame'⟩ := change_write_ok h
    rw [hd₁] at hd'
    exact ⟨hd', hsame.both hsame'⟩
  · obtain ⟨hd', hsame⟩ := change_write_ok h
    exact ⟨hd', hsame.mono fun _ => .inr⟩

/-- What the probes of some files tell, one after the other, and the desk behind them. -/
def measureAll (tools : Toolbox τ) : List Path → Desk τ → List (Except ToolFault Nat) × Desk τ
  | [], d => ([], d)
  | p :: rest, d =>
    let one := tools.mediaFrames p d
    let others := measureAll tools rest one.2
    (one.1 :: others.1, others.2)

theorem mapM_mediaFrames_run (tools : Toolbox τ) (candidates : List (Path × Nat)) (d : Desk τ) :
    (candidates.mapM fun (p, _) => (tools.mediaFrames p).outcome :
        Work τ JobFault (List (Except ToolFault Nat))) d =
      (.ok (measureAll tools (candidates.map Prod.fst) d).1,
        (measureAll tools (candidates.map Prod.fst) d).2) := by
  induction candidates generalizing d with
  | nil => rfl
  | cons c rest ih =>
    obtain ⟨p, start⟩ := c
    rw [List.mapM_cons, bind_run]
    simp only [outcome_run, bind_run, ih]
    rfl

theorem sameBut_measureAll (htidy : tools.Tidy) (ps : List Path) (d : Desk τ) :
    SameBut (fun _ => False) d.files (measureAll tools ps d).2.files := by
  induction ps generalizing d with
  | nil => exact .refl _ _
  | cons p rest ih => exact (htidy.mediaFrames p d).trans (ih _)

/-- Each candidate with its frames as they were measured; what cannot be measured has none. -/
theorem measured_ok {candidates : List (Path × Nat)} {counts : List (Except ToolFault Nat)}
    {fragments : List Fragment} (h : measured candidates counts = .ok fragments) :
    fragments = (candidates.zip counts).map fun (c, r) => ⟨c.1, c.2, r.toOption.getD 0⟩ := by
  induction candidates generalizing counts fragments with
  | nil =>
    cases h
    rfl
  | cons c rest ih =>
    cases counts with
    | nil =>
      cases h
      rfl
    | cons r counts =>
      obtain ⟨p, start⟩ := c
      have hothers : ∀ n, (do
          let others ← measured rest counts
          pure (⟨p, start, n⟩ :: others) : Except JobFault (List Fragment)) = .ok fragments →
          fragments = ⟨p, start, n⟩ ::
            (rest.zip counts).map fun (c, r) => ⟨c.1, c.2, r.toOption.getD 0⟩ := by
        intro n hn
        obtain ⟨others, hothers, hn⟩ := bind_eq_ok_iff.1 hn
        cases hn
        rw [ih hothers]
      unfold measured at h
      cases r with
      | ok n => exact hothers n h
      | error fault =>
        dsimp only at h
        split at h
        · cases h
        · exact hothers 0 h

/-! ## Deleting -/

/-- What holds behind a removal of all the files that some paths lead to. -/
structure Deletes (ps : List Path) (t t' : FileTree) : Prop where
  same : SameBut (fun q => ∃ p ∈ ps, t.resolve p = .ok q) t t'
  less : ∀ q, t.node? q = none → t'.node? q = none
  gone : ∀ {folder : Path} {D : Place} {n : String}, t.look folder = .ok (D, .folder) →
    IsName n → folder.join ⟨n⟩ ∈ ps → t'.node? (D ++ [n]) = none

theorem Deletes.cons {p : Path} {ps : List Path} {t t' t'' : FileTree}
    (hone : Removes p t (.ok ()) t') (h : Deletes ps t' t'') : Deletes (p :: ps) t t'' where
  same := by
    refine (hone.same.mono fun q hq => ⟨p, List.mem_cons_self, hq⟩).trans (h.same.mono ?_)
    rintro q ⟨p', hp', hq⟩
    exact ⟨p', List.mem_cons_of_mem _ hp', (hone.same.resolve_iff p' q).1 hq⟩
  less q hq := h.less q (hone.less q hq)
  gone := by
    intro folder D n hfolder hn hp
    obtain ⟨hD, hnode⟩ := look_folder_iff.1 hfolder
    rcases List.mem_cons.1 hp with rfl | hp
    · -- a name that is too long cannot have been removed, so the path leads to its place
      have hstep := (resolve_join hD hn).trans (step_name hnode hn)
      split at hstep
      · exact absurd (hone.found rfl _ hstep) (by simp)
      · exact h.less _ (hone.gone rfl _ hstep)
    · exact h.gone (hone.same.look_folder_iff.2 hfolder) hn hp

theorem delete_cons (fault : Path → FileFault → JobFault) (p : Path) (rest : List Path)
    (d : Desk τ) : delete fault (p :: rest) d =
      match (d.files.removeHeld p).1 with
      | .ok () => delete fault rest { d with files := (d.files.removeHeld p).2 }
      | .error cause =>
        (.error (fault p cause), { d with files := (d.files.removeHeld p).2 }) := by
  change (match (d.files.removeHeld p).1 with
    | .ok () => delete fault rest
    | .error cause => throw (fault p cause) : Work τ JobFault Unit)
      { d with files := (d.files.removeHeld p).2 } = _
  cases (d.files.removeHeld p).1 <;> rfl

theorem delete_ok {fault : Path → FileFault → JobFault} {ps : List Path}
    (h : delete fault ps d = (.ok (), d')) :
    d' = { d with files := d'.files } ∧ Deletes ps d.files d'.files := by
  induction ps generalizing d with
  | nil =>
    cases h
    exact ⟨rfl, (SameBut.refl _ _), fun _ hq => hq, fun _ _ hp => absurd hp (by simp)⟩
  | cons p rest ih =>
    rw [delete_cons] at h
    have hone := removes_removeHeld d.files p
    cases hr : (d.files.removeHeld p).1 with
    | error cause =>
      rw [hr] at h
      cases h
    | ok u =>
      rw [hr] at h hone
      obtain ⟨hd, hrest⟩ := ih h
      exact ⟨hd, .cons hone hrest⟩

/-! ## Sorting out -/

variable {t : FileTree} {names : List String}

/-- The path and the first frame of the file with a name, if it is to be measured. -/
def candidate? (t : FileTree) (job : Job) (n : String) : Option (Path × Nat) :=
  match job.classify n with
  | .start frame =>
    let p := job.directory.join ⟨n⟩
    if t.isEmptyFile p then none else some (p, frame)
  | _ => none

theorem candidate?_eq_some {n : String} {p : Path} {s : Nat} : candidate? t job n = some (p, s) ↔
    job.classify n = .start s ∧ p = job.directory.join ⟨n⟩ ∧ t.isEmptyFile p = false := by
  unfold candidate?
  cases hn : job.classify n with
  | start frame =>
    dsimp only
    split
    · rename_i hempty
      refine iff_of_false (by simp) ?_
      rintro ⟨-, rfl, hfull⟩
      rw [hempty] at hfull
      cases hfull
    · rename_i hempty
      constructor
      · rintro ⟨⟩
        exact ⟨rfl, rfl, by simpa using hempty⟩
      · rintro ⟨⟨⟩, rfl, -⟩
        rfl
  | malformed => simp
  | foreign => simp

theorem candidates_eq (t : FileTree) (job : Job) (names : List String) :
    (sortOut t job names).candidates = names.filterMap (candidate? t job) := rfl

theorem mem_candidates {p : Path} {s : Nat} : (p, s) ∈ (sortOut t job names).candidates ↔
    ∃ n ∈ names, job.classify n = .start s ∧ p = job.directory.join ⟨n⟩ ∧ t.isEmptyFile p = false := by
  simp only [candidates_eq, List.mem_filterMap, candidate?_eq_some]

theorem mem_corrupt {p : Path} : p ∈ (sortOut t job names).corrupt ↔
    ∃ n ∈ names, p = job.directory.join ⟨n⟩ ∧ (job.classify n = .malformed ∨
      (∃ s, job.classify n = .start s) ∧ t.isEmptyFile p = true) := by
  rw [sortOut, List.mem_filterMap]
  refine exists_congr fun n => and_congr_right fun _ => ?_
  cases hn : job.classify n with
  | start frame =>
    dsimp only
    split
    · rename_i hempty
      constructor
      · rintro ⟨⟩
        exact ⟨rfl, .inr ⟨⟨frame, rfl⟩, hempty⟩⟩
      · rintro ⟨rfl, -⟩
        rfl
    · rename_i hempty
      refine iff_of_false (by simp) ?_
      rintro ⟨rfl, h | ⟨-, h⟩⟩
      · cases h
      · exact hempty h
  | malformed =>
    constructor
    · rintro ⟨⟩
      exact ⟨rfl, .inl rfl⟩
    · rintro ⟨rfl, -⟩
      rfl
  | foreign => simp

theorem listFragments_ok {listing : Listing} (h : listFragments t job = .ok listing) :
    ∃ D, t.look job.directory = .ok (D, .folder) ∧ listing = sortOut t job (t.names D) := by
  unfold listFragments at h
  split at h <;> cases h
  rename_i names hlist
  obtain ⟨D, hD, rfl⟩ := list_ok hlist
  exact ⟨D, hD, rfl⟩

/-! ## The whole course -/

/-- The steps of a survey that found out the number of frames. -/
inductive Course (tools : Toolbox τ) (job : Job) (total : Nat) (fragments : List Fragment) :
    Desk τ → Desk τ → Prop where
  | intro {d d₁ d₂ d₃ d₄ d₅ : Desk τ} {listing : Listing} {counts : List (Except ToolFault Nat)}
      (prepared : prepareProbe job d = (.ok (), d₁))
      (counted : tools.scriptFrames (job.path .frameCountScript) (job.path .frameCount) d₁ =
        (.ok total, d₂))
      (listed : listFragments d₂.files job = .ok listing)
      (probed : measureAll tools (listing.candidates.map Prod.fst) d₂ = (counts, d₃))
      (uncancelled : d₃.isRaised = false)
      (cleared : delete .corruptFragment listing.corrupt d₃.looked = (.ok (), d₄))
      (paired : measured listing.candidates counts = .ok fragments)
      (fits : (Layout.ofFragments fragments total).Fits)
      (thinned : delete .invalidFragment
        ((Layout.ofFragments fragments total).rejected.map (·.path)) d₄ = (.ok (), d₅)) :
      Course tools job total fragments d d₅

theorem require_ok {α : Type} {r : Except JobFault α} {a : α}
    (h : (require r : Work τ JobFault α) d = (.ok a, d')) : r = .ok a ∧ d = d' := by
  cases r <;> cases h
  exact ⟨rfl, rfl⟩

theorem layOut_eq (fragments : List Fragment) (total : Nat) : layOut fragments total =
    if (Layout.ofFragments fragments total).Fits then .ok (Layout.ofFragments fragments total)
    else .error .outgrown := by
  rw [layOut, Layout.ofFragments?_eq]
  by_cases hfits : (Layout.ofFragments fragments total).Fits
  · rw [if_pos hfits, if_pos hfits]
  · rw [if_neg hfits, if_neg hfits]

theorem layOut_ok {fragments : List Fragment} {total : Nat} {l : Layout}
    (h : layOut fragments total = .ok l) :
    l = Layout.ofFragments fragments total ∧ (Layout.ofFragments fragments total).Fits := by
  rw [layOut_eq] at h
  split at h
  · next hfits => exact ⟨(Except.ok.inj h).symm, hfits⟩
  · cases h

theorem totalFrames_ok {r : Except ToolFault Nat} {n : Nat} (h : totalFrames r = .ok n)
    (hn : 0 < n) : r = .ok n := by
  cases r with
  | ok m =>
    cases h
    rfl
  | error fault =>
    simp only [totalFrames] at h
    split at h <;> cases h
    cases hn

theorem list_run (job : Job) (d : Desk τ) : (Survey.list job : Work τ JobFault Listing) d =
    (listFragments d.files job, d) := by
  rw [Survey.list, bind_run, get_run]
  dsimp only
  cases listFragments d.files job <;> rfl

/-- **A survey that knows the number of frames has taken all steps.** -/
theorem survey_ok {p : Progress} (h : job.survey tools d = (.ok p, d')) (hp : 0 < p.totalFrames) :
    ∃ total fragments, Course tools job total fragments d d' ∧ 0 < total ∧
      p = Progress.ofLayout total (Layout.ofFragments fragments total) := by
  obtain ⟨⟨⟩, d₁, hprepared, h⟩ := bind_ok h
  obtain ⟨count, d₂, hcount, h⟩ := bind_ok h
  obtain ⟨listing, d₂', hlist, h⟩ := bind_ok h
  obtain ⟨counts, d₃, hprobe, h⟩ := bind_ok h
  obtain ⟨total, d₃', hrequired, h⟩ := bind_ok h
  obtain ⟨htotal, rfl⟩ := require_ok hrequired
  -- the two early ends of a survey know no number of frames
  split at h
  · cases h
    cases hp
  rename_i hpos
  obtain ⟨raised, d₄, hlook, h⟩ := bind_ok h
  rw [isCancelled_run] at hlook
  cases hlook
  split at h
  · cases h
    cases hp
  rename_i hraised
  obtain ⟨⟨⟩, d₅, hcleared, h⟩ := bind_ok h
  obtain ⟨fragments, d₅', hpair, h⟩ := bind_ok h
  obtain ⟨hpaired, rfl⟩ := require_ok hpair
  obtain ⟨layout, d₅', hlay, h⟩ := bind_ok h
  obtain ⟨hlaid, rfl⟩ := require_ok hlay
  obtain ⟨rfl, hfits⟩ := layOut_ok hlaid
  obtain ⟨⟨⟩, d₆, hthinned, h⟩ := bind_ok h
  cases h
  rw [list_run] at hlist
  obtain ⟨hlisted, rfl⟩ := Prod.mk.inj hlist
  rw [mapM_mediaFrames_run] at hprobe
  cases hprobe
  have hpositive := Nat.pos_of_ne_zero hpos
  have hcounted := outcome_ok hcount
  rw [totalFrames_ok htotal hpositive] at hcounted
  exact ⟨total, fragments, .intro hprepared hcounted hlisted rfl (Bool.eq_false_iff.2 hraised)
    hcleared hpaired hfits hthinned, hpositive, rfl⟩

/-! ## What a course leaves behind -/

variable {total : Nat} {fragments : List Fragment} {D : Place}

theorem length_measureAll (tools : Toolbox τ) (ps : List Path) (d : Desk τ) :
    (measureAll tools ps d).1.length = ps.length := by
  induction ps generalizing d with
  | nil => rfl
  | cons p rest ih => simp [measureAll, ih]

/-- The fragments are the candidates, measured. -/
theorem map_fragments {candidates : List (Path × Nat)} {counts : List (Except ToolFault Nat)}
    (hprobed : measureAll tools (candidates.map Prod.fst) d = (counts, d'))
    (h : measured candidates counts = .ok fragments) :
    fragments.map (fun f => (f.path, f.start)) = candidates := by
  have hlength : candidates.length = counts.length := by
    have := length_measureAll tools (candidates.map Prod.fst) d
    rw [hprobed, List.length_map] at this
    exact this.symm
  rw [measured_ok h, List.map_map]
  exact List.map_fst_zip (Nat.le_of_eq hlength)

/-- A fragment that was measured is a candidate. -/
theorem candidate_of_fragment {t : FileTree} {names : List String}
    {counts : List (Except ToolFault Nat)} {f : Fragment}
    (hprobed : measureAll tools ((sortOut t job names).candidates.map Prod.fst) d = (counts, d'))
    (hpaired : measured (sortOut t job names).candidates counts = .ok fragments)
    (hf : f ∈ fragments) : ∃ n ∈ names, job.classify n = .start f.start ∧
      f.path = job.directory.join ⟨n⟩ ∧ t.isEmptyFile f.path = false := by
  have hmem := List.mem_map_of_mem (f := fun f : Fragment => (f.path, f.start)) hf
  rw [map_fragments hprobed hpaired, mem_candidates] at hmem
  exact hmem

/-- What the survey knows of a fragment, it knows from the name of its file. -/
theorem Course.name (h : Course tools job total fragments d d') {f : Fragment}
    (hf : f ∈ fragments) :
    ∃ n, f.path = job.directory.join ⟨n⟩ ∧ job.classify n = .start f.start := by
  cases h with
  | intro hprepared hcounted hlisted hprobed huncancelled hcleared hpaired _ hthinned =>
    obtain ⟨D, -, rfl⟩ := listFragments_ok hlisted
    obtain ⟨n, -, hn, hpath, -⟩ := candidate_of_fragment hprobed hpaired hf
    exact ⟨n, hpath, hn⟩

theorem Course.text_ne_empty (h : Course tools job total fragments d d') :
    job.directory.text ≠ "" := by
  cases h with
  | intro hprepared hcounted hlisted hprobed huncancelled hcleared hpaired _ hthinned =>
    obtain ⟨D, hD, -⟩ := listFragments_ok hlisted
    exact text_ne_empty_of_resolve (look_folder_iff.1 hD).1

/-- A fragment in the directory that is not corrupt is measured. -/
theorem found_of_not_corrupt {counts : List (Except ToolFault Nat)} {n : String}
    (hprobed : measureAll tools ((sortOut t job names).candidates.map Prod.fst) d = (counts, d'))
    (hpaired : measured (sortOut t job names).candidates counts = .ok fragments)
    (hthere : n ∈ names) (hn : job.classify n ≠ .foreign)
    (hsound : job.directory.join ⟨n⟩ ∉ (sortOut t job names).corrupt) :
    ∃ f ∈ fragments, f.path = job.directory.join ⟨n⟩ ∧ job.classify n = .start f.start := by
  obtain ⟨s, hs⟩ : ∃ s, job.classify n = .start s := by
    cases h : job.classify n with
    | start s => exact ⟨s, rfl⟩
    | malformed => exact absurd (mem_corrupt.2 ⟨_, hthere, rfl, .inl h⟩) hsound
    | foreign => exact absurd h hn
  have hfull : t.isEmptyFile (job.directory.join ⟨n⟩) = false := by
    by_contra hempty
    exact hsound (mem_corrupt.2 ⟨_, hthere, rfl, .inr ⟨⟨s, hs⟩, by simpa using hempty⟩⟩)
  have hcandidate : (job.directory.join ⟨n⟩, s) ∈ (sortOut t job names).candidates :=
    mem_candidates.2 ⟨_, hthere, hs, rfl, hfull⟩
  rw [← map_fragments hprobed hpaired, List.mem_map] at hcandidate
  obtain ⟨f, hf, heq⟩ := hcandidate
  exact ⟨f, hf, congrArg Prod.fst heq, hs.trans (congrArg _ (congrArg Prod.snd heq).symm)⟩

/-- What remains of a job's fragments after a survey was accepted by the layout. -/
theorem Course.remains (htidy : tools.Tidy) (h : Course tools job total fragments d d') {n : String}
    (hD : d'.files.look job.directory = .ok (D, .folder)) (hname : IsName n)
    (hn : job.classify n ≠ .foreign) (hthere : d'.files.node? (D ++ [n]) ≠ none) :
    ∃ f ∈ (Layout.ofFragments fragments total).accepted, f.path = job.directory.join ⟨n⟩ ∧
      job.classify n = .start f.start := by
  cases h with
  | @intro d₁ d₂ d₃ d₄ _ _ _ hprepared hcounted hlisted hprobed huncancelled hcleared hpaired _
      hthinned =>
    obtain ⟨D', hD₂, rfl⟩ := listFragments_ok hlisted
    have hmeasured := sameBut_measureAll htidy
      ((sortOut d₂.files job (d₂.files.names D')).candidates.map Prod.fst) d₂
    rw [hprobed] at hmeasured
    have hD₃ := hmeasured.look_folder_iff.2 hD₂
    obtain ⟨-, hcorrupt⟩ := delete_ok hcleared
    have hD₄ := hcorrupt.same.look_folder_iff.2 hD₃
    obtain ⟨-, hrejected⟩ := delete_ok hthinned
    obtain ⟨rfl, -⟩ := Prod.mk.inj (Except.ok.inj ((hrejected.same.look_folder_iff.2 hD₄).symm.trans hD))
    have hbefore : d₂.files.node? (D' ++ [n]) ≠ none := by
      intro hnone
      refine hthere (hrejected.less _ (hcorrupt.less _ ?_))
      exact (hmeasured.elsewhere _ (by simp)).trans hnone
    have hsound : job.directory.join ⟨n⟩ ∉ (sortOut d₂.files job (d₂.files.names D')).corrupt :=
      fun hbad => hthere (hrejected.less _ (hcorrupt.gone hD₃ hname hbad))
    obtain ⟨f, hf, hpath, hstart⟩ :=
      found_of_not_corrupt hprobed hpaired ((mem_names _ _ _).2 hbefore) hn hsound
    rcases List.mem_append.1 ((Layout.ofFragments_perm fragments total).mem_iff.2 hf) with
      haccepted | hrejects
    · exact ⟨f, haccepted, hpath, hstart⟩
    · exact absurd (hrejected.gone hD₄ hname (List.mem_map.2 ⟨f, hrejects, hpath⟩)) hthere

theorem Course.look (htidy : tools.Tidy) (h : Course tools job total fragments d d') :
    ∃ D, d'.files.look job.directory = .ok (D, .folder) := by
  cases h with
  | @intro d₁ d₂ d₃ d₄ _ listing _ hprepared hcounted hlisted hprobed huncancelled hcleared hpaired _
      hthinned =>
    obtain ⟨D, hD, -⟩ := listFragments_ok hlisted
    have hmeasured := sameBut_measureAll htidy (listing.candidates.map Prod.fst) d₂
    rw [hprobed] at hmeasured
    exact ⟨D, (delete_ok hthinned).2.same.look_folder_iff.2
      ((delete_ok hcleared).2.same.look_folder_iff.2 (hmeasured.look_folder_iff.2 hD))⟩

/-- The probe is prepared by writing two scripts. -/
theorem always_prepareProbe {R : Desk τ → Desk τ → Prop} (hR : Steady R) (job : Job)
    (hwrite : ∀ f, f = .script ∨ f = .frameCountScript → ∀ s (d : Desk τ) t,
      d.files.write (job.path f) s = .ok t → R d { d with files := t }) :
    Always R (prepareProbe job : Work τ JobFault Unit) := by
  have hchange : ∀ f, f = .script ∨ f = .frameCountScript → ∀ s (fault : FileFault → JobFault),
      Always R (Work.change (fun t => t.write (job.path f) s) fault : Work τ JobFault Unit) :=
    fun f hf s fault => always_change hR fault fun d t => hwrite f hf s d t
  refine .bind hR (always_look hR _ _) fun text => ?_
  dsimp only
  split
  · exact .bind hR (hchange _ (.inl rfl) _ _) fun _ => hchange _ (.inr rfl) _ _
  · exact hchange _ (.inr rfl) _ _

section Steps

variable {R : Desk τ → Desk τ → Prop} (hR : Steady R)

include hR

theorem always_delete (hremove : ∀ (d : Desk τ) p, R d { d with files := (d.files.removeHeld p).2 })
    (fault : Path → FileFault → JobFault) (ps : List Path) :
    Always R (delete fault ps : Work τ JobFault Unit) := by
  induction ps with
  | nil => exact .pure hR ()
  | cons p rest ih =>
    intro d
    rw [delete_cons]
    split
    · exact hR.trans (hremove d p) (ih { d with files := (d.files.removeHeld p).2 })
    · exact hremove d p

theorem always_measureAll (hmeasure : ∀ media, Always R (tools.mediaFrames media))
    (ps : List Path) (d : Desk τ) : R d (measureAll tools ps d).2 := by
  induction ps generalizing d with
  | nil => exact hR.refl d
  | cons p rest ih => exact hR.trans (hmeasure p d) (ih _)

theorem always_require {α : Type} (r : Except JobFault α) :
    Always R (require r : Work τ JobFault α) := by
  cases r with
  | ok a => exact .pure hR a
  | error fault => exact .throw hR fault

/-- A survey writes two scripts, looks at the flag, removes files, and calls no other tools than those
that count frames. -/
theorem always_survey_steps (job : Job) (hlook : ∀ d, R d d.looked)
    (hwrite : ∀ f, f = .script ∨ f = .frameCountScript → ∀ s (d : Desk τ) t,
      d.files.write (job.path f) s = .ok t → R d { d with files := t })
    (hremove : ∀ (d : Desk τ) p, R d { d with files := (d.files.removeHeld p).2 })
    (hcount : ∀ probe side, Always R (tools.scriptFrames probe side))
    (hmeasure : ∀ media, Always R (tools.mediaFrames media)) : Always R (job.survey tools) := by
  refine .bind hR (always_prepareProbe hR job hwrite) fun _ => ?_
  refine .bind hR (always_outcome (hcount _ _)) fun count => ?_
  refine .bind hR (fun d => ?_) fun listing => .bind hR (fun d => ?_) fun counts =>
    .bind hR (always_require hR _) fun total => .ite (.pure hR _) ?_
  · rw [list_run]
    exact hR.refl d
  · rw [mapM_mediaFrames_run]
    exact always_measureAll hR hmeasure _ d
  refine .bind hR (fun d => ?_) fun raised => .ite (.pure hR _) ?_
  · rw [isCancelled_run]
    exact hlook d
  refine .bind hR (always_delete hR hremove _ _) fun _ =>
    .bind hR (always_require hR _) fun fragments => .bind hR (always_require hR _) fun layout => ?_
  exact .bind hR (always_delete hR hremove _ _) fun _ => .pure hR _

end Steps

/-- A survey keeps what the tools that count frames keep. -/
theorem always_survey {Q : τ → τ → Prop} (hQ : Steady Q)
    (hcount : ∀ probe side, Always (OnTools Q) (tools.scriptFrames probe side))
    (hmeasure : ∀ media, Always (OnTools Q) (tools.mediaFrames media)) (job : Job) :
    Always (OnTools Q) (job.survey tools) :=
  always_survey_steps hQ.onTools job (fun d => hQ.refl d.tools) (fun _ _ _ d _ _ => hQ.refl d.tools)
    (fun d _ => hQ.refl d.tools) hcount hmeasure

end Survey

/-! ## The calls of a survey -/

/-- Did the call find out the frames of the fragment? What cannot be measured has none. -/
def ToolCall.Measures (c : ToolCall) (f : Fragment) : Prop :=
  ∃ r, c = .measured f.path r ∧ f.frames = r.toOption.getD 0

namespace Survey

variable {τ : Type} {tools : Toolbox τ} {job : Job} {d d' : Desk (Watched τ)} {total : Nat}
  {fragments : List Fragment}

theorem measureAll_calls (tools : Toolbox τ) (ps : List Path) (d : Desk (Watched τ)) :
    (measureAll tools.watched ps d).2.calls = d.calls ++
      (ps.zip (measureAll tools.watched ps d).1).map fun (p, r) => .measured p r := by
  induction ps generalizing d with
  | nil => simp [measureAll]
  | cons p rest ih =>
    have hone : (tools.watched.mediaFrames p d).2.calls =
        d.calls ++ [.measured p (tools.watched.mediaFrames p d).1] := Toolbox.mediaFrames_calls rfl
    rw [measureAll, ih, hone, List.zip_cons_cons, List.map_cons, List.append_assoc]
    rfl

/-- A survey counts the frames of the script and measures every fragment that it finds. -/
theorem Course.calls (h : Course tools.watched job total fragments d d') : ∃ measures,
    d'.calls = d.calls ++ .counted (job.path .frameCountScript) (job.path .frameCount) (.ok total) ::
      measures ∧ List.Forall₂ ToolCall.Measures measures fragments := by
  cases h with
  | @intro d₁ d₂ d₃ d₄ _ listing counts hprepared hcounted hlisted hprobed huncancelled hcleared
      hpaired _ hthinned =>
    have hd₁ : d₁.calls = d.calls := (congrArg Desk.calls (prepareProbe_ok hprepared).1).trans rfl
    have hd₂ := Toolbox.scriptFrames_calls hcounted
    have hd₃ := measureAll_calls tools (listing.candidates.map Prod.fst) d₂
    rw [hprobed] at hd₃
    dsimp only at hd₃
    have hd₄ : d₄.calls = d₃.calls := (congrArg Desk.calls (delete_ok hcleared).1).trans rfl
    have hd₅ : d'.calls = d₄.calls := (congrArg Desk.calls (delete_ok hthinned).1).trans rfl
    refine ⟨((listing.candidates.map Prod.fst).zip counts).map fun (p, r) => .measured p r, ?_, ?_⟩
    · rw [hd₅, hd₄, hd₃, hd₂, hd₁, List.append_assoc]
      rfl
    · rw [measured_ok hpaired, List.zip_map_left, List.map_map, List.forall₂_map_left_iff,
        List.forall₂_map_right_iff, List.forall₂_same]
      intro x _
      exact ⟨x.2, rfl, rfl⟩

end Survey

end Restoration
