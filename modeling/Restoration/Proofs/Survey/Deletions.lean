import Restoration.Proofs.Survey.Ends

/-!
# What a survey deletes

A survey writes scripts and deletes fragments of no use: those without a first frame in their names,
empty ones, and those that the layout has no room for. It deletes nothing at all before it knows the
number of frames:

    lost places  =  corrupt fragments  ++  rejected of the layout
-/

namespace Restoration

open FileTree Work

namespace Survey

variable {τ : Type} {tools : Toolbox τ} {job : Job} {d d₃ : Desk τ} {t' : FileTree} {q : Place}
  {n : String}

/-! ## What is found -/

namespace Finds

variable {total : Except ToolFault Nat} {listing : Listing} {counts : List (Except ToolFault Nat)}
  {p : Path} {ps : List Path}

section

variable (htidy : tools.Tidy)

include htidy

theorem same (h : Finds tools job d total listing counts d₃) :
    SameBut (fun _ => False) (count tools job d).2.files d₃.files := by
  have hmeasured := sameBut_measureAll htidy (listing.candidates.map Prod.fst)
    (count tools job d).2
  rwa [h.probed] at hmeasured

theorem ahead (h : Finds tools job d total listing counts d₃) :
    Ahead job d.files d₃.files :=
  (ahead_count htidy job d).trans (.of_side ((h.same htidy).mono fun _ => False.elim))

theorem listed_iff (h : Finds tools job d total listing counts d₃) :
    ∃ names, listing = sortOut (count tools job d).2.files job names ∧
      ∀ n, job.classify n ≠ .foreign → (n ∈ names ↔ ∃ q, Entry job d.files n q) := by
  obtain ⟨D, hD, hlisting⟩ := listFragments_ok h.listed
  refine ⟨_, hlisting, fun n hn => ?_⟩
  rw [← Entry.iff_mem_names hD]
  exact exists_congr fun q => (ahead_count htidy job d).entry_iff hn

variable (hnames : d.files.ProperNames)

include hnames

theorem mem_candidates_iff (h : Finds tools job d total listing counts d₃) {s : Nat} :
    (p, s) ∈ listing.candidates ↔ ∃ n q, Entry job d.files n q ∧ job.classify n = .start s ∧
      p = job.directory.join ⟨n⟩ ∧ d.files.isEmptyFile p = false := by
  obtain ⟨names, rfl, hlisted⟩ := h.listed_iff htidy
  rw [mem_candidates]
  refine exists_congr fun n => ?_
  constructor
  · rintro ⟨hmem, hn, rfl, hfull⟩
    have hfragment : job.classify n ≠ .foreign := by simp [hn]
    obtain ⟨q, hentry⟩ := (hlisted n hfragment).1 hmem
    have hname := hentry.isName hnames hfragment
    exact ⟨q, hentry, hn, rfl,
      (ahead_count htidy job d).isEmptyFile_eq hentry hname hfragment ▸ hfull⟩
  · rintro ⟨q, hentry, hn, rfl, hfull⟩
    have hfragment : job.classify n ≠ .foreign := by simp [hn]
    have hname := hentry.isName hnames hfragment
    exact ⟨(hlisted n hfragment).2 ⟨q, hentry⟩, hn, rfl,
      ((ahead_count htidy job d).isEmptyFile_eq hentry hname hfragment).trans hfull⟩

theorem mem_corrupt_iff (h : Finds tools job d total listing counts d₃) :
    p ∈ listing.corrupt ↔ ∃ n q, Entry job d.files n q ∧ Useless job d.files n ∧
      p = job.directory.join ⟨n⟩ := by
  obtain ⟨names, rfl, hlisted⟩ := h.listed_iff htidy
  rw [mem_corrupt]
  refine exists_congr fun n => ?_
  constructor
  · rintro ⟨hmem, rfl, huseless⟩
    have hfragment := Useless.not_foreign huseless
    obtain ⟨q, hentry⟩ := (hlisted n hfragment).1 hmem
    have hname := hentry.isName hnames hfragment
    rw [(ahead_count htidy job d).isEmptyFile_eq hentry hname hfragment] at huseless
    exact ⟨q, hentry, huseless, rfl⟩
  · rintro ⟨q, hentry, huseless, rfl⟩
    have hfragment := huseless.not_foreign
    have hname := hentry.isName hnames hfragment
    refine ⟨(hlisted n hfragment).2 ⟨q, hentry⟩, rfl, ?_⟩
    rw [(ahead_count htidy job d).isEmptyFile_eq hentry hname hfragment]
    exact huseless

theorem mem_rejects (h : Finds tools job d total listing counts d₃) {m : Nat}
    (hp : p ∈ rejects listing counts m) :
    ∃ n q, Entry job d.files n q ∧ job.classify n ≠ .foreign ∧ p = job.directory.join ⟨n⟩ := by
  obtain ⟨f, hf, rfl⟩ := List.mem_map.1 hp
  have hmem : f ∈ weighed listing.candidates counts :=
    (Layout.ofFragments_perm _ m).mem_iff.1 (List.mem_append_right _ hf)
  obtain ⟨⟨c, one⟩, hc, rfl⟩ := List.mem_map.1 hmem
  obtain ⟨n, q, hentry, hn, hpath, -⟩ :=
    (h.mem_candidates_iff htidy hnames).1 (List.of_mem_zip hc).1
  exact ⟨n, q, hentry, by simp [hn], hpath⟩

/-- Whatever is to be removed is an entry that is taken for a fragment. -/
theorem mem_removed (h : Finds tools job d total listing counts d₃) {m : Nat}
    (hp : p ∈ listing.corrupt ++ rejects listing counts m) :
    ∃ n q, Entry job d.files n q ∧ job.classify n ≠ .foreign ∧ p = job.directory.join ⟨n⟩ := by
  rcases List.mem_append.1 hp with hp | hp
  · obtain ⟨n, q, hentry, huseless, hpath⟩ := (h.mem_corrupt_iff htidy hnames).1 hp
    exact ⟨n, q, hentry, huseless.not_foreign, hpath⟩
  · exact h.mem_rejects htidy hnames hp

theorem corrupt_of_mem (h : Finds tools job d total listing counts d₃) (hp : p ∈ listing.corrupt)
    (hq : d.files.resolve p = .ok q) : Corrupt job d.files q := by
  obtain ⟨n, q', hentry, huseless, rfl⟩ := (h.mem_corrupt_iff htidy hnames).1 hp
  obtain rfl := hentry.place_eq (hentry.isName hnames huseless.not_foreign) hq
  exact ⟨n, hentry, huseless⟩

/-- Every entry is lost whose path is among those that were removed. -/
theorem loses (h : Finds tools job d total listing counts d₃) (hdeletes : Deletes ps d₃.files t')
    (hentry : Entry job d.files n q) (hn : job.classify n ≠ .foreign)
    (hp : job.directory.join ⟨n⟩ ∈ ps) : Loses job d.files t' q := by
  have hside := hentry.not_other hn (f := .frameCount) (by simp)
  have hname := hentry.isName hnames hn
  obtain ⟨D, hD, rfl, hthere⟩ := hentry
  exact ⟨hthere, hdeletes.gone ((h.ahead htidy).same.look_folder_iff.2 hD) hname hp, hside⟩

theorem loses_corrupt (h : Finds tools job d total listing counts d₃)
    (hdeletes : Deletes ps d₃.files t') (hsub : listing.corrupt ⊆ ps)
    (hq : Corrupt job d.files q) : Loses job d.files t' q := by
  obtain ⟨n, hentry, huseless⟩ := hq
  refine h.loses htidy hnames hdeletes hentry huseless.not_foreign (hsub ?_)
  exact (h.mem_corrupt_iff htidy hnames).2 ⟨n, q, hentry, huseless, rfl⟩

/-- Where only corrupt fragments were to be removed, they alone are lost. -/
theorem loses_corrupt_iff (h : Finds tools job d total listing counts d₃)
    {goal r : Except JobFault Progress} (hclears : Clears listing.corrupt goal r d₃.files t') :
    (∀ q, Loses job d.files t' q → Corrupt job d.files q) ∧
      (Removed r → r = goal ∧ ∀ q, Corrupt job d.files q → Loses job d.files t' q) := by
  obtain ⟨htakes, hdone⟩ := hclears
  refine ⟨fun q hq => ?_, fun hremoved => ?_⟩
  · obtain ⟨p, hp, hplace⟩ := (h.ahead htidy).lost htakes hq
    exact h.corrupt_of_mem htidy hnames hp hplace
  · obtain ⟨hr, hdeletes⟩ := hdone.resolve_left fun hheld => hheld.2 hremoved
    exact ⟨hr, fun q hq => h.loses_corrupt htidy hnames hdeletes (List.Subset.refl _) hq⟩

theorem loses_rejected (h : Finds tools job d total listing counts d₃) {m : Nat}
    (hdeletes : Deletes ps d₃.files t') (hsub : rejects listing counts m ⊆ ps)
    (hp : p ∈ rejects listing counts m) (hq : d.files.resolve p = .ok q) :
    Loses job d.files t' q := by
  obtain ⟨n, q', hentry, hn, rfl⟩ := h.mem_rejects htidy hnames hp
  obtain rfl := hentry.place_eq (hentry.isName hnames hn) hq
  exact h.loses htidy hnames hdeletes hentry hn (hsub hp)

end

end Finds

/-! ## What is lost -/

/-- What a survey does to any files. Only entries that are taken for fragments are lost, only the two
scripts are written, and the side file is left as the probe has left it. -/
structure Keeps (tools : Toolbox τ) (job : Job) (d : Desk τ) (t' : FileTree) : Prop where
  named : ∀ q, Loses job d.files t' q →
    ∃ n, Entry job d.files n q ∧ job.classify n ≠ .foreign
  written : ∀ q, t'.node? q ≠ d.files.node? q → Loses job d.files t' q ∨
    ∃ f ∈ writtenFiles, d.files.resolve (job.path f) = .ok q
  side : ∀ q, d.files.resolve (job.path .frameCount) = .ok q →
    t'.node? q = (count tools job d).2.files.node? q

theorem keeps_of_takes {t₃ : FileTree} {ps : List Path} (hnames : d.files.ProperNames)
    (hahead : Ahead job d.files t₃)
    (hsame : SameBut (fun _ => False) (count tools job d).2.files t₃) (htakes : Takes ps t₃ t')
    (hps : ∀ p ∈ ps, ∃ n q, Entry job d.files n q ∧ job.classify n ≠ .foreign ∧
      p = job.directory.join ⟨n⟩) : Keeps tools job d t' := by
  have hentry : ∀ p ∈ ps, ∀ q, d.files.resolve p = .ok q →
      ∃ n, Entry job d.files n q ∧ job.classify n ≠ .foreign := by
    intro p hp q hq
    obtain ⟨n, q', hentry, hn, rfl⟩ := hps p hp
    obtain rfl := hentry.place_eq (hentry.isName hnames hn) hq
    exact ⟨n, hentry, hn⟩
  refine ⟨fun q hq => ?_, fun q hq => ?_, fun q hq => ?_⟩
  · obtain ⟨p, hp, hplace⟩ := hahead.lost htakes hq
    exact hentry p hp q hplace
  · by_cases hfile : ∃ f ∈ writtenFiles, d.files.resolve (job.path f) = .ok q
    · exact .inr hfile
    have hahead' := hahead.same.elsewhere q hfile
    rcases htakes.left q with hkept | hgone
    · exact absurd (hkept.trans hahead') hq
    · refine .inl ⟨fun hnone => hq (hgone.trans hnone.symm), hgone, fun hside => hfile ?_⟩
      exact ⟨.frameCount, by simp [writtenFiles], hside⟩
  · refine (htakes.same.elsewhere q ?_).trans (hsame.elsewhere q id)
    rintro ⟨p, hp, hplace⟩
    obtain ⟨n, hentry, hn⟩ := hentry p hp q ((hahead.same.resolve_iff p q).1 hplace)
    exact hentry.not_other hn (f := .frameCount) (by simp) hq

/-- What a survey with the result `r` and the files `t'` behind it has done, in terms of the files
that it started with and the answers that it got. -/
structure Spares (tools : Toolbox τ) (job : Job) (d : Desk τ) (r : Except JobFault Progress)
    (t' : FileTree) : Prop extends Keeps tools job d t' where
  /-- Files can be removed, if the system can name them. -/
  removed : (∀ n q, Entry job d.files n q → job.classify n ≠ .foreign →
    d.files.node? q ≠ some .folder ∧ n.utf8ByteSize < nameBound) → Removed r
  /-- A survey that fails before it has found anything. -/
  failed : (∀ total listing counts d₃, ¬ Finds tools job d total listing counts d₃) →
    (∃ fault, r = .error fault) ∧ ∀ q, ¬ Loses job d.files t' q
  /-- The files that are measured are the fragments that are not corrupt. -/
  measures : ∀ {total listing counts d₃}, Finds tools job d total listing counts d₃ → ∀ p s,
    (p, s) ∈ listing.candidates ↔ ∃ n q, Entry job d.files n q ∧ job.classify n = .start s ∧
      p = job.directory.join ⟨n⟩ ∧ d.files.isEmptyFile p = false
  /-- A survey that does not learn the number of frames, or is asked to stop. -/
  unknown : ∀ {total listing counts d₃}, Finds tools job d total listing counts d₃ →
    total = .ok 0 ∨ (∃ fault, total = .error fault) ∨ d₃.isRaised = true →
    r = nothingKnown total ∧ ∀ q, ¬ Loses job d.files t' q
  /-- A survey that cannot measure fragments because the tool for it is missing. -/
  unmeasured : ∀ {total listing counts d₃}, Finds tools job d (.ok total) listing counts d₃ →
    0 < total → d₃.isRaised = false → Missing counts →
    (∀ q, Loses job d.files t' q → Corrupt job d.files q) ∧
      (Removed r → (∃ fault, .error fault ∈ counts ∧ fault.isMissing = true ∧
        r = .error (.fragmentProbe fault)) ∧ ∀ q, Corrupt job d.files q → Loses job d.files t' q)
  /-- A survey that breaks off because the end of a fragment that would be laid outgrows a word. -/
  outgrown : ∀ {total listing counts d₃}, Finds tools job d (.ok total) listing counts d₃ →
    0 < total → d₃.isRaised = false → ¬ Missing counts →
    Layout.ofFragments? (weighed listing.candidates counts) total = none →
    (∀ q, Loses job d.files t' q → Corrupt job d.files q) ∧
      (Removed r → r = .error .outgrown ∧ ∀ q, Corrupt job d.files q → Loses job d.files t' q)
  /-- A survey that goes its whole way. -/
  complete : ∀ {total listing counts d₃}, Finds tools job d (.ok total) listing counts d₃ →
    0 < total → d₃.isRaised = false → ¬ Missing counts →
    ∀ layout, Layout.ofFragments? (weighed listing.candidates counts) total = some layout →
    let useless q := Corrupt job d.files q ∨ ∃ f ∈ layout.rejected, d.files.resolve f.path = .ok q
    (∀ q, Loses job d.files t' q → useless q) ∧
      (Removed r → r = .ok (Progress.ofLayout total layout) ∧
        ∀ q, useless q → Loses job d.files t' q)

end Survey

open Survey

/-- **A survey spares what may be of use.** It deletes corrupt fragments and those that the layout has
no room for, and none as long as it does not know the number of frames. -/
theorem Job.survey_spares {τ : Type} {tools : Toolbox τ} (htidy : tools.Tidy) (job : Job)
    {d : Desk τ} (hnames : d.files.ProperNames) :
    Spares tools job d (job.survey tools d).1 (job.survey tools d).2.files := by
  have hcount : Ahead job d.files (count tools job d).2.files := ahead_count htidy job d
  rcases survey_cases tools job d with
    ⟨⟨fault, hfailed, hremoved⟩, hnothing⟩ | ⟨_, _, _, d₃, hfinds, -⟩
  · have hkeeps : Keeps tools job d (count tools job d).2.files :=
      keeps_of_takes hnames hcount (SameBut.refl _ _) (Takes.refl _) (by simp)
    rw [hfailed]
    -- the pair goes away first, since to compare its parts would run the survey
    dsimp only
    exact {
      toKeeps := hkeeps
      removed := fun _ => hremoved
      failed := fun _ => ⟨⟨fault, rfl⟩, hcount.kept⟩
      measures := fun h => absurd h (hnothing _ _ _ _)
      unknown := fun h => absurd h (hnothing _ _ _ _)
      unmeasured := fun h => absurd h (hnothing _ _ _ _)
      outgrown := fun h => absurd h (hnothing _ _ _ _)
      complete := fun h => absurd h (hnothing _ _ _ _) }
  obtain ⟨m, ps, hsub, htakes, hremoved⟩ := hfinds.takes
  refine {
    toKeeps := keeps_of_takes hnames (hfinds.ahead htidy) (hfinds.same htidy) htakes
      fun p hp => hfinds.mem_removed htidy hnames (hsub hp)
    removed := fun hfiles => hremoved.resolve_right ?removed
    failed := fun hnothing => absurd hfinds (hnothing _ _ _ _)
    measures := fun h p s => h.mem_candidates_iff htidy hnames
    unknown := fun h hunknown => ?unknown
    unmeasured := fun h hpos hraised hmissing => ?unmeasured
    outgrown := fun h hpos hraised hmeasured hnone => ?outgrown
    complete := fun h hpos hraised hmeasured layout hlayout => ?complete }
  case removed =>
    rintro ⟨p, hp, hstuck⟩
    obtain ⟨n, q, hentry, hn, rfl⟩ := hfinds.mem_removed htidy hnames (hsub hp)
    obtain ⟨hfile, hshort⟩ := hfiles n q hentry hn
    exact hentry.not_stuck (hentry.isName hnames hn) hfile hshort
      ((hfinds.ahead htidy).same.stuck_iff.1 hstuck)
  case unknown =>
    obtain ⟨hr, hfiles⟩ := h.leaves hunknown
    rw [hfiles]
    exact ⟨hr, (h.ahead htidy).kept⟩
  case unmeasured =>
    cases h.concludes hpos hraised with
    | missing hmem hfault hclears =>
      obtain ⟨hlost, hdone⟩ := h.loses_corrupt_iff htidy hnames hclears
      exact ⟨hlost, fun hremoved => ⟨⟨_, hmem, hfault, (hdone hremoved).1⟩, (hdone hremoved).2⟩⟩
    | outgrown hnone | laid hnone => exact absurd hmissing hnone
  case outgrown =>
    cases h.concludes hpos hraised with
    | missing hmem hfault => exact absurd ⟨_, hmem, hfault⟩ hmeasured
    | outgrown _ _ hclears => exact h.loses_corrupt_iff htidy hnames hclears
    | laid _ hfits =>
      rw [Layout.ofFragments?_eq, if_pos hfits] at hnone
      cases hnone
  case complete =>
    rw [Layout.ofFragments?_eq] at hlayout
    split at hlayout <;> cases hlayout
    next hfits =>
    cases h.concludes hpos hraised with
    | missing hmem hfault => exact absurd ⟨_, hmem, hfault⟩ hmeasured
    | outgrown _ hoverlong => exact absurd hfits hoverlong
    | laid _ _ hclears =>
      obtain ⟨htakes, hdone⟩ := hclears
      refine ⟨fun q hq => ?_, fun hremoved => ?_⟩
      · obtain ⟨p, hp, hplace⟩ := (h.ahead htidy).lost htakes hq
        rcases List.mem_append.1 hp with hp | hp
        · exact .inl (h.corrupt_of_mem htidy hnames hp hplace)
        · obtain ⟨f, hf, rfl⟩ := List.mem_map.1 hp
          exact .inr ⟨f, hf, hplace⟩
      · obtain ⟨hr, hdeletes⟩ := hdone.resolve_left fun hheld => hheld.2 hremoved
        refine ⟨hr, fun q hq => ?_⟩
        rcases hq with hq | ⟨f, hf, hplace⟩
        · exact h.loses_corrupt htidy hnames hdeletes (List.subset_append_left _ _) hq
        · exact h.loses_rejected htidy hnames hdeletes (List.subset_append_right _ _)
            (List.mem_map_of_mem hf) hplace

namespace Survey

/-- Tools that find four frames in scripts and two in fragments. -/
def fourFrameTools : Toolbox Unit where
  runScript _ _ := pure ()
  encode _ _ _ _ := pure ()
  scriptFrames _ _ := pure 4
  mediaFrames _ := pure 2
  join _ _ _ := pure ()

theorem tidy_fourFrameTools : fourFrameTools.Tidy where
  scriptFrames _ _ d := .refl _ d.files
  mediaFrames _ d := .refl _ d.files
  encode _ _ _ _ d := .refl _ d.files

/-- A job with a good fragment, an empty one and one without a number. -/
def litteredJob : Job := { source := ⟨"/clip.avi"⟩, directory := ⟨"/jobs"⟩, index := 1 }

def litteredDesk : Desk Unit where
  files := { nodes := [
    (["jobs"], .folder),
    (["jobs", "Job1_Script.avs"], .file "" false),
    (["jobs", "Job1_Output_0.mkv"], .file "frames" false),
    (["jobs", "Job1_Output_2.mkv"], .file "" false),
    (["jobs", "Job1_Output_x.mkv"], .file "frames" false),
    (["jobs", "Job2_Output_0.mkv"], .file "frames" false)] }
  tools := ()

theorem properNames_litteredDesk : litteredDesk.files.ProperNames :=
  properNames_of_nodes (by decide)

end Survey

/-- The good fragment is left, and the fragment of another job. -/
theorem Job.survey_spares_littered : fourFrameTools.Tidy ∧ litteredDesk.files.ProperNames ∧
    (litteredJob.survey fourFrameTools litteredDesk).2.files.names ["jobs"] =
      ["Job1_Script.avs", "Job1_Output_0.mkv", "Job2_Output_0.mkv", "Job1_FrameCount.avs"] ∧
    (litteredJob.survey fourFrameTools litteredDesk).1.toOption =
      some ⟨4, [⟨0, 1⟩], [⟨2, 3⟩], [⟨"/jobs/Job1_Output_0.mkv"⟩]⟩ ∧
    Spares fourFrameTools litteredJob litteredDesk
      (litteredJob.survey fourFrameTools litteredDesk).1
      (litteredJob.survey fourFrameTools litteredDesk).2.files :=
  ⟨tidy_fourFrameTools, properNames_litteredDesk, by decide +kernel, by decide +kernel,
    Job.survey_spares tidy_fourFrameTools litteredJob properNames_litteredDesk⟩

end Restoration
