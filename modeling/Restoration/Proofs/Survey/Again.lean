import Restoration.Proofs.FileTree.Distinct
import Restoration.Proofs.Frames.Listing
import Restoration.Proofs.Job.Names
import Restoration.Proofs.Survey.Deletions

/-!
# Surveys one after the other

A survey deletes whatever it has no use for, so the files that it leaves are those that it has laid.
The next survey finds these and no others, in any order, and lays them as they were laid before:

    candidates of the second survey  =  accepted of the first one        up to their order
-/

namespace Restoration

open FileTree Work

/-- Tidy tools whose side files are no second nodes at their places. -/
structure Toolbox.Orderly {τ : Type} (tools : Toolbox τ) : Prop extends tools.Tidy where
  distinct : ∀ probe side (d : Desk τ), d.files.Distinct →
    (tools.scriptFrames probe side d).2.files.Distinct

theorem Toolbox.Orderly.watched {τ : Type} {tools : Toolbox τ} (h : tools.Orderly) :
    tools.watched.Orderly where
  toTidy := h.toTidy.watched
  distinct probe side d := h.distinct probe side d.unwatched

/-- The script has `total` frames and a file those that `frames` tells, if the call asks for them. -/
def ToolCall.Tells (total : Nat) (frames : Path → Except ToolFault Nat) : ToolCall → Prop
  | counted _ _ r => r = .ok total
  | measured media r => r = frames media
  | _ => True

namespace Survey

variable {τ : Type} {tools : Toolbox τ} {job : Job} {d d' d₃ : Desk τ} {t t' : FileTree} {n : String}
  {q : Place} {p : Path}

/-! ## Preparing the probe once more -/

/-- Both scripts that a survey writes can be read. -/
structure Readable (job : Job) (t : FileTree) : Prop where
  script : ∃ s, t.readText (job.path .script) = .ok s
  probe : ∃ s, t.readText (job.path .frameCountScript) = .ok s

/-- The last step of the preparation. -/
def writeProbe (job : Job) : Work τ JobFault Unit :=
  Work.change (fun t => t.write (job.path .frameCountScript)
      (Script.frameCountProbe (job.path .script) (job.path .frameCount)).text)
    fun cause => .script (.file (job.path .frameCountScript) cause)

/-- Work on one file of a job leaves the text of the others as it was. -/
theorem readText_of_other {f g : JobFile} {s : String} (hne : g ≠ f)
    (h : SameBut (t.resolve (job.path f) = .ok ·) t t') (hread : t.readText (job.path g) = .ok s) :
    t'.readText (job.path g) = .ok s := by
  refine h.readText_eq hread fun q hg hf => ?_
  exact (Job.apart_path fun hname => hne (Job.fileName_inj hname).2).places hg hf rfl

theorem readable_of_writeProbe {s : String} (hscript : d.files.readText (job.path .script) = .ok s)
    (h : writeProbe job d = (.ok (), d')) : Readable job d'.files := by
  obtain ⟨t, hwrite, rfl⟩ := change_ok h
  exact ⟨⟨s, readText_of_other (by simp) (sameBut_write hwrite) hscript⟩,
    ⟨_, readText_of_write hwrite⟩⟩

theorem readable_of_prepareProbe (h : prepareProbe job d = (.ok (), d')) :
    Readable job d'.files := by
  obtain ⟨text, d₁, hlook, h⟩ := bind_ok h
  obtain ⟨hscript, rfl⟩ := look_ok hlook
  dsimp only at h
  split at h
  · obtain ⟨⟨⟩, d₂, hlift, h⟩ := bind_ok h
    obtain ⟨t, hwrite, rfl⟩ := change_ok hlift
    exact readable_of_writeProbe (readText_of_write hwrite) h
  · exact readable_of_writeProbe hscript h

theorem writeProbe_of_readable (h : ∃ s, d.files.readText (job.path .frameCountScript) = .ok s) :
    ∃ d', writeProbe job d = ((.ok (), d') : Except JobFault Unit × Desk τ) := by
  obtain ⟨s, hread⟩ := h
  obtain ⟨t, hwrite⟩ := exists_write_of_readText hread
    (Script.frameCountProbe (job.path .script) (job.path .frameCount)).text
  exact ⟨_, by rw [writeProbe, change_run, hwrite]⟩

/-- Where both scripts can be read, the probe can be prepared. -/
theorem prepareProbe_of_readable (h : Readable job d.files) :
    ∃ d', prepareProbe job d = (.ok (), d') := by
  obtain ⟨s, hscript⟩ := h.script
  obtain ⟨s', hprobe⟩ := h.probe
  rw [prepareProbe, bind_run, look_run, hscript]
  dsimp only
  split
  · obtain ⟨t, hwrite⟩ := exists_write_of_readText hscript (Script.parse s).unrestrict.text
    rw [bind_run, change_run, hwrite]
    exact writeProbe_of_readable ⟨s', readText_of_other (by simp) (sameBut_write hwrite) hprobe⟩
  · exact writeProbe_of_readable ⟨s', hprobe⟩

theorem Readable.of_sameBut {changed : Place → Prop} (h : Readable job t) (hsame : SameBut changed t t')
    (hscripts : ∀ f, f = .script ∨ f = .frameCountScript → ∀ q, t.resolve (job.path f) = .ok q →
      ¬ changed q) : Readable job t' := by
  obtain ⟨⟨s, hscript⟩, ⟨s', hprobe⟩⟩ := h
  exact ⟨⟨s, hsame.readText_eq hscript (hscripts _ (.inl rfl))⟩,
    ⟨s', hsame.readText_eq hprobe (hscripts _ (.inr rfl))⟩⟩

/-! ## What is listed -/

theorem count_ok {total : Except ToolFault Nat} (h : (count tools job d).1 = .ok total) :
    ∃ d₁, prepareProbe job d = (.ok (), d₁) ∧
      tools.scriptFrames (job.path .frameCountScript) (job.path .frameCount) d₁ =
        (total, (count tools job d).2) := by
  rcases hcount : count tools job d with ⟨r, d₂⟩
  rw [hcount] at h
  obtain rfl : r = .ok total := h
  obtain ⟨⟨⟩, d₁, hprepared, hcounted⟩ := bind_ok hcount
  exact ⟨d₁, hprepared, outcome_ok hcounted⟩

theorem count_of_prepared {d₁ : Desk τ} (h : prepareProbe job d = (.ok (), d₁)) :
    (count tools job d).1 =
      .ok (tools.scriptFrames (job.path .frameCountScript) (job.path .frameCount) d₁).1 := by
  rw [count, bind_run, h]
  rfl

/-- Counting adds no second node at a place. -/
theorem distinct_count (htools : tools.Orderly) (job : Job) (hd : d.files.Distinct) :
    (count tools job d).2.files.Distinct := by
  have hsteady : Steady fun d d' : Desk τ => d.files.Distinct → d'.files.Distinct :=
    ⟨fun _ => id, fun h h' hd => h' (h hd)⟩
  have hprepare : Always (fun d d' : Desk τ => d.files.Distinct → d'.files.Distinct)
      (prepareProbe job : Work τ JobFault Unit) :=
    always_prepareProbe hsteady job fun _ _ _ _ _ hwrite hd => hd.write hwrite
  have hcount : Always (fun d d' : Desk τ => d.files.Distinct → d'.files.Distinct)
      (count tools job) :=
    .bind hsteady hprepare fun _ => always_outcome (htools.distinct _ _)
  exact hcount d hd

/-- Different names that are taken for fragments make different paths. -/
theorem join_inj_of_classify {m : String} (hn : job.classify n ≠ .foreign)
    (hm : job.classify m ≠ .foreign) (h : job.directory.join ⟨n⟩ = job.directory.join ⟨m⟩) :
    n = m := by
  have hrelative : ∀ {k : String}, job.classify k ≠ .foreign → Path.isAbsolute ⟨k⟩ = false := by
    intro k hk
    obtain ⟨rest, hrest⟩ := Job.opens_of_stem (Job.stem_of_classify hk)
    simp [Path.isAbsolute, hrest]
  exact join_inj (hrelative hn) (hrelative hm) h

/-- No file is measured twice. -/
theorem nodup_candidates {names : List String} (h : names.Nodup) :
    ((sortOut t job names).candidates.map Prod.fst).Nodup := by
  rw [candidates_eq, List.map_filterMap]
  refine h.filterMap fun n m p hp hp' => ?_
  obtain ⟨⟨_, s⟩, hn, rfl⟩ := Option.map_eq_some_iff.1 hp
  obtain ⟨⟨_, s'⟩, hm, heq⟩ := Option.map_eq_some_iff.1 hp'
  obtain ⟨hstart, hpath, -⟩ := candidate?_eq_some.1 hn
  obtain ⟨hstart', hpath', -⟩ := candidate?_eq_some.1 hm
  have hpaths : job.directory.join ⟨n⟩ = job.directory.join ⟨m⟩ :=
    hpath.symm.trans (heq.symm.trans hpath')
  exact join_inj_of_classify (by simp [hstart]) (by simp [hstart']) hpaths

/-! ## What a survey leaves in the directory -/

theorem Ahead.properNames (h : Ahead job t t') (hnames : t.ProperNames) : t'.ProperNames := by
  intro folder n hthere
  by_cases hwritten : ∃ f ∈ writtenFiles, t.resolve (job.path f) = .ok (folder ++ [n])
  · obtain ⟨f, -, hplace⟩ := hwritten
    have hlast := getLast?_of_resolve_join (job.isName_fileName f) hplace
    rw [List.getLast?_concat] at hlast
    cases hlast
    exact job.slash_not_mem_fileName f
  · exact hnames folder n (h.same.elsewhere _ hwritten ▸ hthere)

theorem Entry.name_eq {m : String} (hn : Entry job t n q) (hm : Entry job t' m q) : n = m := by
  obtain ⟨D, -, rfl, -⟩ := hn
  obtain ⟨D', -, hplace, -⟩ := hm
  exact (List.append_inj_right' hplace rfl |> List.cons.inj).1

theorem Deletes.of_same {ps : List Path} {t'' : FileTree} (h : Deletes ps t t')
    (hsame : SameBut (fun _ => False) t' t'') : Deletes ps t t'' where
  same := h.same.trans (hsame.mono fun _ => False.elim)
  less q hq := (hsame.elsewhere q id).trans (h.less q hq)
  gone hfolder hn hp := (hsame.elsewhere _ id).trans (h.gone hfolder hn hp)

/-- The paths of the fragments that a layout has room for. -/
def accepts (listing : Listing) (counts : List (Except ToolFault Nat)) (total : Nat) : List Path :=
  (Layout.ofFragments (weighed listing.candidates counts) total).accepted.map Fragment.path

namespace Finds

variable {total : Except ToolFault Nat} {listing : Listing} {counts : List (Except ToolFault Nat)}
  {m : Nat}

theorem map_path_weighed (h : Finds tools job d total listing counts d₃) :
    (weighed listing.candidates counts).map Fragment.path = listing.candidates.map Prod.fst := by
  rw [weighed, List.map_map]
  calc _ = ((listing.candidates.zip counts).map Prod.fst).map Prod.fst := by
        rw [List.map_map]
        rfl
    _ = listing.candidates.map Prod.fst := by
        rw [List.map_fst_zip (Nat.le_of_eq h.length_eq)]

/-- What was measured is laid or turned away. -/
theorem paths_perm (h : Finds tools job d total listing counts d₃) (m : Nat) :
    (accepts listing counts m ++ rejects listing counts m).Perm
      (listing.candidates.map Prod.fst) := by
  have hperm := (Layout.ofFragments_perm (weighed listing.candidates counts) m).map Fragment.path
  rwa [List.map_append, h.map_path_weighed] at hperm

theorem nodup_paths (htools : tools.Orderly) (hd : d.files.Distinct)
    (h : Finds tools job d total listing counts d₃) :
    (listing.candidates.map Prod.fst).Nodup := by
  obtain ⟨D, -, rfl⟩ := listFragments_ok h.listed
  exact nodup_candidates ((distinct_count htools job hd).names D)

theorem start_of_measured (htidy : tools.Tidy) (hnames : d.files.ProperNames)
    (h : Finds tools job d total listing counts d₃) (hn : job.classify n ≠ .foreign)
    (hmem : job.directory.join ⟨n⟩ ∈ listing.candidates.map Prod.fst) :
    ∃ s, job.classify n = .start s ∧ (job.directory.join ⟨n⟩, s) ∈ listing.candidates ∧
      d.files.isEmptyFile (job.directory.join ⟨n⟩) = false := by
  obtain ⟨⟨p, s⟩, hcandidate, hp⟩ := List.mem_map.1 hmem
  obtain rfl : p = job.directory.join ⟨n⟩ := hp
  obtain ⟨k, q, -, hk, hpath, hfull⟩ := (h.mem_candidates_iff htidy hnames).1 hcandidate
  obtain rfl := join_inj_of_classify hn (by simp [hk]) hpath
  exact ⟨s, hk, hcandidate, hfull⟩

section

variable (htidy : tools.Tidy) (hnames : d.files.ProperNames)
  (hdeletes : Deletes (listing.corrupt ++ rejects listing counts m) d₃.files t')

include htidy hnames hdeletes

theorem properNames (h : Finds tools job d total listing counts d₃) : t'.ProperNames := by
  intro folder n hthere
  refine (h.ahead htidy).properNames hnames folder n fun hnone => ?_
  exact hthere (hdeletes.less _ hnone)

/-- The scripts stay readable. -/
theorem readable (h : Finds tools job d total listing counts d₃) : Readable job t' := by
  obtain ⟨d₁, hprepared, hcounted⟩ := count_ok h.counted
  have hcount := htidy.scriptFrames (job.path .frameCountScript) (job.path .frameCount) d₁
  rw [hcounted] at hcount
  dsimp only at hcount
  have hreadable : Readable job (count tools job d).2.files := by
    refine (readable_of_prepareProbe hprepared).of_sameBut hcount fun f hf q hq hside => ?_
    refine (Job.apart_path fun hname => ?_).places hq hside rfl
    obtain rfl := (Job.fileName_inj hname).2
    rcases hf with hf | hf <;> cases hf
  have hreadable₃ := hreadable.of_sameBut (h.same htidy) fun _ _ _ _ => id
  refine hreadable₃.of_sameBut hdeletes.same ?_
  rintro f hf q hq ⟨p, hp, hplace⟩
  obtain ⟨k, q', hentry, hk, rfl⟩ := h.mem_removed htidy hnames hp
  have hplace' := ((h.ahead htidy).same.resolve_iff _ q).1 hplace
  obtain rfl := hentry.place_eq (hentry.isName hnames hk) hplace'
  refine hentry.not_other hk ?_ (((h.ahead htidy).same.resolve_iff _ q).1 hq)
  rcases hf with rfl | rfl <;> simp

end

section

variable (htools : tools.Orderly) (hd : d.files.Distinct) (hnames : d.files.ProperNames)

include htools hd hnames

/-- Of the entries that are taken for fragments, those that are laid are not removed, and all others
are. -/
theorem not_mem_removed_iff (h : Finds tools job d total listing counts d₃)
    (hentry : Entry job d.files n q) (hn : job.classify n ≠ .foreign) :
    job.directory.join ⟨n⟩ ∉ listing.corrupt ++ rejects listing counts m ↔
      job.directory.join ⟨n⟩ ∈ accepts listing counts m := by
  have htidy := htools.toTidy
  have hnodup := (h.paths_perm m).nodup_iff.2 (h.nodup_paths htools hd)
  rw [List.mem_append, not_or]
  constructor
  · rintro ⟨hsound, hlaid⟩
    have huseful : ¬ Useless job d.files n := fun huseless =>
      hsound ((h.mem_corrupt_iff htidy hnames).2 ⟨n, q, hentry, huseless, rfl⟩)
    obtain ⟨s, hs⟩ : ∃ s, job.classify n = .start s := by
      cases hclass : job.classify n with
      | start s => exact ⟨s, rfl⟩
      | malformed => exact absurd (.inl hclass) huseful
      | foreign => exact absurd hclass hn
    have hfull : d.files.isEmptyFile (job.directory.join ⟨n⟩) = false :=
      Bool.eq_false_iff.2 fun hempty => huseful (.inr ⟨⟨s, hs⟩, hempty⟩)
    have hmeasured := (h.mem_candidates_iff htidy hnames).2 ⟨n, q, hentry, hs, rfl, hfull⟩
    have hmem := (h.paths_perm m).mem_iff.2 (List.mem_map_of_mem (f := Prod.fst) hmeasured)
    exact (List.mem_append.1 hmem).resolve_right hlaid
  · intro haccepted
    refine ⟨fun hcorrupt => ?_, fun hrejected => ?_⟩
    · have hmem := (h.paths_perm m).mem_iff.1 (List.mem_append_left _ haccepted)
      obtain ⟨s, hs, -, hfull⟩ := h.start_of_measured htidy hnames hn hmem
      obtain ⟨k, q', -, huseless, hpath⟩ := (h.mem_corrupt_iff htidy hnames).1 hcorrupt
      obtain rfl := join_inj_of_classify hn huseless.not_foreign hpath
      rcases huseless with hmalformed | ⟨-, hempty⟩
      · rw [hs] at hmalformed
        cases hmalformed
      · rw [hfull] at hempty
        cases hempty
    · exact (List.nodup_append.1 hnodup).2.2 _ haccepted _ hrejected rfl

/-- What is laid is left as it was. -/
theorem elsewhere (h : Finds tools job d total listing counts d₃)
    (hentry : Entry job d.files n q) (hn : job.classify n ≠ .foreign)
    (hlaid : job.directory.join ⟨n⟩ ∈ accepts listing counts m) :
    ¬ ∃ p ∈ listing.corrupt ++ rejects listing counts m, d₃.files.resolve p = .ok q := by
  rintro ⟨p, hp, hq⟩
  obtain ⟨k, q', hentry', hk, rfl⟩ := h.mem_removed htools.toTidy hnames hp
  have hq' := ((h.ahead htools.toTidy).same.resolve_iff _ q).1 hq
  obtain rfl := hentry'.place_eq (hentry'.isName hnames hk) hq'
  obtain rfl := hentry.name_eq hentry'
  exact (h.not_mem_removed_iff htools hd hnames hentry hn).2 hlaid hp

variable (hdeletes : Deletes (listing.corrupt ++ rejects listing counts m) d₃.files t')

include hdeletes

/-- After the survey those entries are there that are laid. -/
theorem entry_iff (h : Finds tools job d total listing counts d₃) (hn : job.classify n ≠ .foreign) :
    Entry job t' n q ↔
      Entry job d.files n q ∧ job.directory.join ⟨n⟩ ∈ accepts listing counts m := by
  have hahead := h.ahead htools.toTidy
  constructor
  · rintro ⟨D, hD, rfl, hthere⟩
    have hD₃ := hdeletes.same.look_folder_iff.1 hD
    have hentry : Entry job d.files n (D ++ [n]) :=
      (hahead.entry_iff hn).1 ⟨D, hD₃, rfl, fun hnone => hthere (hdeletes.less _ hnone)⟩
    refine ⟨hentry, (h.not_mem_removed_iff htools hd hnames hentry hn).1 fun hp => ?_⟩
    exact hthere (hdeletes.gone hD₃ (hentry.isName hnames hn) hp)
  · rintro ⟨hentry, hlaid⟩
    obtain ⟨D, hD, rfl, hthere⟩ := (hahead.entry_iff hn).2 hentry
    refine ⟨D, hdeletes.same.look_folder_iff.2 hD, rfl, ?_⟩
    rwa [hdeletes.same.elsewhere _ (h.elsewhere htools hd hnames hentry hn hlaid)]

theorem isEmptyFile_eq (h : Finds tools job d total listing counts d₃)
    (hentry : Entry job d.files n q) (hn : job.classify n ≠ .foreign)
    (hlaid : job.directory.join ⟨n⟩ ∈ accepts listing counts m) :
    t'.isEmptyFile (job.directory.join ⟨n⟩) = d.files.isEmptyFile (job.directory.join ⟨n⟩) := by
  have hahead := h.ahead htools.toTidy
  have hname := hentry.isName hnames hn
  refine (hdeletes.same.isEmptyFile_eq fun q' hq' => ?_).trans
    (hahead.isEmptyFile_eq hentry hname hn)
  rw [hentry.place_eq hname ((hahead.same.resolve_iff _ q').1 hq')]
  exact h.elsewhere htools hd hnames hentry hn hlaid

end

/-! ## What the next survey finds -/

section

variable {d₂ d₅ : Desk τ} {total₂ : Except ToolFault Nat} {listing₂ : Listing}
  {counts₂ : List (Except ToolFault Nat)} (htools : tools.Orderly) (hd : d.files.Distinct)
  (hnames : d.files.ProperNames) (h : Finds tools job d total listing counts d₃)
  (hdeletes : Deletes (listing.corrupt ++ rejects listing counts m) d₃.files d₂.files)
  (h₂ : Finds tools job d₂ total₂ listing₂ counts₂ d₅)

include htools hd hnames h hdeletes h₂

/-- The next survey finds nothing corrupt. -/
theorem corrupt_again : listing₂.corrupt = [] := by
  have htidy := htools.toTidy
  have hnames₂ := h.properNames htidy hnames hdeletes
  refine List.eq_nil_iff_forall_not_mem.2 fun p hp => ?_
  obtain ⟨n, q, hentry₂, huseless, rfl⟩ := (h₂.mem_corrupt_iff htidy hnames₂).1 hp
  have hn := huseless.not_foreign
  obtain ⟨hentry, hlaid⟩ := (h.entry_iff htools hd hnames hdeletes hn).1 hentry₂
  refine (h.not_mem_removed_iff htools hd hnames hentry hn).2 hlaid (List.mem_append_left _ ?_)
  refine (h.mem_corrupt_iff htidy hnames).2 ⟨n, q, hentry, ?_, rfl⟩
  rwa [Useless, h.isEmptyFile_eq htools hd hnames hdeletes hentry hn hlaid] at huseless

/-- The next survey measures what is laid. -/
theorem mem_candidates_again {s : Nat} : (p, s) ∈ listing₂.candidates ↔
    (p, s) ∈ listing.candidates ∧ p ∈ accepts listing counts m := by
  have htidy := htools.toTidy
  have hnames₂ := h.properNames htidy hnames hdeletes
  rw [h₂.mem_candidates_iff htidy hnames₂, h.mem_candidates_iff htidy hnames]
  constructor
  · rintro ⟨n, q, hentry₂, hs, rfl, hfull⟩
    have hn : job.classify n ≠ .foreign := by simp [hs]
    obtain ⟨hentry, hlaid⟩ := (h.entry_iff htools hd hnames hdeletes hn).1 hentry₂
    rw [h.isEmptyFile_eq htools hd hnames hdeletes hentry hn hlaid] at hfull
    exact ⟨⟨n, q, hentry, hs, rfl, hfull⟩, hlaid⟩
  · rintro ⟨⟨n, q, hentry, hs, rfl, hfull⟩, hlaid⟩
    have hn : job.classify n ≠ .foreign := by simp [hs]
    rw [← h.isEmptyFile_eq htools hd hnames hdeletes hentry hn hlaid] at hfull
    exact ⟨n, q, (h.entry_iff htools hd hnames hdeletes hn).2 ⟨hentry, hlaid⟩, hs, rfl, hfull⟩

end

end Finds

/-! ## What the next survey makes of it -/

variable {frames : Path → Except ToolFault Nat}

/-- A candidate with the frames that the tools tell. -/
def fragmentOf (frames : Path → Except ToolFault Nat) (c : Path × Nat) : Fragment :=
  ⟨c.1, c.2, (frames c.1).toOption.getD 0⟩

/-- What the tools tell of the candidates. -/
def answers (frames : Path → Except ToolFault Nat) (listing : Listing) :
    List (Except ToolFault Nat) :=
  listing.candidates.map fun c => frames c.1

theorem weighed_answers (frames : Path → Except ToolFault Nat) (listing : Listing) :
    weighed listing.candidates (answers frames listing) =
      listing.candidates.map (fragmentOf frames) := by
  rw [answers]
  induction listing.candidates with
  | nil => rfl
  | cons c rest ih =>
    rw [List.map_cons, List.map_cons, ← ih]
    rfl

/-- The fragments that are laid, once more. -/
theorem perm_accepted {candidates candidates₂ : List (Path × Nat)} {m : Nat}
    (hnodup : (candidates.map Prod.fst).Nodup) (hnodup₂ : (candidates₂.map Prod.fst).Nodup)
    (hmem : ∀ p s, (p, s) ∈ candidates₂ ↔ (p, s) ∈ candidates ∧
      p ∈ (Layout.ofFragments (candidates.map (fragmentOf frames)) m).accepted.map Fragment.path) :
    (candidates₂.map (fragmentOf frames)).Perm
      (Layout.ofFragments (candidates.map (fragmentOf frames)) m).accepted := by
  have hsub : ∀ f ∈ (Layout.ofFragments (candidates.map (fragmentOf frames)) m).accepted,
      ∃ c ∈ candidates, fragmentOf frames c = f := fun f hf =>
    List.mem_map.1 ((Layout.ofFragments_perm _ m).mem_iff.1 (List.mem_append_left _ hf))
  have hstarts := Layout.nodup_accepted_starts (candidates.map (fragmentOf frames)) m
  refine (List.perm_ext_iff_of_nodup ?_ hstarts.of_map).2 fun f => ?_
  · refine (List.Nodup.of_map Fragment.path ?_)
    rw [List.map_map]
    exact hnodup₂
  · constructor
    · intro hf
      obtain ⟨⟨p, s⟩, hc, rfl⟩ := List.mem_map.1 hf
      obtain ⟨hc, hp⟩ := (hmem p s).1 hc
      obtain ⟨g, hg, hpath⟩ := List.mem_map.1 hp
      obtain ⟨c', hc', rfl⟩ := hsub g hg
      obtain rfl := List.inj_on_of_nodup_map hnodup hc' hc hpath
      exact hg
    · intro hf
      obtain ⟨c, hc, rfl⟩ := hsub f hf
      exact List.mem_map_of_mem ((hmem c.1 c.2).2 ⟨hc, List.mem_map_of_mem hf⟩)

namespace Finds

variable {total total₂ : Except ToolFault Nat} {listing listing₂ : Listing} {d₂ d₅ : Desk τ} {m : Nat}
  (htools : tools.Orderly) (hd : d.files.Distinct) (hnames : d.files.ProperNames)
  (h : Finds tools job d total listing (answers frames listing) d₃)
  (hdeletes : Deletes (listing.corrupt ++ rejects listing (answers frames listing) m) d₃.files
    d₂.files)
  (h₂ : Finds tools job d₂ total₂ listing₂ (answers frames listing₂) d₅)

include htools hd hnames h hdeletes h₂

theorem not_missing_again (hmeasured : ¬ Missing (answers frames listing)) :
    ¬ Missing (answers frames listing₂) := by
  rintro ⟨fault, hfault, hmissing⟩
  obtain ⟨⟨p, s⟩, hc, hframes⟩ := List.mem_map.1 hfault
  obtain ⟨hc, -⟩ := (h.mem_candidates_again htools hd hnames hdeletes h₂).1 hc
  exact hmeasured ⟨fault, List.mem_map.2 ⟨(p, s), hc, hframes⟩, hmissing⟩

/-- The fragments that were laid are laid as they were. -/
theorem layout_again (hd₂ : d₂.files.Distinct) :
    Layout.ofFragments (weighed listing₂.candidates (answers frames listing₂)) m =
      { Layout.ofFragments (weighed listing.candidates (answers frames listing)) m with
        rejected := [] } := by
  have hmem : ∀ p s, (p, s) ∈ listing₂.candidates ↔ (p, s) ∈ listing.candidates ∧
      p ∈ accepts listing (answers frames listing) m :=
    fun p s => h.mem_candidates_again htools hd hnames hdeletes h₂
  simp only [weighed_answers, accepts] at hmem ⊢
  refine Layout.ofFragments_accepted_again m (perm_accepted (h.nodup_paths htools hd)
    (h₂.nodup_paths htools hd₂) hmem)

theorem removes_nothing (hd₂ : d₂.files.Distinct) :
    listing₂.corrupt ++ rejects listing₂ (answers frames listing₂) m = [] := by
  rw [h.corrupt_again htools hd hnames hdeletes h₂, rejects,
    h.layout_again htools hd hnames hdeletes h₂ hd₂]
  rfl

end Finds

/-! ## What the tools tell -/

/-- The tools tell these frames, no one asks the survey to stop, and no name is listed twice. -/
structure Undisturbed (tools : Toolbox τ) (job : Job) (total : Nat)
    (frames : Path → Except ToolFault Nat) (d : Desk (Watched τ)) : Prop where
  told : OnTools (Adds (·.Tells total frames)) d (job.survey tools.watched d).2
  unstopped : (job.survey tools.watched d).2.cancelled = false
  distinct : d.files.Distinct

/-- Nothing is asked of tools once the frames are known. -/
theorem always_conclude {Q : τ → τ → Prop} (hQ : Steady Q) (listing : Listing)
    (total : Except ToolFault Nat) (counts : List (Except ToolFault Nat)) :
    Always (OnTools Q) (conclude listing total counts) := by
  have hR := hQ.onTools
  have hremove : ∀ (d : Desk τ) p, OnTools Q d { d with files := (d.files.removeHeld p).2 } :=
    fun d _ => hQ.refl d.tools
  refine .bind hR (always_require hR _) fun total => .ite (.pure hR _) ?_
  refine .bind hR (fun d => hQ.refl d.tools) fun raised => .ite (.pure hR _) ?_
  refine .bind hR (always_delete hR hremove _ _) fun _ =>
    .bind hR (always_require hR _) fun fragments => .bind hR (always_require hR _) fun layout => ?_
  exact .bind hR (always_delete hR hremove _ _) fun _ => .pure hR _

namespace Finds

variable {total : Nat} {frames : Path → Except ToolFault Nat} {listing : Listing}
  {counts : List (Except ToolFault Nat)}

theorem calls {d d₃ : Desk (Watched τ)} {answer : Except ToolFault Nat}
    (h : Finds tools.watched job d answer listing counts d₃) :
    (job.survey tools.watched d).2.calls = d.calls ++
      .counted (job.path .frameCountScript) (job.path .frameCount) answer ::
        ((listing.candidates.map Prod.fst).zip counts).map fun c => .measured c.1 c.2 := by
  obtain ⟨d₁, hprepared, hcounted⟩ := count_ok h.counted
  have hd₁ : d₁.calls = d.calls := (congrArg Desk.calls (prepareProbe_ok hprepared).1).trans rfl
  have hd₂ := Toolbox.scriptFrames_calls hcounted
  have hd₃ := measureAll_calls tools (listing.candidates.map Prod.fst) (count tools.watched job d).2
  rw [h.probed] at hd₃
  have hlast : (conclude listing answer counts d₃).2.tools = d₃.tools :=
    (always_conclude ⟨fun _ => rfl, Eq.trans⟩ listing answer counts d₃).symm
  calc (job.survey tools.watched d).2.calls = d₃.calls := by
        rw [h.survey_eq]
        exact congrArg Prod.snd hlast
    _ = d.calls ++ _ := by
        rw [hd₃, hd₂, hd₁, List.append_assoc]
        rfl

/-- A survey finds what it is told. -/
theorem told {d d₃ : Desk (Watched τ)} {answer : Except ToolFault Nat}
    (h : Finds tools.watched job d answer listing counts d₃)
    (htold : OnTools (Adds (·.Tells total frames)) d (job.survey tools.watched d).2) :
    answer = .ok total ∧ counts = answers frames listing := by
  obtain ⟨new, hnew, hnews⟩ := htold
  obtain rfl := List.append_cancel_left (hnew.symm.trans h.calls)
  refine ⟨hnews _ List.mem_cons_self, ?_⟩
  have hlength : (listing.candidates.map Prod.fst).length = counts.length := by
    rw [List.length_map]
    exact h.length_eq
  have hpair : ∀ c ∈ (listing.candidates.map Prod.fst).zip counts, c.2 = frames c.1 := fun c hc =>
    hnews (.measured c.1 c.2) (List.mem_cons_of_mem _ (List.mem_map_of_mem hc))
  calc counts = ((listing.candidates.map Prod.fst).zip counts).map Prod.snd :=
        (List.map_snd_zip (Nat.le_of_eq hlength.symm)).symm
    _ = ((listing.candidates.map Prod.fst).zip counts).map (frames ∘ Prod.fst) :=
        List.map_congr_left hpair
    _ = (listing.candidates.map Prod.fst).map frames := by
        rw [← List.map_map, List.map_fst_zip (Nat.le_of_eq hlength)]
    _ = answers frames listing := List.map_map

/-- The flag is down where it is looked at. -/
theorem not_raised (h : Finds tools job d (.ok total) listing counts d₃) (hpos : 0 < total)
    (hflag : (job.survey tools d).2.cancelled = false) : d₃.isRaised = false := by
  by_contra hraised
  rw [h.survey_eq, conclude_run rfl, if_neg (Nat.ne_of_gt hpos), if_pos (by simpa using hraised)] at hflag
  exact hraised hflag

/-- A survey that ends well has laid what it measured and removed the rest. -/
theorem completes (h : Finds tools job d (.ok total) listing counts d₃) (hpos : 0 < total)
    (hraised : d₃.isRaised = false) {p : Progress} (hp : (job.survey tools d).1 = .ok p) :
    ¬ Missing counts ∧ (Layout.ofFragments (weighed listing.candidates counts) total).Fits ∧
      p = .ofLayout total (.ofFragments (weighed listing.candidates counts) total) ∧
      Deletes (listing.corrupt ++ rejects listing counts total) d₃.files
        (job.survey tools d).2.files := by
  have hremoved : Removed (job.survey tools d).1 := by simp [hp, Removed]
  cases h.concludes hpos hraised with
  | missing _ _ hclears | outgrown _ _ hclears =>
    obtain ⟨hr, -⟩ := hclears.done.resolve_left fun hheld => hheld.2 hremoved
    rw [hp] at hr
    cases hr
  | laid hmeasured hfits hclears =>
    obtain ⟨hr, hdeletes⟩ := hclears.done.resolve_left fun hheld => hheld.2 hremoved
    rw [hp] at hr
    exact ⟨hmeasured, hfits, Except.ok.inj hr, hdeletes⟩

/-- A survey that has nothing to remove ends well. -/
theorem completes_of_nil (h : Finds tools job d (.ok total) listing counts d₃) (hpos : 0 < total)
    (hraised : d₃.isRaised = false) (htidy : tools.Tidy) (hmeasured : ¬ Missing counts)
    (hfits : (Layout.ofFragments (weighed listing.candidates counts) total).Fits)
    (hnil : listing.corrupt ++ rejects listing counts total = []) :
    (job.survey tools d).1 =
        .ok (.ofLayout total (.ofFragments (weighed listing.candidates counts) total)) ∧
      Ahead job d.files (job.survey tools d).2.files := by
  cases h.concludes hpos hraised with
  | missing hmem hmissing => exact absurd ⟨_, hmem, hmissing⟩ hmeasured
  | outgrown _ hoverlong => exact absurd hfits hoverlong
  | laid _ _ hclears =>
    rw [hnil] at hclears
    refine ⟨?_, (h.ahead htidy).trans (.of_side (hclears.takes.same.mono fun q hq => ?_))⟩
    · rcases hclears.done with ⟨⟨p, hp, -⟩, -⟩ | ⟨hr, -⟩
      · cases hp
      · exact hr
    · obtain ⟨p, hp, -⟩ := hq
      cases hp

end Finds

theorem listFragments_of_look {D : Place} (h : t.look job.directory = .ok (D, .folder)) :
    listFragments t job = .ok (sortOut t job (t.names D)) := by
  rw [listFragments, list_of_look h]

/-- Where both scripts can be read, a survey of a folder finds something. -/
theorem finds_of_readable (htidy : tools.Tidy) (hreadable : Readable job d.files) {D : Place}
    (hD : d.files.look job.directory = .ok (D, .folder)) :
    ∃ total listing counts d₃, Finds tools job d total listing counts d₃ := by
  obtain ⟨d₁, hprepared⟩ := prepareProbe_of_readable hreadable
  have hD₂ := (ahead_count htidy job d).same.look_folder_iff.2 hD
  obtain ⟨listing, hlisted⟩ : ∃ listing, listFragments (count tools job d).2.files job = .ok listing :=
    ⟨_, listFragments_of_look hD₂⟩
  exact ⟨_, listing, _, _, count_of_prepared hprepared, hlisted, rfl⟩

end Survey

open Survey

/-- **A second survey finds what the first one has found.** If nothing changes between the two but the
order in which the directory is listed, and the tools tell the same frames, then the second survey
has the same result and removes nothing. -/
theorem Job.survey_again {τ : Type} {tools : Toolbox τ} (htools : tools.Orderly) (job : Job)
    {total : Nat} (hpos : 0 < total) {frames : Path → Except ToolFault Nat} {p : Progress}
    {d d₂ : Desk (Watched τ)} (hnames : d.files.ProperNames)
    (h : Undisturbed tools job total frames d) (hp : (job.survey tools.watched d).1 = .ok p)
    (hsame : SameBut (fun _ => False) (job.survey tools.watched d).2.files d₂.files)
    (h₂ : Undisturbed tools job total frames d₂) :
    (job.survey tools.watched d₂).1 = .ok p ∧
      Ahead job d₂.files (job.survey tools.watched d₂).2.files := by
  have hwatched := htools.watched
  have htidy := hwatched.toTidy
  rcases survey_cases tools.watched job d with
    ⟨⟨fault, hfailed, -⟩, -⟩ | ⟨answer, listing, counts, d₃, hfinds, -⟩
  · rw [hfailed] at hp
    cases hp
  obtain ⟨rfl, rfl⟩ := hfinds.told h.told
  obtain ⟨hmeasured, hfits, rfl, hdeletes⟩ :=
    hfinds.completes hpos (hfinds.not_raised hpos h.unstopped) hp
  have hdeletes := hdeletes.of_same hsame
  -- the second survey finds something
  obtain ⟨D, hD⟩ : ∃ D, d₂.files.look job.directory = .ok (D, .folder) := by
    obtain ⟨D, hD, -⟩ := listFragments_ok hfinds.listed
    exact ⟨D, hdeletes.same.look_folder_iff.2 ((hfinds.same htidy).look_folder_iff.2 hD)⟩
  obtain ⟨answer, listing₂, counts₂, d₅, hfinds₂⟩ :=
    finds_of_readable htidy (hfinds.readable htidy hnames hdeletes) hD
  obtain ⟨rfl, rfl⟩ := hfinds₂.told h₂.told
  have hlayout := hfinds.layout_again hwatched h.distinct hnames hdeletes hfinds₂ h₂.distinct
  have hends := hfinds₂.completes_of_nil hpos (hfinds₂.not_raised hpos h₂.unstopped) htidy
    (hfinds.not_missing_again hwatched h.distinct hnames hdeletes hfinds₂ hmeasured)
    (by rw [hlayout]; exact hfits)
    (hfinds.removes_nothing hwatched h.distinct hnames hdeletes hfinds₂ h₂.distinct)
  rwa [hlayout] at hends

namespace Survey

theorem orderly_fourFrameTools : fourFrameTools.Orderly where
  toTidy := tidy_fourFrameTools
  distinct _ _ _ h := h

theorem told_fourFrames (job : Job) (d : Desk (Watched Unit)) :
    OnTools (Adds (·.Tells 4 fun _ => .ok 2)) d (job.survey fourFrameTools.watched d).2 :=
  always_survey (steady_adds _) (fun probe side _ => ⟨[.counted probe side (.ok 4)], rfl, by
    simp [ToolCall.Tells]⟩) (fun media _ => ⟨[.measured media (.ok 2)], rfl, by
    simp [ToolCall.Tells]⟩) job d

/-- The desk that the first survey leaves, with its files the other way round. -/
def relistedDesk : Desk (Watched Unit) :=
  let d := (litteredJob.survey fourFrameTools.watched litteredDesk.watched).2
  { d with files := { d.files with nodes := d.files.nodes.reverse } }

end Survey

/-- The good fragment is found again, though the directory is listed from its end. -/
theorem Job.survey_again_littered :
    Undisturbed fourFrameTools litteredJob 4 (fun _ => .ok 2) litteredDesk.watched ∧
      Undisturbed fourFrameTools litteredJob 4 (fun _ => .ok 2) relistedDesk ∧
      (litteredJob.survey fourFrameTools.watched relistedDesk).1 =
        .ok ⟨4, [⟨0, 1⟩], [⟨2, 3⟩], [⟨"/jobs/Job1_Output_0.mkv"⟩]⟩ := by
  have hfirst : Undisturbed fourFrameTools litteredJob 4 (fun _ => .ok 2) litteredDesk.watched :=
    ⟨told_fourFrames _ _, by decide +kernel, by decide⟩
  have hdistinct : (litteredJob.survey fourFrameTools.watched litteredDesk.watched).2.files.Distinct :=
      by decide +kernel
  obtain ⟨hrelisted, hsame⟩ : relistedDesk.files.Distinct ∧ SameBut (fun _ => False)
      (litteredJob.survey fourFrameTools.watched litteredDesk.watched).2.files relistedDesk.files :=
    hdistinct.sameBut_of_perm rfl (List.reverse_perm _)
  have hsecond : Undisturbed fourFrameTools litteredJob 4 (fun _ => .ok 2) relistedDesk :=
    ⟨told_fourFrames _ _, by decide +kernel, hrelisted⟩
  exact ⟨hfirst, hsecond, (Job.survey_again orderly_fourFrameTools litteredJob (by decide)
    properNames_litteredDesk hfirst (by decide +kernel) hsame hsecond).1⟩

end Restoration
