import Restoration.Proofs.FileTree.Removal
import Restoration.Proofs.Job.Path

/-!
# A job's directory during a survey

The entries of a job's directory are sorted by their names. Ahead of its listing a survey writes files
of the job that are no fragments, so entries that are taken for fragments stay as they were:

    Ahead job t t'  →  (Entry job t' n q ↔ Entry job t n q)        unless n is foreign
-/

namespace Restoration

open FileTree

namespace FileTree

/-- No name in the tree has a separator in it. -/
def ProperNames (t : FileTree) : Prop :=
  ∀ (folder : Place) (n : String), t.node? (folder ++ [n]) ≠ none → '/' ∉ n.toList

theorem properNames_of_nodes {t : FileTree}
    (h : ∀ e ∈ t.nodes, ∀ n ∈ e.1.getLast?, '/' ∉ n.toList) :
    t.ProperNames := by
  intro folder n hnode
  rw [node?_of_ne_nil _ (by simp), ← Option.isSome_iff_ne_none, lookup_isSome_iff] at hnode
  obtain ⟨e, he, hplace⟩ := hnode
  exact h e he n (by simp [hplace])

end FileTree

namespace Survey

variable {job : Job} {t t' t'' : FileTree} {q : Place} {n : String}

/-! ## Losses -/

/-- Something stood at the place and is gone. The side file of the probe does not count, since it
belongs to the tool. -/
def Loses (job : Job) (t t' : FileTree) (q : Place) : Prop :=
  t.node? q ≠ none ∧ t'.node? q = none ∧ t.resolve (job.path .frameCount) ≠ .ok q

/-- The files of a job that are written in a survey: two scripts, and the side file of the probe. -/
def writtenFiles : List JobFile := [.script, .frameCountScript, .frameCount]

/-- Files were written, and nothing was lost. -/
structure Ahead (job : Job) (t t' : FileTree) : Prop where
  same : SameBut (fun q => ∃ f ∈ writtenFiles, t.resolve (job.path f) = .ok q) t t'
  kept : ∀ q, ¬ Loses job t t' q

namespace Ahead

theorem refl (job : Job) (t : FileTree) : Ahead job t t :=
  ⟨.refl _ t, fun _ h => h.1 h.2.1⟩

theorem trans (h : Ahead job t t') (h' : Ahead job t' t'') : Ahead job t t'' where
  same := by
    refine h.same.trans (h'.same.mono ?_)
    rintro q ⟨f, hf, hq⟩
    exact ⟨f, hf, (h.same.resolve_iff _ q).1 hq⟩
  kept q := by
    rintro ⟨hthere, hgone, hside⟩
    by_cases hq : t'.node? q = none
    · exact h.kept q ⟨hthere, hq, hside⟩
    · exact h'.kept q ⟨hq, hgone, fun hs => hside ((h.same.resolve_iff _ q).1 hs)⟩

theorem write {f : JobFile} {s : String} (hf : f ∈ writtenFiles)
    (h : t.write (job.path f) s = .ok t') : Ahead job t t' where
  same := (sameBut_write h).mono fun _ hq => ⟨f, hf, hq⟩
  kept q := by
    obtain ⟨place, x, -, hnode, -, rfl⟩ := write_ok h
    rintro ⟨hthere, hgone, -⟩
    rw [node?_put (ne_nil_of_not_folder hnode)] at hgone
    split at hgone
    · cases hgone
    · exact hthere hgone

/-- A tool that writes the side file alone. -/
theorem of_side (h : SameBut (t.resolve (job.path .frameCount) = .ok ·) t t') : Ahead job t t' where
  same := h.mono fun _ hq => ⟨.frameCount, by simp [writtenFiles], hq⟩
  kept q := fun ⟨hthere, hgone, hside⟩ => hthere ((h.elsewhere q hside).symm.trans hgone)

end Ahead

/-! ## Entries -/

/-- Something stands under the name `n` in the job's directory, at the place `q`. -/
def Entry (job : Job) (t : FileTree) (n : String) (q : Place) : Prop :=
  ∃ D, t.look job.directory = .ok (D, .folder) ∧ q = D ++ [n] ∧ t.node? q ≠ none

namespace Entry

/-- What is taken for a fragment does not stand at the place of a file that is none. -/
theorem not_other (h : Entry job t n q) (hn : job.classify n ≠ .foreign) {f : JobFile}
    (hf : ∀ m, f ≠ .fragment m) : t.resolve (job.path f) ≠ .ok q := by
  intro hq
  obtain ⟨D, hD, rfl, -⟩ := h
  have hname : n = job.fileName f := by simpa using Job.place_of_path hD hq
  exact hn (hname ▸ job.classify_fileName hf)

theorem isName (h : Entry job t n q) (hnames : t.ProperNames) (hn : job.classify n ≠ .foreign) :
    IsName n := by
  obtain ⟨D, -, rfl, hthere⟩ := h
  exact Job.isName_of_stem (Job.stem_of_classify hn) (hnames D n hthere)

theorem place_eq {q' : Place} (h : Entry job t n q) (hname : IsName n)
    (hq' : t.resolve (job.directory.join ⟨n⟩) = .ok q') : q' = q := by
  obtain ⟨D, hD, rfl, -⟩ := h
  exact place_of_resolve_join hD hname hq'

/-- A file under a name that is not too long can be removed. -/
theorem not_stuck (h : Entry job t n q) (hname : IsName n) (hfile : t.node? q ≠ some .folder)
    (hshort : n.utf8ByteSize < nameBound) : ¬ t.Stuck (job.directory.join ⟨n⟩) := by
  obtain ⟨D, hD, rfl, -⟩ := h
  obtain ⟨hplace, hfolder⟩ := look_folder_iff.1 hD
  have hstep := (resolve_join hplace hname).trans (step_name hfolder hname)
  rw [if_neg (Nat.not_le.2 hshort)] at hstep
  exact fun hstuck =>
    hfile (hstuck _ hstep (asksForFolder_join (text_ne_empty_of_resolve hplace) hname))

theorem iff_mem_names {D : Place} (hD : t.look job.directory = .ok (D, .folder)) :
    (∃ q, Entry job t n q) ↔ n ∈ t.names D := by
  rw [mem_names]
  constructor
  · rintro ⟨q, D', hD', rfl, hthere⟩
    cases hD.symm.trans hD'
    exact hthere
  · exact fun hthere => ⟨_, D, hD, rfl, hthere⟩

end Entry

/-- Work on files of the job that are no fragments does not touch what is taken for one. -/
theorem Entry.iff_of_sameBut {changed : Place → Prop} (h : SameBut changed t t')
    (hchanged : ∀ q, changed q →
      ∃ f, (∀ m, f ≠ JobFile.fragment m) ∧ t.resolve (job.path f) = .ok q)
    (hn : job.classify n ≠ .foreign) : Entry job t' n q ↔ Entry job t n q := by
  constructor
  · intro hentry
    have helsewhere : ¬ changed q := by
      intro hq
      obtain ⟨f, hf, hplace⟩ := hchanged q hq
      exact hentry.not_other hn hf ((h.resolve_iff _ q).2 hplace)
    obtain ⟨D, hD, hq, hthere⟩ := hentry
    exact ⟨D, h.look_folder_iff.1 hD, hq, h.elsewhere q helsewhere ▸ hthere⟩
  · intro hentry
    have helsewhere : ¬ changed q := by
      intro hq
      obtain ⟨f, hf, hplace⟩ := hchanged q hq
      exact hentry.not_other hn hf hplace
    obtain ⟨D, hD, hq, hthere⟩ := hentry
    exact ⟨D, h.look_folder_iff.2 hD, hq, (h.elsewhere q helsewhere).symm ▸ hthere⟩

theorem ne_fragment_of_written {f : JobFile} (hf : f ∈ writtenFiles) (m : Nat) : f ≠ .fragment m := by
  rintro rfl
  simp [writtenFiles] at hf

/-- Ahead of a listing, no fragment is touched. -/
theorem Ahead.entry_iff (h : Ahead job t t') (hn : job.classify n ≠ .foreign) :
    Entry job t' n q ↔ Entry job t n q :=
  Entry.iff_of_sameBut h.same (fun _ ⟨f, hf, hq⟩ => ⟨f, ne_fragment_of_written hf, hq⟩) hn

theorem Ahead.isEmptyFile_eq (h : Ahead job t t') (hentry : Entry job t n q) (hname : IsName n)
    (hn : job.classify n ≠ .foreign) :
    t'.isEmptyFile (job.directory.join ⟨n⟩) = t.isEmptyFile (job.directory.join ⟨n⟩) := by
  refine h.same.isEmptyFile_eq fun q' hq' => ?_
  rw [hentry.place_eq hname hq']
  exact fun ⟨f, hf, hq⟩ => hentry.not_other hn (ne_fragment_of_written hf) hq

/-- Is the entry of no use by its name or for its emptiness? Files of which nothing can be told are
taken for empty. -/
def Useless (job : Job) (t : FileTree) (n : String) : Prop :=
  job.classify n = .malformed ∨
    (∃ s, job.classify n = .start s) ∧ t.isEmptyFile (job.directory.join ⟨n⟩) = true

theorem Useless.not_foreign (h : Useless job t n) : job.classify n ≠ .foreign := by
  rcases h with h | ⟨⟨s, h⟩, -⟩ <;> simp [h]

/-- Does a corrupt fragment of the job stand at the place? -/
def Corrupt (job : Job) (t : FileTree) (q : Place) : Prop :=
  ∃ n, Entry job t n q ∧ Useless job t n

theorem Ahead.lost {t₃ : FileTree} {ps : List Path} (h : Ahead job t t₃) (htakes : Takes ps t₃ t')
    (hq : Loses job t t' q) : ∃ p ∈ ps, t.resolve p = .ok q := by
  obtain ⟨hthere, hgone, hside⟩ := hq
  obtain ⟨p, hp, hq⟩ := htakes.lost (fun hlost => h.kept q ⟨hthere, hlost, hside⟩) hgone
  exact ⟨p, hp, (h.same.resolve_iff p q).1 hq⟩

end Survey

end Restoration
