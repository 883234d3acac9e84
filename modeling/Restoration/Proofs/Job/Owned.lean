import Restoration.Proofs.FileTree.Making
import Restoration.Proofs.Job.Names

/-!
# Names that a job owns

A job owns the names of all its files but the delivery, and whatever else may be taken for a script
of one of its chunks or for one of its fragments. Jobs with different indices own different names,
even where one index starts with the digits of the other:

    j.Owns n   →   k.Owns n   →   j.index = k.index
-/

namespace Restoration

open FileTree

namespace Job

variable {j k : Job} {name : String} {f : JobFile}

/-- The files of a job that are there once at most, but for its delivery. -/
def ownFiles : List JobFile :=
  [.script, .motionScript, .motionLog, .frameCountScript, .frameCount, .concatList, .record]

/-- Is it the name of a file that only this job uses, and has no use for once it is finished? -/
def Owns (j : Job) (name : String) : Prop :=
  (∃ f ∈ ownFiles, name = j.fileName f) ∨ j.isChunkScript name = true ∨ j.classify name ≠ .foreign

instance (j : Job) : DecidablePred j.Owns := fun _ => inferInstanceAs (Decidable (_ ∨ _ ∨ _))

theorem isChunkScript_iff : j.isChunkScript name = true ↔
    (j.stem ++ "Script_").toList <+: name.toList ∧ ".avs".toList <:+ name.toList := by
  rw [isChunkScript, Bool.and_eq_true, List.isPrefixOf_iff_prefix, List.isSuffixOf_iff_suffix]

/-- The delivery is the only file of a job that it does not own. -/
theorem owns_fileName (hf : f ≠ .delivery) : j.Owns (j.fileName f) := by
  cases f with
  | delivery => exact absurd rfl hf
  | fragment n => exact .inr (.inr (j.classify_fragment_ne n))
  | chunkScript n =>
    refine .inr (.inl (isChunkScript_iff.2 ⟨?_, ?_⟩))
    · simp only [fileName, String.toList_append, List.append_assoc]
      simp
    · simp only [fileName, String.toList_append]
      exact List.suffix_append _ _
  | _ => exact .inl ⟨_, by simp [ownFiles], rfl⟩

theorem stem_of_isChunkScript (h : j.isChunkScript name = true) : j.stem.toList <+: name.toList := by
  have hlead := (isChunkScript_iff.1 h).1
  rw [String.toList_append] at hlead
  exact (List.prefix_append _ _).trans hlead

theorem Owns.stem (h : j.Owns name) : j.stem.toList <+: name.toList := by
  rcases h with ⟨f, -, rfl⟩ | h | h
  · exact j.stem_fileName f
  · exact stem_of_isChunkScript h
  · exact stem_of_classify h

theorem Owns.isName (h : j.Owns name) (hname : Nameable name) : IsName name :=
  isName_of_stem h.stem hname.slash

theorem not_owns_delivery (j : Job) : ¬ j.Owns (j.fileName .delivery) := by
  rintro (⟨f, hf, hname⟩ | h | h)
  · obtain ⟨-, rfl⟩ := fileName_inj hname
    simp [ownFiles] at hf
  · obtain ⟨rest, hrest⟩ := (isChunkScript_iff.1 h).1
    rw [fileName_eq, String.toList_append, String.toList_append, List.append_assoc] at hrest
    have htail := List.append_cancel_left hrest
    simp [tail] at htail
  · exact h (j.classify_fileName (by simp))

/-- The jobs have the same files. -/
structure Alike (j k : Job) : Prop where
  directory : j.directory = k.directory
  index : j.index = k.index
  container : j.delivery.container = k.delivery.container

namespace Alike

theorem refl (j : Job) : j.Alike j := ⟨rfl, rfl, rfl⟩

theorem trans {i : Job} (h : i.Alike j) (h' : j.Alike k) : i.Alike k :=
  ⟨h.directory.trans h'.directory, h.index.trans h'.index, h.container.trans h'.container⟩

theorem symm (h : j.Alike k) : k.Alike j := ⟨h.directory.symm, h.index.symm, h.container.symm⟩

theorem fileName (h : j.Alike k) (f : JobFile) : j.fileName f = k.fileName f := by
  rw [fileName_eq, fileName_eq, stem_of_index h.index, h.container]

theorem path (h : j.Alike k) (f : JobFile) : j.path f = k.path f := by
  rw [Job.path, Job.path, h.fileName, h.directory]

theorem classify (h : j.Alike k) : j.classify = k.classify := by
  funext name
  simp only [Job.classify, fragmentStem, extension, stem_of_index h.index, h.container]

theorem owns (h : j.Alike k) : j.Owns = k.Owns := by
  funext name
  simp only [Owns, h.fileName, h.classify, isChunkScript, stem_of_index h.index]

end Alike

/-- A file with such a name is the job's own or its delivery. -/
def Claims (j : Job) (name : String) : Prop := j.Owns name ∨ name = j.fileName .delivery

theorem Claims.stem (h : j.Claims name) : j.stem.toList <+: name.toList := by
  rcases h with h | rfl
  · exact h.stem
  · exact j.stem_fileName .delivery

/-- **No two jobs claim one name**, unless they have one index. -/
theorem index_of_claims (hj : j.Claims name) (hk : k.Claims name) : j.index = k.index :=
  index_of_stem hj.stem hk.stem

end Job

end Restoration
