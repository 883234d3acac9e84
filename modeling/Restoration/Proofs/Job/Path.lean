import Restoration.Proofs.FileTree.Join
import Restoration.Proofs.Job.FileName

/-!
# Where a job's files lie

The path of a job's file leads to its name in the job's directory, and different files of a
directory have different paths:

    t.look j.directory = ok (D, folder)  →  t.resolve (j.path f) = ok q  →  q = D ++ [j.fileName f]
-/

namespace Restoration

open FileTree

namespace Job

variable {j : Job}

theorem slash_not_mem_numeral (n : Nat) : '/' ∉ (Numeral.text n).toList := by
  intro h
  rw [Numeral.text, String.toList_ofList] at h
  exact absurd (Numeral.isDigit_of_mem_digits h) (by decide)

theorem slash_not_mem_extension (j : Job) : '/' ∉ j.extension.toList := by
  cases h : j.delivery.container <;> simp [extension, h, Container.extension]

theorem slash_not_mem_fileName (j : Job) (f : JobFile) : '/' ∉ (j.fileName f).toList := by
  have hstem : '/' ∉ j.stem.toList := by simp [stem, slash_not_mem_numeral]
  cases f <;>
    simp [fileName, fragmentStem, hstem, slash_not_mem_numeral, slash_not_mem_extension]

/-- Names that start as the job's names do are no steps of a path but names. -/
theorem opens_of_stem {name : String} (h : j.stem.toList <+: name.toList) :
    ∃ rest, name.toList = 'J' :: rest := by
  obtain ⟨rest, hrest⟩ := h
  rw [← hrest, stem]
  exact ⟨_, by simp; rfl⟩

theorem isName_of_stem {name : String} (h : j.stem.toList <+: name.toList)
    (hslash : '/' ∉ name.toList) : IsName name := by
  obtain ⟨rest, hrest⟩ := opens_of_stem h
  refine ⟨by simp [hrest], hslash, ?_, ?_⟩
  · intro h
    rw [h] at hrest
    cases hrest
  · intro h
    rw [h] at hrest
    cases hrest

theorem isName_fileName (j : Job) (f : JobFile) : IsName (j.fileName f) :=
  isName_of_stem (j.stem_fileName f) (j.slash_not_mem_fileName f)

theorem fileName_ne_fragment (j : Job) {f : JobFile} (hf : ∀ n, f ≠ .fragment n) (n : Nat) :
    j.fileName f ≠ j.fileName (.fragment n) := by
  intro h
  exact j.classify_fragment_ne n (h ▸ j.classify_fileName hf)

/-- Files of a job that have different names lie at different places. -/
theorem apart_path {f g : JobFile} (h : j.fileName f ≠ j.fileName g) :
    Apart (j.path f) (j.path g) :=
  apart_join (j.isName_fileName f) (j.isName_fileName g) h

/-! ## Files in a tree -/

variable {t t' : FileTree} {D q : Place}

theorem place_of_path {f : JobFile} (hD : t.look j.directory = .ok (D, .folder))
    (hq : t.resolve (j.path f) = .ok q) : q = D ++ [j.fileName f] :=
  place_of_resolve_join hD (j.isName_fileName f) hq

end Job

end Restoration
