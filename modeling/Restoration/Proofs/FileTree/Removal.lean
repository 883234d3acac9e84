import Restoration.Proofs.FileTree.SameBut

/-!
# Files that are taken away

A removal takes away at most what its paths lead to, and fails only where that is a folder or where
a path leads nowhere:

    Takes ps t t'  →  t.node? q ≠ none  →  t'.node? q = none  →  q is the end of a path in ps
-/

namespace Restoration.FileTree

variable {changed : Place → Prop} {t t' t'' : FileTree} {p : Path} {ps ps' : List Path}

/-- At most what some paths lead to was taken away, and nothing else was done. -/
structure Takes (ps : List Path) (t t' : FileTree) : Prop where
  same : SameBut (fun q => ∃ p ∈ ps, t.resolve p = .ok q) t t'
  left : ∀ q, t'.node? q = t.node? q ∨ t'.node? q = none

namespace Takes

theorem refl (t : FileTree) : Takes [] t t := ⟨.refl _ t, fun _ => .inl rfl⟩

theorem mono (h : Takes ps t t') (hsub : ps ⊆ ps') : Takes ps' t t' where
  same := h.same.mono fun _ ⟨p, hp, hq⟩ => ⟨p, hsub hp, hq⟩
  left := h.left

theorem append (h : Takes ps t t') (h' : Takes ps' t' t'') : Takes (ps ++ ps') t t'' where
  same := h.same.append h'.same
  left q := by
    rcases h'.left q with hq | hq
    · rw [hq]
      exact h.left q
    · exact .inr hq

theorem lost {q : Place} (h : Takes ps t t') (hq : t.node? q ≠ none) (hq' : t'.node? q = none) :
    ∃ p ∈ ps, t.resolve p = .ok q := by
  by_contra hother
  exact hq ((h.same.elsewhere q hother).symm.trans hq')

end Takes

theorem takes_removeHeld (t : FileTree) (p : Path) : Takes [p] t (t.removeHeld p).2 where
  same := (removes_removeHeld t p).same.mono fun q hq => ⟨p, List.mem_singleton_self p, hq⟩
  left q := by
    rw [removeHeld_eq]
    cases hr : t.remove p with
    | error fault => cases fault <;> exact .inl rfl
    | ok u =>
      obtain ⟨place, s, x, -, hnode, rfl⟩ := remove_ok hr
      have hfile : t.node? place ≠ some .folder := by simp [hnode]
      dsimp only
      rw [node?_erase (ne_nil_of_not_folder hfile)]
      split
      · exact .inr rfl
      · exact .inl rfl

/-- Nothing at the end of the path can be removed: it ends at a folder, or nowhere. -/
def Stuck (t : FileTree) (p : Path) : Prop :=
  ∀ q, t.resolve p = .ok q → asksForFolder p = false → t.node? q = some .folder

theorem SameBut.stuck_iff (h : SameBut changed t t') : t'.Stuck p ↔ t.Stuck p := by
  simp only [Stuck, h.resolve_iff, h.folder_iff]

theorem stuck_of_removeHeld {cause : FileFault} (h : (t.removeHeld p).1 = .error cause) :
    t.Stuck p := by
  intro q hq hasks
  rw [removeHeld_eq] at h
  cases hr : t.remove p with
  | ok u =>
    rw [hr] at h
    cases h
  | error fault =>
    refine folder_of_remove_error hr ?_ hasks hq
    rintro rfl
    rw [hr] at h
    cases h

/-! ## Files that can be read -/

theorem readText_ok {s : String} (h : t.readText p = .ok s) :
    ∃ place x, t.resolve p = .ok place ∧ t.node? place = some (.file s x) ∧
      asksForFolder p = false := by
  obtain ⟨⟨place, n⟩, hlook, h⟩ := bind_eq_ok_iff.1 h
  obtain ⟨hplace, hnode⟩ := look_ok hlook
  cases n with
  | folder => cases h
  | file text x =>
    cases h
    refine ⟨place, x, hplace, hnode, ?_⟩
    simp only [look, hplace, bind, Except.bind, hnode] at hlook
    split at hlook
    · cases hlook
    · exact Bool.eq_false_iff.2 ‹_›

/-- A file that can be read is gone once it is removed, whatever was removed ahead of it. -/
theorem not_exists_removeAll {s : String} (h : t.readText p = .ok s)
    (ps : List Path) : ((t.removeAll ps).removeAll [p]).pathExists p = false := by
  obtain ⟨place, x, hplace, hnode, hasks⟩ := readText_ok h
  have hothers : SameBut (fun _ => True) t (t.removeAll ps) :=
    sameBut_removeAll t ps fun _ _ _ _ => trivial
  have hlast : SameBut (fun _ => True) (t.removeAll ps) ((t.removeAll ps).removeAll [p]) :=
    sameBut_removeAll _ [p] fun _ _ _ _ => trivial
  have hresolve := (hothers.resolve_iff p place).2 hplace
  have hgone : ((t.removeAll ps).removeAll [p]).node? place = none := by
    refine removeAll_file _ (List.mem_singleton_self p) hasks hresolve fun hfolder => ?_
    rw [(hothers.folder_iff place).1 hfolder] at hnode
    cases hnode
  have hlook : ((t.removeAll ps).removeAll [p]).look p = .error .notFound := by
    simp only [look, (hlast.resolve_iff p place).2 hresolve, bind, Except.bind, hgone]
  rw [pathExists, hlook]
  rfl

end Restoration.FileTree
