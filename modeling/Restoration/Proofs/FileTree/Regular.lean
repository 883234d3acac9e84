import Restoration.Proofs.FileTree.Distinct
import Restoration.Proofs.FileTree.Making

/-!
# Regular trees

A tree is regular if a file system can have it: no place is there twice, and every name can be told.
All work on files keeps it so. Where the folder of a file is there, no folder is made on the way to it:

    t.look p = ok (D, folder)  →  t.writeMaking (p.join ⟨n⟩) s = t.write (p.join ⟨n⟩) s
-/

namespace Restoration

namespace Text

/-- The pieces of a text that was put together from pieces. -/
theorem splitAt_intercalate {sep : Char → Bool} {c : Char} (hc : sep c = true) {as : List (List Char)}
    (h : ∀ a ∈ as, ∀ d ∈ a, sep d = false) (hne : as ≠ []) :
    splitAt sep ([c].intercalate as) = as := by
  induction as with
  | nil => exact absurd rfl hne
  | cons a rest ih =>
    have ha := splitAt_of_not_mem (h a List.mem_cons_self)
    cases rest with
    | nil => rw [List.intercalate_singleton, ha]
    | cons b rest =>
      have hrest := ih (fun a' ha' => h a' (.tail _ ha')) (List.cons_ne_nil _ _)
      rw [List.intercalate_cons_cons, List.append_assoc, List.singleton_append, splitAt_append hc, ha,
        hrest]
      rfl

end Text

namespace FileTree

variable {t t' : FileTree} {p : Path} {D place q : Place} {n s : String} {ps : List String}

/-! ## Folders that are there -/

theorem ne_nil_of_mem_pieces (h : n ∈ pieces p) : n.toList ≠ [] := by
  obtain ⟨cs, hcs, rfl⟩ := List.mem_map.1 h
  rw [String.toList_ofList]
  simpa using (List.mem_filter.1 hcs).2

/-- A path that was put together from steps has these steps. -/
theorem pieces_steps (absolute : Bool) (hps : ∀ n ∈ ps, n.toList ≠ [] ∧ '/' ∉ n.toList) :
    pieces ⟨(if absolute then "/" else "") ++ "/".intercalate ps⟩ = ps ∧
      Path.isAbsolute ⟨(if absolute then "/" else "") ++ "/".intercalate ps⟩ = absolute := by
  have hbody : ("/".intercalate ps).toList = ['/'].intercalate (ps.map String.toList) :=
    String.toList_intercalate
  have hsplit : (Text.splitAt (· == '/') ("/".intercalate ps).toList).filter (!·.isEmpty) =
      ps.map String.toList := by
    rw [hbody]
    by_cases hne : ps = []
    · rw [hne]
      rfl
    · rw [Text.splitAt_intercalate rfl (fun a ha d hd => ?_) (by simpa using hne)]
      · refine List.filter_eq_self.2 fun a ha => ?_
        obtain ⟨n, hn, rfl⟩ := List.mem_map.1 ha
        simpa using (hps n hn).1
      · obtain ⟨n, hn, rfl⟩ := List.mem_map.1 ha
        exact beq_eq_false_iff_ne.2 fun h => (hps n hn).2 (h ▸ hd)
  have hback : (ps.map String.toList).map String.ofList = ps := by simp
  cases absolute with
  | true =>
    refine ⟨?_, by simp [Path.isAbsolute]⟩
    have hlead : ("/" ++ "/".intercalate ps).toList = '/' :: ("/".intercalate ps).toList := by simp
    rw [pieces, if_pos rfl, hlead, Text.splitAt, if_pos (beq_self_eq_true '/'),
      List.filter_cons_of_neg (by simp), hsplit, hback]
  | false =>
    rw [if_neg Bool.false_ne_true, String.empty_append]
    refine ⟨by rw [pieces, hsplit, hback], decide_eq_false ?_⟩
    rw [hbody]
    cases ps with
    | nil => simp
    | cons n rest =>
      obtain ⟨c, cs, hn⟩ := List.exists_cons_of_ne_nil (hps n List.mem_cons_self).1
      have hc : c ≠ '/' := fun h => (hps n List.mem_cons_self).2 (by simp [hn, h])
      cases rest <;> simpa [hn] using hc

/-- No folder is made on steps that lead to something. -/
theorem foldlM_stepMaking (hq : ps.foldlM t.step place = .ok q) (hthere : t.node? q ≠ none) :
    (ps.filter (· ≠ ".")).foldlM stepMaking (t, place) = .ok (t, q) := by
  induction ps generalizing place with
  | nil =>
    cases hq
    rfl
  | cons piece rest ih =>
    obtain ⟨next, hnext, hrest⟩ := bind_eq_ok_iff.1 hq
    by_cases hpiece : piece = "."
    · obtain ⟨-, -, hstep⟩ := bind_eq_ok_iff.1 hnext
      rw [if_pos hpiece] at hstep
      cases hstep
      rw [List.filter_cons_of_neg (by simpa using hpiece)]
      exact ih hrest
    · have hnode : t.node? next ≠ none := by
        cases rest with
        | nil =>
          cases hrest
          exact hthere
        | cons piece' rest =>
          obtain ⟨next', hnext', -⟩ := bind_eq_ok_iff.1 hrest
          simp [folder_of_step hnext']
      rw [List.filter_cons_of_pos (by simpa using hpiece)]
      refine bind_eq_ok_iff.2 ⟨(t, next), bind_eq_ok_iff.2 ⟨next, hnext, ?_⟩, ih hrest⟩
      rw [if_neg (by simpa using hnode)]
      rfl

/-- Where the folder of a file is there, none is made on the way to the file. -/
theorem makeFolders_folderOf (hD : t.look p = .ok (D, .folder)) (hn : IsName n) :
    t.makeFolders (folderOf (p.join ⟨n⟩)) = .ok t := by
  obtain ⟨hplace, hfolder⟩ := look_folder_iff.1 hD
  obtain ⟨hpieces, habsolute, -⟩ := pieces_join (text_ne_empty_of_resolve hplace) hn
  have hsteps : folderOf (p.join ⟨n⟩) =
      ⟨(if p.isAbsolute then "/" else "") ++ "/".intercalate ((pieces p).filter (· ≠ "."))⟩ := by
    simp only [folderOf, habsolute, hpieces, List.filter_append]
    simp [hn.ne_here]
  have hproper : ∀ n ∈ (pieces p).filter (· ≠ "."), n.toList ≠ [] ∧ '/' ∉ n.toList := fun n hn =>
    ⟨ne_nil_of_mem_pieces (List.mem_filter.1 hn).1, slash_not_mem_pieces (List.mem_filter.1 hn).1⟩
  obtain ⟨hpieces', habsolute'⟩ := pieces_steps p.isAbsolute hproper
  rw [resolve, if_neg (by simpa using text_ne_empty_of_resolve hplace)] at hplace
  rw [makeFolders, hsteps, hpieces', startOf, habsolute',
    ← startOf, foldlM_stepMaking hplace (by simp [hfolder])]
  simp only [bind, Except.bind, hfolder]
  rfl

/-- A file that is written into a folder that is there is all that changes. -/
theorem sameBut_writeMaking (hD : t.look p = .ok (D, .folder)) (hn : IsName n)
    (h : t.writeMaking (p.join ⟨n⟩) s = .ok t') :
    SameBut (t.resolve (p.join ⟨n⟩) = .ok ·) t t' := by
  obtain ⟨u, hmade, hwrite⟩ := bind_eq_ok_iff.1 h
  rw [makeFolders_folderOf hD hn] at hmade
  cases hmade
  exact sameBut_write hwrite

/-! ## Regular trees -/

namespace Distinct

theorem erase (h : t.Distinct) (place : Place) : (t.erase place).Distinct :=
  (List.filter_sublist.map Prod.fst).nodup h

theorem makeFolders (h : t.Distinct) (hmade : t.makeFolders p = .ok t') : t'.Distinct := by
  have hfold : ∀ (ps : List String) (t : FileTree) (place : Place), t.Distinct →
      ∀ made, ps.foldlM stepMaking (t, place) = .ok made → made.1.Distinct := by
    intro ps
    induction ps with
    | nil =>
      intro t place ht made h
      cases h
      exact ht
    | cons piece rest ih =>
      intro t place ht made h
      obtain ⟨⟨t₁, next⟩, hstep, hrest⟩ := bind_eq_ok_iff.1 h
      obtain ⟨next', -, hstep⟩ := bind_eq_ok_iff.1 hstep
      cases hstep
      refine ih _ _ ?_ made hrest
      split
      · exact ht.put _ _
      · exact ht
  obtain ⟨⟨u, place⟩, hsteps, hmade⟩ := bind_eq_ok_iff.1 hmade
  dsimp only at hmade
  split at hmade <;> cases hmade
  exact hfold _ _ _ h _ hsteps

end Distinct

/-- A tree that a file system can have. -/
structure Regular (t : FileTree) : Prop where
  distinct : t.Distinct
  named : t.WellNamed

namespace Regular

theorem write (h : t.Regular) (hwrite : t.write p s = .ok t') : t'.Regular where
  distinct := h.distinct.write hwrite
  named := h.named.of_sameBut (sameBut_write hwrite) fun _ hq => ⟨p, hq⟩

theorem removeHeld (h : t.Regular) (p : Path) : (t.removeHeld p).2.Regular where
  distinct := by
    rw [removeHeld_eq]
    cases hr : t.remove p with
    | error fault => cases fault <;> exact h.distinct
    | ok u =>
      obtain ⟨place, text, x, -, -, rfl⟩ := remove_ok hr
      exact h.distinct.erase place
  named := h.named.of_sameBut (removes_removeHeld t p).same fun _ hq => ⟨p, hq⟩

theorem removeAll (h : t.Regular) (paths : List Path) : (t.removeAll paths).Regular := by
  induction paths generalizing t with
  | nil => exact h
  | cons p paths ih => exact ih (h.removeHeld p)

theorem makeFolders (h : t.Regular) (hmade : t.makeFolders p = .ok t') : t'.Regular where
  distinct := h.distinct.makeFolders hmade
  named := (makeFolders_ok hmade).2.1 h.named

theorem writeMaking (h : t.Regular) (hwrite : t.writeMaking p s = .ok t') : t'.Regular := by
  obtain ⟨u, hmade, hwrite⟩ := bind_eq_ok_iff.1 hwrite
  exact (h.makeFolders hmade).write hwrite

end Regular

end FileTree

end Restoration
