import Restoration.Proofs.FileTree.SameBut

/-!
# Paths into a folder

A path joined from the path of a folder and the name of a file leads to that name in the folder:

    t.resolve (p.join ⟨n⟩) = t.step place n        where t.resolve p = ok place
-/

namespace Restoration

namespace Text

/-- The pieces of a text with a separator in it are those ahead of it and those behind it. -/
theorem splitAt_append {sep : Char → Bool} {c : Char} (hc : sep c = true) (a b : List Char) :
    splitAt sep (a ++ c :: b) = splitAt sep a ++ splitAt sep b := by
  induction a with
  | nil => simp [splitAt, hc]
  | cons d a ih =>
    rw [List.cons_append, splitAt, splitAt, ih]
    split
    · rfl
    · obtain ⟨piece, rest, hpieces⟩ := List.exists_cons_of_ne_nil (splitAt_ne_nil sep a)
      rw [hpieces]
      rfl

theorem splitAt_of_not_mem {sep : Char → Bool} {a : List Char} (h : ∀ c ∈ a, sep c = false) :
    splitAt sep a = [a] := by
  induction a with
  | nil => rfl
  | cons c a ih =>
    rw [splitAt, h c List.mem_cons_self, ih fun d hd => h d (List.mem_cons_of_mem _ hd)]
    rfl

/-- No piece between separators has a separator in it. -/
theorem not_sep_of_mem_splitAt {sep : Char → Bool} {t piece : List Char} (h : piece ∈ splitAt sep t) :
    ∀ c ∈ piece, sep c = false := by
  induction t generalizing piece with
  | nil =>
    rw [splitAt, List.mem_singleton] at h
    simp [h]
  | cons c r ih =>
    rw [splitAt] at h
    split at h
    · rcases List.mem_cons.1 h with rfl | h
      · simp
      · exact ih h
    · rename_i hc
      obtain ⟨first, rest, hpieces⟩ := List.exists_cons_of_ne_nil (splitAt_ne_nil sep r)
      rw [hpieces] at h
      rcases List.mem_cons.1 h with rfl | h
      · intro d hd
        rcases List.mem_cons.1 hd with rfl | hd
        · simpa using hc
        · exact ih (hpieces ▸ List.mem_cons_self) d hd
      · exact ih (hpieces ▸ List.mem_cons_of_mem _ h)

end Text

namespace FileTree

/-- A name that a file in a folder can have, as far as its characters go. -/
structure IsName (n : String) : Prop where
  ne_empty : n.toList ≠ []
  slash : '/' ∉ n.toList
  ne_here : n ≠ "."
  ne_up : n ≠ ".."

variable {t : FileTree} {p : Path} {n : String} {place q : Place}

theorem splitAt_name (hn : IsName n) : Text.splitAt (· == '/') n.toList = [n.toList] := by
  refine Text.splitAt_of_not_mem fun c hc => beq_eq_false_iff_ne.2 ?_
  rintro rfl
  exact hn.slash hc

theorem isAbsolute_name (hn : IsName n) : Path.isAbsolute ⟨n⟩ = false :=
  decide_eq_false fun hhead => hn.slash (List.mem_of_head? hhead)

theorem pieces_name (hn : IsName n) : pieces ⟨n⟩ = [n] := by
  have hne : n.toList.isEmpty = false := by simpa using hn.ne_empty
  rw [pieces, splitAt_name hn, List.filter_cons, hne]
  simp

/-- A path into a folder has the steps of the path of the folder, and one more. -/
theorem pieces_join (hp : p.text ≠ "") (hn : IsName n) :
    pieces (p.join ⟨n⟩) = pieces p ++ [n] ∧ (p.join ⟨n⟩).isAbsolute = p.isAbsolute ∧
      (p.join ⟨n⟩).text.toList.getLast? = n.toList.getLast? := by
  have hempty : p.text.isEmpty = false := by simpa using hp
  have hplist : p.text.toList ≠ [] := by simpa using hp
  obtain ⟨c, r, hcr⟩ := List.exists_cons_of_ne_nil hplist
  have hlast : ∀ a : List Char, (a ++ n.toList).getLast? = n.toList.getLast? := fun a => by
    rw [List.getLast?_append, List.getLast?_eq_some_getLast hn.ne_empty]
    rfl
  have hpieces : ∀ front : List Char,
      ((Text.splitAt (· == '/') (front ++ '/' :: n.toList)).filter (!·.isEmpty)).map String.ofList =
        ((Text.splitAt (· == '/') front).filter (!·.isEmpty)).map String.ofList ++ [n] := by
    intro front
    rw [Text.splitAt_append rfl, List.filter_append, List.map_append]
    exact congrArg _ (pieces_name hn)
  rw [Path.join, isAbsolute_name hn, hempty, Bool.or_self, if_neg Bool.false_ne_true]
  split
  · -- the path of the folder ends in a separator, which adds no step to it
    rename_i hslash
    obtain ⟨front, hfront⟩ : ∃ front, p.text.toList = front ++ ['/'] :=
      ⟨_, (List.dropLast_append_getLast? _ hslash).symm⟩
    have hfolder : pieces p =
        ((Text.splitAt (· == '/') front).filter (!·.isEmpty)).map String.ofList := by
      rw [pieces, hfront, Text.splitAt_append rfl, List.filter_append]
      simp [Text.splitAt]
    refine ⟨?_, ?_, ?_⟩
    · rw [hfolder, pieces, String.toList_append, hfront, List.append_assoc]
      exact hpieces front
    · simp [Path.isAbsolute, hcr]
    · rw [String.toList_append, hlast]
  · refine ⟨?_, ?_, ?_⟩
    · rw [pieces, String.toList_append, String.toList_append, List.append_assoc]
      exact hpieces p.text.toList
    · simp [Path.isAbsolute, hcr]
    · rw [String.toList_append, hlast]

theorem asksForFolder_join (hp : p.text ≠ "") (hn : IsName n) :
    asksForFolder (p.join ⟨n⟩) = false := by
  obtain ⟨hpieces, -, hlast⟩ := pieces_join hp hn
  have hslash : n.toList.getLast? ≠ some '/' := fun h => hn.slash (List.mem_of_getLast? h)
  simp [asksForFolder, hpieces, hlast, hslash, hn.ne_here, hn.ne_up]

theorem text_ne_empty_of_resolve (h : t.resolve p = .ok place) : p.text ≠ "" := by
  intro hempty
  rw [resolve, if_pos (by simp [hempty])] at h
  cases h

/-- A path into a folder leads one step further than the path of the folder. -/
theorem resolve_join (h : t.resolve p = .ok place) (hn : IsName n) :
    t.resolve (p.join ⟨n⟩) = t.step place n := by
  have hp := text_ne_empty_of_resolve h
  obtain ⟨hpieces, habsolute, hlast⟩ := pieces_join hp hn
  have hjoin : (p.join ⟨n⟩).text.isEmpty = false := by
    rw [← Bool.not_eq_true, String.isEmpty_iff]
    intro hempty
    rw [hempty, List.getLast?_eq_some_getLast hn.ne_empty] at hlast
    cases hlast
  have hpempty : p.text.isEmpty = false := by simpa using hp
  rw [resolve, if_neg (by simp [hpempty])] at h
  rw [resolve, if_neg (by simp [hjoin]), hpieces, startOf, habsolute, List.foldlM_append]
  rw [startOf] at h
  rw [h]
  show ([n].foldlM t.step place) = _
  rw [List.foldlM_cons]
  cases t.step place n <;> rfl

/-- Among the names in a folder only those are too long that no path can lead to. -/
theorem step_name (hfolder : t.node? place = some .folder) (hn : IsName n) : t.step place n =
    if nameBound ≤ n.utf8ByteSize then .error .nameTooLong else .ok (place ++ [n]) := by
  simp only [step, requireFolder, hfolder, bind, Except.bind, hn.ne_here, hn.ne_up, if_false]
  rfl

theorem place_of_resolve_join (h : t.look p = .ok (place, .folder)) (hn : IsName n)
    (hq : t.resolve (p.join ⟨n⟩) = .ok q) : q = place ++ [n] := by
  obtain ⟨hplace, hfolder⟩ := look_ok h
  rw [resolve_join hplace hn, step_name hfolder hn] at hq
  split at hq <;> cases hq
  rfl

theorem folder_of_step {piece : String} (h : t.step place piece = .ok q) :
    t.node? place = some .folder := by
  obtain ⟨⟨⟩, hfolder, -⟩ := bind_eq_ok_iff.1 h
  unfold requireFolder at hfolder
  split at hfolder
  · assumption
  · cases hfolder
  · cases hfolder

/-- A path into a folder leads somewhere only if there is the folder. -/
theorem look_of_resolve_join (hp : p.text ≠ "") (hn : IsName n)
    (h : t.resolve (p.join ⟨n⟩) = .ok q) : ∃ D, t.look p = .ok (D, .folder) ∧ q = D ++ [n] := by
  obtain ⟨hpieces, habsolute, -⟩ := pieces_join hp hn
  have hfold := h
  unfold resolve at hfold
  split at hfold
  · cases hfold
  rw [hpieces, startOf, habsolute, List.foldlM_append] at hfold
  obtain ⟨D, hD, hlast⟩ := bind_eq_ok_iff.1 hfold
  obtain ⟨q', hstep, -⟩ := bind_eq_ok_iff.1 hlast
  have hlook : t.look p = .ok (D, .folder) := by
    refine look_folder_iff.2 ⟨?_, folder_of_step hstep⟩
    rw [resolve, if_neg (by simpa using hp)]
    exact hD
  exact ⟨D, hlook, place_of_resolve_join hlook hn h⟩

/-! ## Different paths -/

variable {m : String}

/-- Wherever a path into a folder leads, the place has the name that the path ends in. -/
theorem getLast?_of_resolve_join (hn : IsName n) (h : t.resolve (p.join ⟨n⟩) = .ok q) :
    q.getLast? = some n := by
  have hpieces : ∃ front, pieces (p.join ⟨n⟩) = front ++ [n] := by
    by_cases hp : p.text = ""
    · refine ⟨[], ?_⟩
      rw [Path.join, if_pos (by simp [hp]), pieces_name hn, List.nil_append]
    · exact ⟨pieces p, (pieces_join hp hn).1⟩
  obtain ⟨front, hfront⟩ := hpieces
  unfold resolve at h
  split at h
  · cases h
  rw [hfront, List.foldlM_append] at h
  obtain ⟨folder, -, h⟩ := bind_eq_ok_iff.1 h
  obtain ⟨last, hlast, h⟩ := bind_eq_ok_iff.1 h
  cases h
  obtain ⟨-, -, hlast⟩ := bind_eq_ok_iff.1 hlast
  rw [if_neg hn.ne_here, if_neg hn.ne_up] at hlast
  split at hlast <;> cases hlast
  exact List.getLast?_concat

theorem join_inj (hn : Path.isAbsolute ⟨n⟩ = false) (hm : Path.isAbsolute ⟨m⟩ = false)
    (h : p.join ⟨n⟩ = p.join ⟨m⟩) : n = m := by
  simp only [Path.join, hn, hm, Bool.false_or] at h
  split at h
  · exact congrArg Path.text h
  · split at h
    · exact String.append_right_inj _ |>.1 (congrArg Path.text h)
    · exact String.append_right_inj _ |>.1 (congrArg Path.text h)

/-- Two paths that differ and lead to different places in every tree. -/
structure Apart (p p' : Path) : Prop where
  ne : p ≠ p'
  places : ∀ {t : FileTree} {q q' : Place}, t.resolve p = .ok q → t.resolve p' = .ok q' → q ≠ q'

theorem apart_join (hn : IsName n) (hm : IsName m) (hne : n ≠ m) :
    Apart (p.join ⟨n⟩) (p.join ⟨m⟩) where
  ne h := hne (join_inj (isAbsolute_name hn) (isAbsolute_name hm) h)
  places hq hq' h := by
    have hlast := getLast?_of_resolve_join hn hq
    rw [h, getLast?_of_resolve_join hm hq'] at hlast
    exact hne (Option.some.inj hlast).symm

end FileTree

end Restoration
