import Restoration.FileTree.Basic
import Restoration.Removal
import Mathlib.Data.List.Basic

/-!
# What operations leave as it was

Writing and removing files keeps every folder, and every file but the one that a path leads to. Since
paths lead through folders only, they lead to the same places afterwards:

    SameBut changed t t'  →  (t'.resolve p = ok q ↔ t.resolve p = ok q)
-/

namespace Restoration.FileTree

theorem bind_eq_ok_iff {ε α β : Type} {x : Except ε α} {f : α → Except ε β} {b : β} :
    (x >>= f) = .ok b ↔ ∃ a, x = .ok a ∧ f a = .ok b := by
  cases x <;> simp [bind, Except.bind]

theorem map_eq_ok_iff {ε α β : Type} {x : Except ε α} {f : α → β} {b : β} :
    x.map f = .ok b ↔ ∃ a, x = .ok a ∧ f a = b := by
  cases x <;> simp [Except.map]

/-- The trees have the same folders, and the same files but at the places that are `changed`. -/
structure SameBut (changed : Place → Prop) (t t' : FileTree) : Prop where
  current : t'.current = t.current
  folder_iff : ∀ p, t'.node? p = some .folder ↔ t.node? p = some .folder
  elsewhere : ∀ p, ¬ changed p → t'.node? p = t.node? p

namespace SameBut

variable {changed : Place → Prop} {t t' t'' : FileTree}

theorem refl (changed : Place → Prop) (t : FileTree) : SameBut changed t t :=
  ⟨rfl, fun _ => .rfl, fun _ _ => rfl⟩

theorem trans (h : SameBut changed t t') (h' : SameBut changed t' t'') : SameBut changed t t'' where
  current := h'.current.trans h.current
  folder_iff p := (h'.folder_iff p).trans (h.folder_iff p)
  elsewhere p hp := (h'.elsewhere p hp).trans (h.elsewhere p hp)

theorem mono {more : Place → Prop} (h : SameBut changed t t') (hsub : ∀ p, changed p → more p) :
    SameBut more t t' :=
  { h with elsewhere := fun p hp => h.elsewhere p fun hc => hp (hsub p hc) }

theorem symm (h : SameBut changed t t') : SameBut changed t' t where
  current := h.current.symm
  folder_iff p := (h.folder_iff p).symm
  elsewhere p hp := (h.elsewhere p hp).symm

/-- A changed place that holds what it held is as good as unchanged. -/
theorem restored {fewer : Place → Prop} (h : SameBut changed t t')
    (hsame : ∀ p, changed p → ¬ fewer p → t'.node? p = t.node? p) : SameBut fewer t t' where
  current := h.current
  folder_iff := h.folder_iff
  elsewhere p hp := by
    by_cases hc : changed p
    · exact hsame p hc hp
    · exact h.elsewhere p hc

/-! ## Paths -/

theorem step_iff (h : SameBut changed t t') (p : Place) (piece : String) (q : Place) :
    t'.step p piece = .ok q ↔ t.step p piece = .ok q := by
  have hrequire : ∀ u : FileTree, u.node? p ≠ some .folder →
      ∀ rest : Unit → Except FileFault Place, (u.requireFolder p >>= rest) ≠ .ok q := by
    intro u hu rest hok
    unfold requireFolder at hok
    split at hok
    · exact hu ‹_›
    · cases hok
    · cases hok
  by_cases hfolder : t.node? p = some .folder
  · have hfolder' := (h.folder_iff p).2 hfolder
    simp only [step, requireFolder, hfolder, hfolder']
  · have hfolder' : t'.node? p ≠ some .folder := fun hf => hfolder ((h.folder_iff p).1 hf)
    exact iff_of_false (hrequire t' hfolder' _) (hrequire t hfolder _)

theorem foldlM_step_iff (h : SameBut changed t t') (pieces : List String) (p q : Place) :
    pieces.foldlM t'.step p = .ok q ↔ pieces.foldlM t.step p = .ok q := by
  induction pieces generalizing p with
  | nil => exact .rfl
  | cons piece rest ih => simp only [List.foldlM_cons, bind_eq_ok_iff, h.step_iff, ih]

/-- A path leads where it led. -/
theorem resolve_iff (h : SameBut changed t t') (p : Path) (q : Place) :
    t'.resolve p = .ok q ↔ t.resolve p = .ok q := by
  unfold resolve
  split
  · exact .rfl
  · rw [startOf, startOf, h.current]
    exact h.foldlM_step_iff _ _ _

/-- Work on one file after the other changes at most the two. -/
theorem both {p p' : Path} (h : SameBut (t.resolve p = .ok ·) t t')
    (h' : SameBut (t'.resolve p' = .ok ·) t' t'') :
    SameBut (fun q => t.resolve p = .ok q ∨ t.resolve p' = .ok q) t t'' :=
  (h.mono fun _ => .inl).trans (h'.mono fun q hq => .inr ((h.resolve_iff p' q).1 hq))

/-- Work on some files and then on some others changes at most all of them. -/
theorem append {ps ps' : List Path} (h : SameBut (fun q => ∃ p ∈ ps, t.resolve p = .ok q) t t')
    (h' : SameBut (fun q => ∃ p ∈ ps', t'.resolve p = .ok q) t' t'') :
    SameBut (fun q => ∃ p ∈ ps ++ ps', t.resolve p = .ok q) t t'' := by
  refine (h.mono ?_).trans (h'.mono ?_)
  · rintro q ⟨p, hp, hq⟩
    exact ⟨p, List.mem_append_left _ hp, hq⟩
  · rintro q ⟨p, hp, hq⟩
    exact ⟨p, List.mem_append_right _ hp, (h.resolve_iff p q).1 hq⟩

end SameBut

/-! ## One file -/

variable {t t' : FileTree} {p : Path} {place q : Place}

theorem lookup_cons_eq (r : Place) (m : Node) (rest : List (Place × Node)) (q : Place) :
    ((r, m) :: rest).lookup q = if q = r then some m else rest.lookup q := by
  rw [List.lookup_cons]
  by_cases hq : q = r
  · simp [hq]
  · simp [hq, beq_eq_false_iff_ne.2 hq]

theorem lookup_isSome_iff (nodes : List (Place × Node)) (q : Place) :
    (nodes.lookup q).isSome ↔ ∃ e ∈ nodes, e.1 = q := by
  induction nodes with
  | nil => simp
  | cons e rest ih =>
    obtain ⟨r, m⟩ := e
    rw [lookup_cons_eq]
    by_cases hq : q = r
    · simp [hq]
    · simp [hq, ih, Ne.symm hq]

theorem lookup_map_put (place : Place) (n : Node) (nodes : List (Place × Node)) (q : Place) :
    (nodes.map fun e => if e.1 == place then (place, n) else e).lookup q =
      if q = place then (nodes.lookup place).map fun _ => n else nodes.lookup q := by
  induction nodes with
  | nil => simp
  | cons e rest ih =>
    obtain ⟨r, m⟩ := e
    rw [List.map_cons]
    by_cases hr : r = place
    · subst hr
      rw [if_pos (beq_self_eq_true r), lookup_cons_eq, lookup_cons_eq, lookup_cons_eq, ih]
      by_cases hq : q = r <;> simp [hq]
    · rw [if_neg (by simpa using hr), lookup_cons_eq, lookup_cons_eq, lookup_cons_eq, ih]
      by_cases hq : q = place
      · subst hq
        simp [Ne.symm hr]
      · simp [hq]

theorem lookup_filter_ne (place : Place) (nodes : List (Place × Node)) (q : Place) :
    (nodes.filter (·.1 != place)).lookup q = if q = place then none else nodes.lookup q := by
  induction nodes with
  | nil => simp
  | cons e rest ih =>
    obtain ⟨r, m⟩ := e
    by_cases hr : r = place
    · subst hr
      rw [List.filter_cons_of_neg (by simp), ih, lookup_cons_eq]
      by_cases hq : q = r <;> simp [hq]
    · rw [List.filter_cons_of_pos (by simpa using hr), lookup_cons_eq, lookup_cons_eq, ih]
      by_cases hq : q = place
      · subst hq
        simp [Ne.symm hr]
      · simp [hq]

@[simp] theorem node?_nil (t : FileTree) : t.node? [] = some .folder := rfl

theorem node?_of_ne_nil (t : FileTree) (hq : q ≠ []) : t.node? q = t.nodes.lookup q := by
  rw [node?, if_neg (by simpa using hq)]

theorem node?_put (hplace : place ≠ []) (n : Node) (q : Place) :
    (t.put place n).node? q = if q = place then some n else t.node? q := by
  by_cases hq : q = []
  · subst hq
    simp [Ne.symm hplace]
  rw [node?_of_ne_nil _ hq, node?_of_ne_nil _ hq, put]
  have hany : t.nodes.any (·.1 == place) = (t.nodes.lookup place).isSome := by
    rw [Bool.eq_iff_iff, lookup_isSome_iff]
    simp
  rw [hany]
  cases hl : t.nodes.lookup place with
  | some m =>
    simp only [Option.isSome_some, if_true, lookup_map_put, hl, Option.map_some]
  | none =>
    simp only [Option.isSome_none, Bool.false_eq_true, if_false, List.lookup_append, lookup_cons_eq,
      List.lookup_nil]
    by_cases hqp : q = place <;> simp [hqp, hl]

theorem node?_erase (hplace : place ≠ []) (q : Place) :
    (t.erase place).node? q = if q = place then none else t.node? q := by
  by_cases hq : q = []
  · subst hq
    simp [Ne.symm hplace]
  · rw [node?_of_ne_nil _ hq, node?_of_ne_nil _ hq, erase, lookup_filter_ne]

theorem ne_nil_of_not_folder (h : t.node? place ≠ some .folder) : place ≠ [] := by
  rintro rfl
  exact h rfl

theorem sameBut_put {s : String} {x : Bool} (h : t.node? place ≠ some .folder) :
    SameBut (· = place) t (t.put place (.file s x)) where
  current := rfl
  folder_iff q := by
    rw [node?_put (ne_nil_of_not_folder h)]
    split
    · rename_i hq
      subst hq
      simp [h]
    · rfl
  elsewhere q hq := by rw [node?_put (ne_nil_of_not_folder h), if_neg hq]

theorem sameBut_erase (h : t.node? place ≠ some .folder) :
    SameBut (· = place) t (t.erase place) where
  current := rfl
  folder_iff q := by
    rw [node?_erase (ne_nil_of_not_folder h)]
    split
    · rename_i hq
      subst hq
      simp [h]
    · rfl
  elsewhere q hq := by rw [node?_erase (ne_nil_of_not_folder h), if_neg hq]

/-! ## Writing -/

theorem write_ok {s : String} (h : t.write p s = .ok t') : ∃ place x, t.resolve p = .ok place ∧
    t.node? place ≠ some .folder ∧ asksForFolder p = false ∧ t' = t.put place (.file s x) := by
  obtain ⟨place, hplace, h⟩ := bind_eq_ok_iff.1 h
  split at h
  · cases h
  · rename_i hnode
    split at h
    · cases h
    · rename_i hasks
      cases h
      exact ⟨place, _, hplace, by simp [hnode], by simpa using hasks, rfl⟩
  · rename_i hnode
    split at h
    · cases h
    · rename_i hasks
      cases h
      exact ⟨place, _, hplace, by simp [hnode], by simpa using hasks, rfl⟩

theorem sameBut_write {s : String} (h : t.write p s = .ok t') :
    SameBut (t.resolve p = .ok ·) t t' := by
  obtain ⟨place, x, hplace, hnode, -, rfl⟩ := write_ok h
  refine (sameBut_put hnode).mono ?_
  rintro q rfl
  exact hplace

/-- What was written is read back. -/
theorem readText_of_write {s : String} (h : t.write p s = .ok t') : t'.readText p = .ok s := by
  have hresolve := (sameBut_write h).resolve_iff p
  obtain ⟨place, x, hplace, hnode, hasks, rfl⟩ := write_ok h
  have hfile : (t.put place (.file s x)).node? place = some (.file s x) := by
    rw [node?_put (ne_nil_of_not_folder hnode), if_pos rfl]
  simp only [readText, look, (hresolve place).2 hplace, bind, Except.bind, hfile, hasks]
  rfl

theorem SameBut.put {changed : Place → Prop} {s : String} {x : Bool} (h : SameBut changed t t')
    (hplace : t.node? place ≠ some .folder) :
    SameBut changed (t.put place (.file s x)) (t'.put place (.file s x)) where
  current := h.current
  folder_iff q := by
    rw [node?_put (ne_nil_of_not_folder hplace), node?_put (ne_nil_of_not_folder hplace)]
    split
    · rfl
    · exact h.folder_iff q
  elsewhere q hq := by
    rw [node?_put (ne_nil_of_not_folder hplace), node?_put (ne_nil_of_not_folder hplace)]
    split
    · rfl
    · exact h.elsewhere q hq

/-- What can be written where nothing differs can be written in both trees. -/
theorem SameBut.write {changed : Place → Prop} {u' : FileTree} {s : String} (h : SameBut changed t t')
    (hwrite : t'.write p s = .ok u') (hplace : ∀ q, t.resolve p = .ok q → ¬ changed q) :
    ∃ u, t.write p s = .ok u ∧ SameBut changed u u' := by
  obtain ⟨place, hresolve', hput⟩ := bind_eq_ok_iff.1 hwrite
  have hresolve := (h.resolve_iff p place).1 hresolve'
  rw [h.elsewhere place (hplace place hresolve)] at hput
  simp only [FileTree.write, hresolve, bind, Except.bind]
  split at hput
  · cases hput
  all_goals
    rename_i hnode
    split at hput
    · cases hput
    · rename_i hasks
      cases hput
      refine ⟨_, by rw [if_neg hasks]; rfl, h.put (by simp [hnode])⟩

/-! ## Removing -/

theorem look_ok {n : Node} (h : t.look p = .ok (place, n)) :
    t.resolve p = .ok place ∧ t.node? place = some n := by
  obtain ⟨q, hq, h⟩ := bind_eq_ok_iff.1 h
  split at h
  · cases h
  · rename_i hnode
    split at h
    · cases h
    · cases h
      exact ⟨hq, hnode⟩
  · rename_i hnode
    cases h
    exact ⟨hq, hnode⟩

theorem remove_ok (h : t.remove p = .ok t') : ∃ place s x, t.resolve p = .ok place ∧
    t.node? place = some (.file s x) ∧ t' = t.erase place := by
  obtain ⟨⟨place, n⟩, hlook, h⟩ := bind_eq_ok_iff.1 h
  obtain ⟨hplace, hnode⟩ := look_ok hlook
  cases n with
  | file s x =>
    cases h
    exact ⟨place, s, x, hplace, hnode, rfl⟩
  | folder => cases h

theorem look_folder_iff : t.look p = .ok (place, .folder) ↔
    t.resolve p = .ok place ∧ t.node? place = some .folder := by
  constructor
  · exact look_ok
  · rintro ⟨hplace, hnode⟩
    simp only [look, hplace, bind, Except.bind, hnode]
    rfl

/-- A path leads to the same folder as it did. -/
theorem SameBut.look_folder_iff {changed : Place → Prop} (h : SameBut changed t t') :
    t'.look p = .ok (place, .folder) ↔ t.look p = .ok (place, .folder) := by
  rw [FileTree.look_folder_iff, FileTree.look_folder_iff, h.resolve_iff, h.folder_iff]

/-- A path that leads to an empty place leads to nothing that could be removed. -/
theorem node?_of_remove_notFound (h : t.remove p = .error .notFound) (hplace : t.resolve p = .ok place) :
    t.node? place = none := by
  simp only [remove, look, hplace, bind, Except.bind] at h
  split at h
  · rename_i hlook
    split at hlook
    · assumption
    · split at hlook <;> cases hlook
      cases h
    · cases hlook
  · split at h <;> cases h

/-- Only folders are there and cannot be removed. -/
theorem folder_of_remove_error {fault : FileFault} (h : t.remove p = .error fault)
    (hfault : fault ≠ .notFound) (hasks : asksForFolder p = false)
    (hplace : t.resolve p = .ok place) : t.node? place = some .folder := by
  simp only [remove, look, hplace, bind, Except.bind, hasks] at h
  cases hnode : t.node? place with
  | none =>
    rw [hnode] at h
    cases h
    exact absurd rfl hfault
  | some n =>
    cases n with
    | folder => rfl
    | file s x =>
      rw [hnode] at h
      cases h

/-- The outcome of a removal is the same at each attempt. -/
theorem removeHeld_eq (t : FileTree) (p : Path) : t.removeHeld p =
    match t.remove p with
    | .ok t' => (.ok (), t')
    | .error .notFound => (.ok (), t)
    | .error fault => (.error fault, t) := by
  have hattempt : ∀ further, Removal.attempt (Removal.once p) further t =
      match t.remove p with
      | .ok t' => (.ok (), t')
      | .error .notFound => (.ok (), t)
      | .error fault => (.error fault, t) := by
    intro further
    induction further with
    | zero =>
      rw [Removal.attempt, Removal.once]
      cases t.remove p with
      | ok t' => rfl
      | error fault => cases fault <;> rfl
    | succ n ih =>
      rw [Removal.attempt, Removal.once]
      cases hr : t.remove p with
      | ok t' => rfl
      | error fault =>
        rw [hr] at ih
        cases fault <;> first | rfl | exact ih
  exact hattempt _

/-- What a removal does: it only takes away, and only what the path leads to. -/
structure Removes (p : Path) (t : FileTree) (r : Except FileFault Unit) (t' : FileTree) : Prop where
  same : SameBut (t.resolve p = .ok ·) t t'
  less : ∀ q, t.node? q = none → t'.node? q = none
  gone : r = .ok () → ∀ place, t.resolve p = .ok place → t'.node? place = none
  found : r = .ok () → ∀ fault, t.resolve p = .error fault → fault = .notFound
  file : asksForFolder p = false → ∀ place, t.resolve p = .ok place →
    t.node? place ≠ some .folder → t'.node? place = none

theorem removes_removeHeld (t : FileTree) (p : Path) :
    Removes p t (t.removeHeld p).1 (t.removeHeld p).2 := by
  rw [removeHeld_eq]
  rcases hr : t.remove p with fault | t'
  · by_cases hfault : fault = .notFound
    · subst hfault
      have hgone : ∀ place, t.resolve p = .ok place → t.node? place = none :=
        fun place hplace => node?_of_remove_notFound hr hplace
      refine ⟨.refl _ _, fun _ h => h, fun _ => hgone, fun _ fault hfault => ?_,
        fun _ place hplace _ => hgone place hplace⟩
      simp only [remove, look, hfault, bind, Except.bind] at hr
      cases hr
      rfl
    · have hkept : Removes p t (.error fault) t := {
        same := .refl _ _
        less := fun _ h => h
        gone := fun h => by cases h
        found := fun h => by cases h
        file := fun hasks place hplace hnode =>
          absurd (folder_of_remove_error hr hfault hasks hplace) hnode }
      cases fault <;> first | exact absurd rfl hfault | exact hkept
  · obtain ⟨place, s, x, hplace, hnode, rfl⟩ := remove_ok hr
    have hfile : t.node? place ≠ some .folder := by simp [hnode]
    have herase := node?_erase (t := t) (ne_nil_of_not_folder hfile)
    have hgone : ∀ q, t.resolve p = .ok q → (t.erase place).node? q = none := by
      intro q hq
      cases hplace.symm.trans hq
      rw [herase, if_pos rfl]
    refine ⟨(sameBut_erase hfile).mono ?_, fun q hq => ?_, fun _ => hgone, fun _ fault hfault => ?_,
      fun _ q hq _ => hgone q hq⟩
    · rintro q rfl
      exact hplace
    · rw [herase, hq, ite_self]
    · rw [hplace] at hfault
      cases hfault

/-- Removing several files takes away what it can of each. -/
theorem removeAll_cons (t : FileTree) (p : Path) (ps : List Path) :
    t.removeAll (p :: ps) = (t.removeHeld p).2.removeAll ps := rfl

theorem removeAll_none (t : FileTree) (ps : List Path) (h : t.node? q = none) :
    (t.removeAll ps).node? q = none := by
  induction ps generalizing t with
  | nil => exact h
  | cons p ps ih => exact ih _ ((removes_removeHeld t p).less q h)

theorem sameBut_removeAll {changed : Place → Prop} (t : FileTree) (ps : List Path)
    (h : ∀ p ∈ ps, ∀ q, t.resolve p = .ok q → changed q) : SameBut changed t (t.removeAll ps) := by
  induction ps generalizing t with
  | nil => exact .refl _ _
  | cons p ps ih =>
    have hone := (removes_removeHeld t p).same
    refine (hone.mono (h p List.mem_cons_self)).trans (ih _ fun p' hp' q hq => ?_)
    exact h p' (List.mem_cons_of_mem _ hp') q ((hone.resolve_iff p' q).1 hq)

/-- A file among those to be removed is gone afterwards. -/
theorem removeAll_file (t : FileTree) {ps : List Path} (hp : p ∈ ps)
    (hasks : asksForFolder p = false) (hplace : t.resolve p = .ok place)
    (hnode : t.node? place ≠ some .folder) : (t.removeAll ps).node? place = none := by
  induction ps generalizing t with
  | nil => cases hp
  | cons p' ps ih =>
    have hone := removes_removeHeld t p'
    rw [removeAll_cons]
    rcases List.mem_cons.1 hp with rfl | hp
    · exact removeAll_none _ _ (hone.file hasks place hplace hnode)
    · exact ih _ hp ((hone.same.resolve_iff p place).2 hplace) fun h =>
        hnode ((hone.same.folder_iff place).1 h)

/-! ## Paths to nothing -/

/-- Nothing stands where the path leads. -/
def Vacant (t : FileTree) (p : Path) : Prop := ∀ q, t.resolve p = .ok q → t.node? q = none

theorem Vacant.of_sameBut {changed : Place → Prop} (hp : t.Vacant p) (h : SameBut changed t t')
    (hplace : ∀ q, t.resolve p = .ok q → ¬ changed q) : t'.Vacant p := by
  intro q hq
  have hq' := (h.resolve_iff p q).1 hq
  rw [h.elsewhere q (hplace q hq')]
  exact hp q hq'

/-- A file is as empty as it was if it is not among the changed ones. -/
theorem SameBut.isEmptyFile_eq {changed : Place → Prop} (h : SameBut changed t t')
    (hplace : ∀ q, t.resolve p = .ok q → ¬ changed q) : t'.isEmptyFile p = t.isEmptyFile p := by
  have hlook : ∀ q, t.resolve p = .ok q → t'.look p = t.look p := by
    intro q hq
    have hq' := (h.resolve_iff p q).2 hq
    simp only [look, hq, hq', bind, Except.bind, h.elsewhere q (hplace q hq)]
  cases hq : t.resolve p with
  | ok q => rw [isEmptyFile, isEmptyFile, hlook q hq]
  | error fault =>
    cases hq' : t'.resolve p with
    | ok q =>
      rw [h.resolve_iff, hq] at hq'
      cases hq'
    | error fault' => simp only [isEmptyFile, look, hq, hq', bind, Except.bind]

/-! ## Names in a folder -/

theorem mem_names (t : FileTree) (folder : Place) (name : String) :
    name ∈ t.names folder ↔ t.node? (folder ++ [name]) ≠ none := by
  rw [node?_of_ne_nil _ (by simp), ← Option.isSome_iff_ne_none, lookup_isSome_iff, names,
    List.mem_filterMap]
  refine exists_congr fun e => and_congr_right fun _ => ?_
  constructor
  · intro h
    cases hlast : e.1.getLast? with
    | none =>
      rw [hlast] at h
      cases h
    | some last =>
      rw [hlast] at h
      simp only at h
      split at h
      · rename_i hfolder
        cases h
        rw [← eq_of_beq hfolder]
        exact (List.dropLast_append_getLast? _ hlast).symm
      · cases h
  · intro h
    simp [h]

theorem list_of_look (h : t.look p = .ok (place, .folder)) : t.list p = .ok (t.names place) := by
  simp only [list, h, bind, Except.bind]
  rfl

theorem list_ok {names : List String} (h : t.list p = .ok names) :
    ∃ place, t.look p = .ok (place, .folder) ∧ names = t.names place := by
  obtain ⟨⟨place, n⟩, hlook, h⟩ := bind_eq_ok_iff.1 h
  cases n with
  | file s x => cases h
  | folder =>
    cases h
    exact ⟨place, hlook, rfl⟩

end Restoration.FileTree
