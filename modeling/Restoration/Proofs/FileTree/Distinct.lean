import Restoration.Proofs.FileTree.Removal
import Mathlib.Data.List.Nodup

/-!
# Trees with one node at a place

In a listing of a folder no name comes twice, if no place in the tree does. Writing a file keeps it
so, since a place that was there before is used again:

    t.Distinct  →  t.write p s = ok t'  →  t'.Distinct  ∧  (t'.names D).Nodup
-/

namespace Restoration.FileTree

/-- No place is there twice. -/
def Distinct (t : FileTree) : Prop := (t.nodes.map Prod.fst).Nodup

instance : DecidablePred Distinct := fun t =>
  inferInstanceAs (Decidable (t.nodes.map Prod.fst).Nodup)

/-- The name of a place in a folder. -/
def nameIn? (folder place : Place) : Option String :=
  match place.getLast? with
  | some name => if place.dropLast == folder then some name else none
  | none => none

theorem eq_of_nameIn? {folder place : Place} {name : String} (h : nameIn? folder place = some name) :
    place = folder ++ [name] := by
  unfold nameIn? at h
  split at h
  · rename_i last hlast
    split at h
    · rename_i hfolder
      cases h
      rw [← eq_of_beq hfolder]
      exact (List.dropLast_append_getLast? _ hlast).symm
    · cases h
  · cases h

theorem names_eq (t : FileTree) (folder : Place) :
    t.names folder = (t.nodes.map Prod.fst).filterMap (nameIn? folder) := by
  rw [List.filterMap_map]
  rfl

namespace Distinct

variable {t t' : FileTree} {p : Path} {s : String} {place : Place}

theorem put (h : t.Distinct) (place : Place) (n : Node) : (t.put place n).Distinct := by
  unfold FileTree.put
  by_cases hany : t.nodes.any (·.1 == place) = true
  · have hplaces : (t.nodes.map fun e => if e.1 == place then (place, n) else e).map Prod.fst =
        t.nodes.map Prod.fst := by
      rw [List.map_map]
      refine List.map_congr_left fun e _ => ?_
      rw [Function.comp_apply]
      split
      · exact (eq_of_beq ‹_›).symm
      · rfl
    rw [if_pos hany, Distinct, hplaces]
    exact h
  · rw [if_neg hany, Distinct, List.map_append]
    refine List.nodup_append.2 ⟨h, List.nodup_singleton place, ?_⟩
    rintro q hq r hr rfl
    obtain ⟨e, he, rfl⟩ := List.mem_map.1 hq
    exact hany (List.any_eq_true.2 ⟨e, he, by simpa using hr⟩)

theorem write (h : t.Distinct) (hwrite : t.write p s = .ok t') : t'.Distinct := by
  obtain ⟨place, x, -, -, -, rfl⟩ := write_ok hwrite
  exact h.put place _

/-- No name comes twice in a folder. -/
theorem names (h : t.Distinct) (folder : Place) : (t.names folder).Nodup := by
  rw [names_eq]
  refine h.filterMap fun q r name hq hr => ?_
  rw [eq_of_nameIn? hq, eq_of_nameIn? hr]

/-- What stands at a place stands there in the list. -/
theorem node?_eq_some_iff (h : t.Distinct) {q : Place} (hq : q ≠ []) {n : Node} :
    t.node? q = some n ↔ (q, n) ∈ t.nodes := by
  rw [node?_of_ne_nil t hq]
  have hsound : ∀ m, t.nodes.lookup q = some m → (q, m) ∈ t.nodes := by
    intro m hm
    obtain ⟨front, back, hnodes, -⟩ := List.lookup_eq_some_iff.1 hm
    rw [hnodes]
    exact List.mem_append_right _ List.mem_cons_self
  refine ⟨hsound n, fun hmem => ?_⟩
  obtain ⟨m, hm⟩ := Option.isSome_iff_exists.1 ((lookup_isSome_iff t.nodes q).2 ⟨_, hmem, rfl⟩)
  cases List.inj_on_of_nodup_map h (hsound m hm) hmem rfl
  exact hm

/-- In another order the nodes make the same files. -/
theorem sameBut_of_perm (h : t.Distinct) (hcurrent : t'.current = t.current)
    (hperm : t'.nodes.Perm t.nodes) : t'.Distinct ∧ SameBut (fun _ => False) t t' := by
  have h' : t'.Distinct := ((hperm.map Prod.fst).nodup_iff).2 h
  have hnode : ∀ q, t'.node? q = t.node? q := by
    intro q
    by_cases hq : q = []
    · subst hq
      rfl
    · refine Option.ext fun n => ?_
      rw [h'.node?_eq_some_iff hq, h.node?_eq_some_iff hq, hperm.mem_iff]
  exact ⟨h', hcurrent, fun q => by rw [hnode], fun q _ => hnode q⟩

end Distinct

/-! ## Files that can be written -/

variable {t : FileTree} {p : Path} {s : String}

/-- A file that can be read can be written. -/
theorem exists_write_of_readText (h : t.readText p = .ok s) (text : String) :
    ∃ t', t.write p text = .ok t' := by
  obtain ⟨place, x, hplace, hnode, hasks⟩ := readText_ok h
  refine ⟨t.put place (.file text x), ?_⟩
  simp only [write, hplace, bind, Except.bind, hnode, hasks]
  rfl

/-- A file stays readable, with its text, if it is not among the changed ones. -/
theorem SameBut.readText_eq {changed : Place → Prop} {t' : FileTree} (h : SameBut changed t t')
    (hread : t.readText p = .ok s) (hplace : ∀ q, t.resolve p = .ok q → ¬ changed q) :
    t'.readText p = .ok s := by
  obtain ⟨place, x, hresolve, hnode, hasks⟩ := readText_ok hread
  have hresolve' := (h.resolve_iff p place).2 hresolve
  have hnode' := (h.elsewhere place (hplace place hresolve)).trans hnode
  simp only [readText, look, hresolve', bind, Except.bind, hnode', hasks]
  rfl

end Restoration.FileTree
