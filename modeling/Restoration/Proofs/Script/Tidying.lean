import Mathlib.Data.List.Induction
import Restoration.Proofs.Graph.Contents

/-!
# Bringing a script into order

Every dependency stands ahead of all other lines, once, where it stood first; all other lines stay
as they are, and a script in order stays as it is:

    s.tidy.lines = kept.map .dependency ++ s.lines.filter (!·.isDependency)        s.tidy.tidy = s.tidy
-/

namespace Restoration

/-! ## The same dependency -/

namespace Dependency

/-- Two statements of one kind for one file, however the file is spelled: they differ in nothing but
the text of the path, and both paths take the same steps. -/
def Same (d e : Dependency) : Prop :=
  d.withPath ⟨""⟩ = e.withPath ⟨""⟩ ∧ d.path.components = e.path.components

theorem sameAs_iff {d e : Dependency} : d.sameAs e = true ↔ d.Same e := by
  cases d <;> cases e <;> simp [sameAs, Same, withPath, path, Path.sameAs, and_comm, and_assoc]

theorem Same.refl (d : Dependency) : d.Same d := ⟨rfl, rfl⟩

theorem Same.trans {d e f : Dependency} (h : d.Same e) (h' : e.Same f) : d.Same f :=
  ⟨h.1.trans h'.1, h.2.trans h'.2⟩

end Dependency

namespace Script

/-! ## Each dependency once -/

/-- Of the dependencies, read one after another, those are kept that repeat none before them. -/
inductive Once : List Dependency → List Dependency → Prop
  | nil : Once [] []
  | repeated {ds kept : List Dependency} {d : Dependency} (h : Once ds kept)
      (he : ∃ e ∈ ds, e.Same d) : Once (ds ++ [d]) kept
  | first {ds kept : List Dependency} {d : Dependency} (h : Once ds kept)
      (he : ∀ e ∈ ds, ¬e.Same d) : Once (ds ++ [d]) (kept ++ [d])

/-- What is kept of a longer list is decided for its last element by all that stand before it. -/
theorem keepFirst_concat {α : Type} (same : α → α → Bool) (l : List α) (b : α) :
    keepFirst same (l ++ [b]) = keepFirst same l ++ if l.any (same · b) then [] else [b] := by
  induction l with
  | nil => rfl
  | cons a l ih =>
    rw [List.cons_append, keepFirst, keepFirst, ih, List.filter_append, List.any_cons]
    cases hb : same a b <;> cases hl : l.any (same · b) <;> simp [hb]

theorem once_keepFirst (ds : List Dependency) : Once ds (keepFirst Dependency.sameAs ds) := by
  induction ds using List.reverseRecOn with
  | nil => exact .nil
  | append_singleton ds d ih =>
    rw [keepFirst_concat]
    by_cases he : ∃ e ∈ ds, e.Same d
    · rw [if_pos (by simpa [Dependency.sameAs_iff] using he), List.append_nil]
      exact .repeated ih he
    · rw [if_neg (by simpa [Dependency.sameAs_iff] using he)]
      exact .first ih (by simpa using he)

namespace Once

variable {ds kept : List Dependency}

theorem sublist (h : Once ds kept) : kept.Sublist ds := by
  induction h with
  | nil => exact .refl _
  | repeated _ _ ih => exact ih.trans (List.sublist_append_left _ _)
  | first _ _ ih => exact ih.append_right _

/-- Nothing is lost: each dependency is the same as one that is kept. -/
theorem covers (h : Once ds kept) : ∀ d ∈ ds, ∃ e ∈ kept, e.Same d := by
  induction h with
  | nil => exact fun _ hd => absurd hd List.not_mem_nil
  | repeated _ he ih =>
    intro d hd
    rcases List.mem_append.1 hd with hd | hd
    · exact ih d hd
    · obtain ⟨e, hmem, hsame⟩ := he
      obtain ⟨f, hf, hfe⟩ := ih e hmem
      rw [List.mem_singleton.1 hd]
      exact ⟨f, hf, hfe.trans hsame⟩
  | first _ _ ih =>
    intro d hd
    rcases List.mem_append.1 hd with hd | hd
    · obtain ⟨e, hmem, hsame⟩ := ih d hd
      exact ⟨e, List.mem_append_left _ hmem, hsame⟩
    · exact ⟨d, List.mem_append_right _ hd, .refl d⟩

/-- Nothing is there twice. -/
theorem distinct (h : Once ds kept) : kept.Pairwise fun d e => ¬d.Same e := by
  induction h with
  | nil => exact .nil
  | repeated _ _ ih => exact ih
  | first h he ih =>
    refine List.pairwise_append.2 ⟨ih, List.pairwise_singleton _ _, fun e hmem d hd => ?_⟩
    rw [List.mem_singleton.1 hd]
    exact he e (h.sublist.subset hmem)

end Once

theorem keepFirst_of_pairwise {α : Type} {same : α → α → Bool} {l : List α}
    (h : l.Pairwise fun a b => ¬same a b = true) : keepFirst same l = l := by
  induction h with
  | nil => rfl
  | cons ha _ ih =>
    rw [keepFirst, ih, List.filter_eq_self.2 fun b hb => by simpa using ha b hb]

/-! ## In order -/

theorem tidy_lines (s : Script) :
    s.tidy.lines = (keepFirst Dependency.sameAs (s.lines.filterMap dependency?)).map .dependency ++
      s.lines.filter (!·.isDependency) := by
  simp [tidy, Dependency.withPath_forEngine]

theorem filterMap_map_dependency (kept : List Dependency) :
    (kept.map Line.dependency).filterMap dependency? = kept := by
  rw [List.filterMap_map]
  exact List.filterMap_some

theorem filter_map_dependency (kept : List Dependency) :
    (kept.map Line.dependency).filter (!·.isDependency) = [] := by
  simp [List.filter_eq_nil_iff, Line.isDependency]

theorem filterMap_dependency_eq_nil {others : List Line}
    (h : ∀ l ∈ others, l.isDependency = false) : others.filterMap dependency? = [] := by
  refine List.filterMap_eq_nil_iff.2 fun l hl => ?_
  cases l with
  | dependency d => cases h _ hl
  | _ => rfl

/-- Lines that are in order, with every dependency once, stay as they are. -/
theorem tidy_of_distinct {s : Script} {kept : List Dependency} {others : List Line}
    (hlines : s.lines = kept.map .dependency ++ others)
    (hkept : kept.Pairwise fun d e => ¬d.Same e)
    (hothers : ∀ l ∈ others, l.isDependency = false) : s.tidy = s := by
  have hfirst : keepFirst Dependency.sameAs kept = kept :=
    keepFirst_of_pairwise (hkept.imp fun h => mt Dependency.sameAs_iff.1 h)
  have hstay : others.filter (!·.isDependency) = others :=
    List.filter_eq_self.2 fun l hl => by rw [hothers l hl]; rfl
  have : s.tidy.lines = s.lines := by
    rw [tidy_lines, hlines, List.filterMap_append, filterMap_map_dependency,
      filterMap_dependency_eq_nil hothers, List.append_nil, hfirst, List.filter_append,
      filter_map_dependency, List.nil_append, hstay]
  exact congrArg Script.mk this

/-- **The order of a script.** All dependencies stand ahead of all other lines, which are as they
were. Of the dependencies, those are kept that are the same as none before them, so that no two are
the same and none is lost. Doing it again changes nothing. -/
theorem tidy_hoists_dependencies_once (s : Script) :
    ∃ kept, s.tidy.lines = kept.map .dependency ++ s.lines.filter (!·.isDependency) ∧
      Once (s.lines.filterMap dependency?) kept ∧
      kept.Sublist (s.lines.filterMap dependency?) ∧
      (kept.Pairwise fun d e => ¬d.Same e) ∧
      (∀ d, .dependency d ∈ s.lines → ∃ e ∈ kept, e.Same d) ∧
      s.tidy.tidy = s.tidy := by
  have honce := once_keepFirst (s.lines.filterMap dependency?)
  refine ⟨_, tidy_lines s, honce, honce.sublist, honce.distinct, fun d hd => honce.covers d ?_,
    tidy_of_distinct (tidy_lines s) honce.distinct fun l hl => ?_⟩
  · exact List.mem_filterMap.2 ⟨_, hd, rfl⟩
  · simpa using (List.mem_filter.1 hl).2

example :
    (tidy ⟨[.term "a", .dependency (.loadPlugin ⟨"p/q"⟩), .dependency (.importScript ⟨"p"⟩),
      .dependency (.loadPlugin ⟨"p//q"⟩)]⟩).lines =
    [.dependency (.loadPlugin ⟨"p/q"⟩), .dependency (.importScript ⟨"p"⟩), .term "a"] := by
  decide +kernel

end Script

end Restoration
