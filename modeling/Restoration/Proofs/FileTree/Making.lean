import Restoration.Proofs.FileTree.Join

/-!
# Folders that are made

The folders on the way to a file are made if they are missing. Every file stays as it was, and paths
lead where they led, so a tree may grow between other work on it:

    t.makeFolders p = ok t'   →   t'.look p = ok (D, folder)   with the files of t in t'
-/

namespace Restoration

namespace FileTree

variable {changed : Place → Prop} {t t' t'' u : FileTree} {p : Path} {D place q : Place}
  {piece : String} {ps : List String}

/-! ## Files that stay -/

/-- The second tree has the folders of the first one, and the same files but at the places that are
`changed`. -/
structure SameFilesBut (changed : Place → Prop) (t t' : FileTree) : Prop where
  current : t'.current = t.current
  folder : ∀ q, t.node? q = some .folder → t'.node? q = some .folder
  file_iff : ∀ q, ¬ changed q → ∀ s x, t'.node? q = some (.file s x) ↔ t.node? q = some (.file s x)

namespace SameFilesBut

theorem refl (changed : Place → Prop) (t : FileTree) : SameFilesBut changed t t :=
  ⟨rfl, fun _ => id, fun _ _ _ _ => .rfl⟩

theorem trans (h : SameFilesBut changed t t') (h' : SameFilesBut changed t' t'') :
    SameFilesBut changed t t'' where
  current := h'.current.trans h.current
  folder q hq := h'.folder q (h.folder q hq)
  file_iff q hq s x := (h'.file_iff q hq s x).trans (h.file_iff q hq s x)

theorem mono {more : Place → Prop} (h : SameFilesBut changed t t') (hsub : ∀ q, changed q → more q) :
    SameFilesBut more t t' :=
  { h with file_iff := fun q hq => h.file_iff q fun hc => hq (hsub q hc) }

theorem of_sameBut (h : SameBut changed t t') : SameFilesBut changed t t' where
  current := h.current
  folder q := (h.folder_iff q).2
  file_iff q hq s x := by rw [h.elsewhere q hq]

theorem step (h : SameFilesBut changed t t') (hq : t.step place piece = .ok q) :
    t'.step place piece = .ok q := by
  obtain ⟨⟨⟩, hfolder, hstep⟩ := bind_eq_ok_iff.1 hq
  have hrequire : t'.requireFolder place = .ok () := by
    unfold requireFolder at hfolder ⊢
    split at hfolder
    · rw [h.folder place ‹_›]
    · cases hfolder
    · cases hfolder
  exact bind_eq_ok_iff.2 ⟨(), hrequire, hstep⟩

theorem foldlM_step (h : SameFilesBut changed t t') (hq : ps.foldlM t.step place = .ok q) :
    ps.foldlM t'.step place = .ok q := by
  induction ps generalizing place with
  | nil => exact hq
  | cons piece rest ih =>
    obtain ⟨next, hnext, hrest⟩ := bind_eq_ok_iff.1 hq
    exact bind_eq_ok_iff.2 ⟨next, h.step hnext, ih hrest⟩

/-- A path that leads somewhere leads there still. -/
theorem resolve (h : SameFilesBut changed t t') (hq : t.resolve p = .ok q) : t'.resolve p = .ok q := by
  unfold FileTree.resolve at hq ⊢
  split at hq
  · cases hq
  · rw [if_neg ‹_›, startOf, h.current]
    exact h.foldlM_step hq

theorem look_folder (h : SameFilesBut changed t t') (hD : t.look p = .ok (D, .folder)) :
    t'.look p = .ok (D, .folder) := by
  rw [look_folder_iff] at hD ⊢
  exact ⟨h.resolve hD.1, h.folder D hD.2⟩

end SameFilesBut

/-! ## Names -/

/-- A name without a separator in it that is not too long. -/
structure Nameable (n : String) : Prop where
  slash : '/' ∉ n.toList
  short : n.utf8ByteSize < nameBound

instance : DecidablePred Nameable := fun n =>
  decidable_of_iff ('/' ∉ n.toList ∧ n.utf8ByteSize < nameBound)
    ⟨fun h => ⟨h.1, h.2⟩, fun h => ⟨h.1, h.2⟩⟩

/-- The system can name whatever is in the tree. -/
structure WellNamed (t : FileTree) : Prop where
  places : ∀ q, t.node? q ≠ none → ∀ n ∈ q, Nameable n
  current : ∀ n ∈ t.current, Nameable n

theorem WellNamed.of_nodes (hnodes : ∀ node ∈ t.nodes, ∀ n ∈ node.1, Nameable n)
    (hcurrent : ∀ n ∈ t.current, Nameable n) : t.WellNamed where
  places q hq n hn := by
    rw [node?_of_ne_nil t (List.ne_nil_of_mem hn)] at hq
    obtain ⟨node, hnode, rfl⟩ := (lookup_isSome_iff t.nodes q).1 (Option.isSome_iff_ne_none.2 hq)
    exact hnodes node hnode n hn
  current := hcurrent

theorem nameable_of_step (hpiece : '/' ∉ piece.toList) (hplace : ∀ n ∈ place, Nameable n)
    (h : t.step place piece = .ok q) : ∀ n ∈ q, Nameable n := by
  obtain ⟨-, -, h⟩ := bind_eq_ok_iff.1 h
  split at h
  · cases h
    exact hplace
  split at h
  · cases h
    exact fun n hn => hplace n (List.dropLast_subset _ hn)
  split at h
  · cases h
  · rename_i hshort
    cases h
    intro n hn
    rcases List.mem_append.1 hn with hn | hn
    · exact hplace n hn
    · exact List.mem_singleton.1 hn ▸ ⟨hpiece, Nat.not_le.1 hshort⟩

theorem slash_not_mem_pieces (h : piece ∈ pieces p) : '/' ∉ piece.toList := by
  obtain ⟨cs, hcs, rfl⟩ := List.mem_map.1 h
  rw [String.toList_ofList]
  intro hslash
  have := Text.not_sep_of_mem_splitAt (List.mem_filter.1 hcs).1 '/' hslash
  cases this

theorem WellNamed.start (h : t.WellNamed) (p : Path) : ∀ n ∈ t.startOf p, Nameable n := by
  unfold startOf
  split
  · simp
  · exact h.current

/-- The system can name every place that a path leads to. -/
theorem WellNamed.resolve (h : t.WellNamed) (hq : t.resolve p = .ok q) : ∀ n ∈ q, Nameable n := by
  unfold FileTree.resolve at hq
  split at hq
  · cases hq
  have hfold : ∀ (ps : List String) (place : Place), (∀ piece ∈ ps, '/' ∉ piece.toList) →
      (∀ n ∈ place, Nameable n) → ps.foldlM t.step place = .ok q → ∀ n ∈ q, Nameable n := by
    intro ps
    induction ps with
    | nil =>
      intro place _ hplace hq
      cases hq
      exact hplace
    | cons piece rest ih =>
      intro place hps hplace hq
      obtain ⟨next, hnext, hrest⟩ := bind_eq_ok_iff.1 hq
      exact ih next (fun piece h => hps piece (List.mem_cons_of_mem _ h))
        (nameable_of_step (hps piece List.mem_cons_self) hplace hnext) hrest
  exact hfold _ _ (fun piece => slash_not_mem_pieces) (h.start p) hq

/-- Work on what paths lead to leaves a tree well-named. -/
theorem WellNamed.of_sameBut (h : t.WellNamed) (hsame : SameBut changed t t')
    (hchanged : ∀ q, changed q → ∃ p : Path, t.resolve p = .ok q) : t'.WellNamed where
  places q hq := by
    by_cases hc : changed q
    · obtain ⟨p, hp⟩ := hchanged q hc
      exact h.resolve hp
    · exact h.places q (hsame.elsewhere q hc ▸ hq)
  current := hsame.current ▸ h.current

/-! ## Making folders -/

/-- What has become of a tree and a place when all folders on some steps are made. -/
structure Makes (t : FileTree) (place : Place) (ps : List String) (t' : FileTree) (q : Place) :
    Prop where
  same : SameFilesBut (fun _ => False) t t'
  leads : ps.foldlM t'.step place = .ok q
  there : (ps = [] → t.node? place ≠ none) → t'.node? q ≠ none
  named : (∀ piece ∈ ps, '/' ∉ piece.toList) → t.WellNamed → (∀ n ∈ place, Nameable n) → t'.WellNamed

theorem stepMaking_ok (h : stepMaking (t, place) piece = .ok (t', q)) :
    t.step place piece = .ok q ∧ SameFilesBut (fun _ => False) t t' ∧ t'.node? q ≠ none ∧
      (t.WellNamed → (∀ n ∈ q, Nameable n) → t'.WellNamed) := by
  obtain ⟨next, hnext, h⟩ := bind_eq_ok_iff.1 h
  cases h
  refine ⟨hnext, ?_⟩
  cases hnode : t.node? q with
  | some n =>
    rw [Option.isNone_some, if_neg Bool.false_ne_true]
    exact ⟨.refl _ t, by simp [hnode], fun h _ => h⟩
  | none =>
    have hne : q ≠ [] := ne_nil_of_not_folder (t := t) (by simp [hnode])
    have hput (r : Place) : (t.put q .folder).node? r = if r = q then some .folder else t.node? r :=
      node?_put hne _ r
    rw [Option.isNone_none, if_pos rfl]
    refine ⟨⟨rfl, fun r hr => ?_, fun r _ s x => ?_⟩, by simp [hput], fun hnamed hq => ⟨fun r hr => ?_,
      hnamed.current⟩⟩
    · rw [hput]
      split
      · rfl
      · exact hr
    · rw [hput]
      split
      · simp [*]
      · rfl
    · rw [hput] at hr
      split at hr
      · exact ‹r = q› ▸ hq
      · exact hnamed.places r hr

theorem makes_foldlM (h : ps.foldlM stepMaking (t, place) = .ok (t', q)) : Makes t place ps t' q := by
  induction ps generalizing t place with
  | nil =>
    cases h
    exact ⟨.refl _ _, rfl, fun h => h rfl, fun _ h _ => h⟩
  | cons piece rest ih =>
    obtain ⟨⟨t₁, next⟩, hstep, hrest⟩ := bind_eq_ok_iff.1 h
    obtain ⟨hnext, hsame, hthere, hnamed⟩ := stepMaking_ok hstep
    have hothers := ih hrest
    refine ⟨hsame.trans hothers.same, ?_, fun _ => hothers.there fun _ => hthere, ?_⟩
    · exact bind_eq_ok_iff.2 ⟨next, hothers.same.step (hsame.step hnext), hothers.leads⟩
    · intro hps ht hplace
      have hnextNamed := nameable_of_step (hps piece List.mem_cons_self) hplace hnext
      exact hothers.named (fun piece h => hps piece (List.mem_cons_of_mem _ h))
        (hnamed ht hnextNamed) hnextNamed

theorem pieces_ne_nil (hp : p.text ≠ "") (hrelative : p.isAbsolute = false) : pieces p ≠ [] := by
  obtain ⟨c, r, hcr⟩ := List.exists_cons_of_ne_nil (l := p.text.toList) (by simpa using hp)
  have hc : (c == '/') = false := by
    rw [Path.isAbsolute, hcr] at hrelative
    simpa using hrelative
  obtain ⟨first, rest, hpieces⟩ := List.exists_cons_of_ne_nil (Text.splitAt_ne_nil (· == '/') r)
  rw [pieces, hcr, Text.splitAt, hc, hpieces]
  simp

/-- **Folders are made without a change to any file**, and the path leads to a folder then. -/
theorem makeFolders_ok (h : t.makeFolders p = .ok t') :
    SameFilesBut (fun _ => False) t t' ∧ (t.WellNamed → t'.WellNamed) ∧
      (p.text ≠ "" → ∃ D, t'.look p = .ok (D, .folder)) := by
  obtain ⟨⟨u, place⟩, hmade, h⟩ := bind_eq_ok_iff.1 h
  have hmakes := makes_foldlM hmade
  dsimp only at h
  split at h
  · cases h
  · rename_i hfile
    cases h
    refine ⟨hmakes.same, fun hnamed => ?_, fun hp => ⟨place, look_folder_iff.2 ⟨?_, ?_⟩⟩⟩
    · exact hmakes.named (fun piece => slash_not_mem_pieces) hnamed (hnamed.start p)
    · rw [FileTree.resolve, if_neg (by simpa using hp), startOf, hmakes.same.current]
      exact hmakes.leads
    · have hthere : t'.node? place ≠ none := by
        refine hmakes.there fun hnone => ?_
        cases habsolute : p.isAbsolute with
        | true => simp [startOf, habsolute, node?]
        | false => exact absurd hnone (pieces_ne_nil hp habsolute)
      cases hnode : t'.node? place with
      | none => exact absurd hnode hthere
      | some n =>
        cases n with
        | folder => rfl
        | file s x => exact absurd hnode (hfile s x)

theorem writeMaking_ok {s : String} (h : t.writeMaking p s = .ok t') :
    ∃ u, SameFilesBut (fun _ => False) t u ∧ (t.WellNamed → u.WellNamed) ∧ u.write p s = .ok t' := by
  obtain ⟨u, hmade, hwrite⟩ := bind_eq_ok_iff.1 h
  obtain ⟨hsame, hnamed, -⟩ := makeFolders_ok hmade
  exact ⟨u, hsame, hnamed, hwrite⟩

/-- Whether a file can be written does not depend on what is written. -/
theorem write_any {s : String} (h : t.write p s = .ok t') (text : String) :
    ∃ t'', t.write p text = .ok t'' := by
  obtain ⟨place, hplace, hwrite⟩ := bind_eq_ok_iff.1 h
  simp only [write, bind, Except.bind, hplace]
  split at hwrite
  · cases hwrite
  all_goals
    split at hwrite
    · cases hwrite
    · simp_all [pure, Except.pure]

theorem writeMaking_any {s : String} (h : t.writeMaking p s = .ok t') (text : String) :
    ∃ t'', t.writeMaking p text = .ok t'' := by
  obtain ⟨made, hmade, hwrite⟩ := bind_eq_ok_iff.1 h
  obtain ⟨u, hu⟩ := write_any hwrite text
  exact ⟨u, by simp only [writeMaking, bind, Except.bind, hmade, hu]⟩

end FileTree

end Restoration
