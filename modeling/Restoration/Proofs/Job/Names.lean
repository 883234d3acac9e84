import Restoration.Proofs.Job.Path

/-!
# Names of different files

The name of a job's file is the job's stem and a tail that tells which file it is. The stem ends at
the first underscore, so the name tells both the index of the job and the file:

    fileName j f = stem j ++ tail f
    fileName j f = fileName k g   →   j.index = k.index ∧ f = g
-/

namespace Restoration

open FileTree

namespace Numeral

theorem takeWhile_digits {c : Char} {a : List Char} (hc : isDigit c = false) (n : Nat) :
    (digits n ++ c :: a).takeWhile isDigit = digits n := by
  rw [List.takeWhile_append_of_pos fun d => isDigit_of_mem_digits, List.takeWhile_cons_of_neg (by simp [hc]),
    List.append_nil]

/-- A numeral ends where the first other character stands. -/
theorem digits_append_inj {c d : Char} {n m : Nat} {a b : List Char} (hc : isDigit c = false)
    (hd : isDigit d = false) (h : digits n ++ c :: a = digits m ++ d :: b) :
    n = m ∧ c :: a = d :: b := by
  have hdigits := congrArg (List.takeWhile isDigit) h
  rw [takeWhile_digits hc, takeWhile_digits hd] at hdigits
  rw [hdigits] at h
  exact ⟨text_inj (congrArg String.ofList hdigits), List.append_cancel_left h⟩

end Numeral

namespace Job

variable {j k : Job} {f g : JobFile}

/-! ## The stem -/

/-- The stem tells the index, and where it ends. -/
theorem stem_append_inj {a b : List Char} (h : j.stem.toList ++ a = k.stem.toList ++ b) :
    j.index = k.index ∧ a = b := by
  have hstem (i : Job) (l : List Char) :
      i.stem.toList ++ l = "Job".toList ++ (Numeral.digits i.index ++ '_' :: l) := by
    simp [stem, Numeral.text]
  rw [hstem, hstem] at h
  obtain ⟨hindex, hrest⟩ := Numeral.digits_append_inj (by decide) (by decide)
    (List.append_cancel_left h)
  exact ⟨hindex, List.cons_injective hrest⟩

/-- Jobs that a name may belong to have one index. -/
theorem index_of_stem {name : List Char} (hj : j.stem.toList <+: name) (hk : k.stem.toList <+: name) :
    j.index = k.index := by
  obtain ⟨a, ha⟩ := hj
  obtain ⟨b, hb⟩ := hk
  exact (stem_append_inj (ha.trans hb.symm)).1

theorem stem_of_index (h : j.index = k.index) : j.stem = k.stem := by rw [stem, stem, h]

/-! ## The tail -/

/-- A number in a name ends at the dot of the extension. -/
theorem numeral_inj {n m : Nat} {a b : String} {as bs : List Char} (ha : a.toList = '.' :: as)
    (hb : b.toList = '.' :: bs) (h : Numeral.text n ++ a = Numeral.text m ++ b) : n = m := by
  have hlists := congrArg String.toList h
  rw [String.toList_append, String.toList_append, ha, hb] at hlists
  simp only [Numeral.text, String.toList_ofList] at hlists
  exact (Numeral.digits_append_inj (by decide) (by decide) hlists).1

theorem toList_extension (c : Container) : ("." ++ c.extension).toList = '.' :: c.extension.toList := by
  rw [String.toList_append]
  rfl

theorem tail_inj {c d : Container} (h : tail c f = tail d g) : f = g := by
  cases f <;> cases g
  case chunkScript.chunkScript n m =>
    rw [tail, tail, String.append_right_inj] at h
    rw [numeral_inj rfl rfl h]
  case fragment.fragment n m =>
    rw [tail, tail, String.append_right_inj] at h
    rw [numeral_inj (toList_extension c) (toList_extension d) h]
  -- different files differ in some character of their tails
  all_goals
    first
    | rfl
    | have hlists := congrArg String.toList h
      simp [tail] at hlists

/-- **The name tells the index of the job and the file**, whatever the containers. -/
theorem fileName_inj (h : j.fileName f = k.fileName g) : j.index = k.index ∧ f = g := by
  have hlists := congrArg String.toList h
  rw [fileName_eq, fileName_eq, String.toList_append, String.toList_append] at hlists
  obtain ⟨hindex, htail⟩ := stem_append_inj hlists
  exact ⟨hindex, tail_inj (String.toList_injective htail)⟩

/-! ## Fragments -/

theorem extension_inj (h : j.extension = k.extension) : j.delivery.container = k.delivery.container := by
  cases hj : j.delivery.container <;> cases hk : k.delivery.container <;>
    simp_all [extension, Container.extension]

/-- A fragment in another container is not taken for one of the job. -/
theorem classify_of_container {s : Nat} (hstem : j.stem = k.stem)
    (hcontainer : j.delivery.container ≠ k.delivery.container) :
    k.classify (j.fileName (.fragment s)) = .foreign := by
  have hlength : k.extension.toList.length = j.extension.toList.length := by
    cases hj : j.delivery.container <;> cases hk : k.delivery.container <;>
      simp [extension, hj, hk, Container.extension]
  have hsuffix : k.extension.toList.isSuffixOf (Numeral.digits s ++ j.extension.toList) = false := by
    rw [← Bool.not_eq_true, List.isSuffixOf_iff_suffix]
    intro h
    have hsame : k.extension.toList = j.extension.toList :=
      (List.suffix_of_suffix_length_le h (List.suffix_append _ _) (Nat.le_of_eq hlength)).eq_of_length hlength
    exact hcontainer (extension_inj (String.toList_injective hsame)).symm
  have hfragment : j.fragmentStem = k.fragmentStem := by rw [fragmentStem, fragmentStem, hstem]
  rw [classify, toList_fragment_fileName, hfragment, Text.dropLead?_append]
  simp only [Text.dropTail?, hsuffix, Bool.false_eq_true, if_false]

/-- A fragment of a job with another index is not taken for one of the job. -/
theorem classify_of_index (h : j.index ≠ k.index) : k.classify (j.fileName f) = .foreign := by
  by_contra hclassify
  exact h (index_of_stem (j.stem_fileName f) (stem_of_classify hclassify))

/-- The first frame is read back only from the job's own fragments. -/
theorem classify_fragment_eq {s : Nat} (hs : s < Numeral.word) :
    k.classify (j.fileName (.fragment s)) =
      if j.index = k.index ∧ j.delivery.container = k.delivery.container then .start s
      else .foreign := by
  by_cases hindex : j.index = k.index
  · by_cases hcontainer : j.delivery.container = k.delivery.container
    · have hname : j.fileName (.fragment s) = k.fileName (.fragment s) := by
        rw [fileName_eq, fileName_eq, stem_of_index hindex, hcontainer]
      rw [hname, k.classify_fragment hs, if_pos ⟨hindex, hcontainer⟩]
    · rw [classify_of_container (stem_of_index hindex) hcontainer, if_neg fun h => hcontainer h.2]
  · rw [classify_of_index hindex, if_neg fun h => hindex h.1]

/-! ## Paths -/

theorem ofPiece?_name {n : String} (hn : IsName n) :
    Path.Component.ofPiece? n.toList = some (.name n) := by
  have hne := hn.ne_empty
  have hhere : n.toList ≠ ['.'] := fun h => hn.ne_here (String.toList_injective h)
  have hup : n.toList ≠ ['.', '.'] := fun h => hn.ne_up (String.toList_injective h)
  rw [Path.Component.ofPiece?.eq_def]
  split
  · contradiction
  · contradiction
  · contradiction
  · rw [String.ofList_toList]

/-- The last step of a path into a folder is the name that was joined. -/
theorem getLast?_components_join {p : Path} {n : String} (hn : IsName n) :
    (p.join ⟨n⟩).components.getLast? = some (.name n) := by
  obtain ⟨front, hfront⟩ : ∃ front,
      Text.splitAt (· == '/') (p.join ⟨n⟩).text.toList = front ++ [n.toList] := by
    rw [Path.join, isAbsolute_name hn, Bool.false_or]
    split
    · exact ⟨[], splitAt_name hn⟩
    · split
      · -- the path of the folder ends in a separator
        rename_i hslash
        obtain ⟨lead, hlead⟩ : ∃ lead, p.text.toList = lead ++ ['/'] :=
          ⟨_, (List.dropLast_append_getLast? _ hslash).symm⟩
        refine ⟨Text.splitAt (· == '/') lead, ?_⟩
        rw [String.toList_append, hlead, List.append_assoc, List.singleton_append,
          Text.splitAt_append rfl, splitAt_name hn]
      · refine ⟨Text.splitAt (· == '/') p.text.toList, ?_⟩
        rw [String.toList_append, String.toList_append, List.append_assoc]
        exact (Text.splitAt_append rfl _ _).trans (congrArg _ (splitAt_name hn))
  rw [Path.components]
  simp only [hfront, List.filterMap_append, List.filterMap_cons, List.filterMap_nil, ofPiece?_name hn]
  rw [← List.append_assoc, List.getLast?_concat]

theorem fileName_of_sameAs (h : (j.path f).sameAs (k.path g) = true) : j.fileName f = k.fileName g := by
  have hlast := congrArg List.getLast? (eq_of_beq h)
  rw [path, path, getLast?_components_join (j.isName_fileName f),
    getLast?_components_join (k.isName_fileName g)] at hlast
  exact Path.Component.name.inj (Option.some.inj hlast)

theorem fileName_of_resolve {t : FileTree} {q : Place} (hj : t.resolve (j.path f) = .ok q)
    (hk : t.resolve (k.path g) = .ok q) : j.fileName f = k.fileName g := by
  have hlast := getLast?_of_resolve_join (j.isName_fileName f) hj
  rw [getLast?_of_resolve_join (k.isName_fileName g) hk] at hlast
  exact (Option.some.inj hlast).symm

/-- What the names of files tell apart. -/
structure Distinct (j k : Job) (f g : JobFile) : Prop where
  /-- Only a path of the same file of a job with the same index has the same steps. -/
  paths : (j.path f).sameAs (k.path g) = true → j.index = k.index ∧ f = g
  /-- Only it leads to the same place, wherever the directories are. -/
  places : ∀ {t : FileTree} {q : Place}, t.resolve (j.path f) = .ok q →
    t.resolve (k.path g) = .ok q → j.index = k.index ∧ f = g
  /-- A fragment is read back by the jobs with its index and its container. -/
  fragment : ∀ s < Numeral.word, f = .fragment s → k.classify (j.fileName f) =
    if j.index = k.index ∧ j.delivery.container = k.delivery.container then .start s else .foreign
  /-- No other file is taken for a fragment. -/
  foreign : (∀ s, f ≠ .fragment s) → k.classify (j.fileName f) = .foreign

/-- **No two files of any two jobs have one path**, and no file is taken for another job's
fragment. -/
theorem names_collision_free (j k : Job) (f g : JobFile) : Distinct j k f g where
  paths h := fileName_inj (fileName_of_sameAs h)
  places hj hk := fileName_inj (fileName_of_resolve hj hk)
  fragment := by
    rintro s hs rfl
    exact classify_fragment_eq hs
  foreign hf := by
    by_cases hindex : j.index = k.index
    · exact classify_of_stem (stem_of_index hindex) hf
    · exact classify_of_index hindex

end Job

end Restoration
