import Restoration.Proofs.Graph.Reading
import Restoration.Proofs.Script.Restriction
import Restoration.Proofs.Stage.Matrix

/-!
# Lines of a script and lines of its text

A script is read line by line, so no line of it breaks off in the middle of its text. Written again,
it has the same lines, and a restricted script has one marked line in its text:

    markedLines (((parse t).restrict r).text) = [text of restrictingLine r]
-/

namespace Restoration

/-! ## Parts of a text -/

namespace Text

variable {t : List Char}

theorem dropReturn_subset (t : List Char) : dropReturn t ⊆ t := by
  unfold dropReturn
  split
  · exact List.dropLast_subset t
  · exact List.Subset.refl t

theorem unbroken_of_mem_lines {line : List Char} (h : line ∈ lines t) : '\n' ∉ line := by
  have hpiece : ∀ piece ∈ splitAt (· == '\n') t, '\n' ∉ piece := by
    intro piece hpiece hbreak
    exact absurd (not_sep_of_mem_splitAt hpiece _ hbreak) (by decide)
  simp only [lines, List.mem_append, List.mem_map, List.mem_ite_nil_left, List.mem_singleton] at h
  rcases h with ⟨piece, hmem, rfl⟩ | ⟨-, rfl⟩
  · exact fun hbreak => hpiece piece (List.dropLast_subset _ hmem) (dropReturn_subset piece hbreak)
  · rw [List.getLastD_eq_getLast?, List.getLast?_eq_some_getLast (splitAt_ne_nil _ t)]
    exact hpiece _ (List.getLast_mem _)

/-- A pattern without a carriage return stands in a line whether or not one ends it. -/
theorem occursIn_dropReturn {pattern : List Char} (h : '\r' ∉ pattern) (t : List Char) :
    occursIn pattern (dropReturn t) = occursIn pattern t := by
  unfold dropReturn
  split
  · rename_i hlast
    obtain ⟨front, rfl⟩ := List.getLast?_eq_some_iff.1 hlast
    rw [List.dropLast_concat, Bool.eq_iff_iff, occursIn_iff, occursIn_iff]
    exact ⟨fun hin => hin.trans (List.prefix_append _ _).isInfix, infix_concat h⟩
  · rfl

end Text

/-! ## Lines that were read -/

theorem unquote?_subset {a r : List Char} (h : Script.unquote? a = some r) : r ⊆ a := by
  unfold Script.unquote? at h
  split at h
  · rename_i inner hinner
    have htrim : '"' :: inner ⊆ a := hinner ▸ trim_subset a
    exact List.Subset.trans (Text.dropTail?_subset h)
      (List.Subset.trans (List.subset_cons_self _ _) htrim)
  · cases h

namespace Dependency

theorem unbroken_file {file : String} (hfile : '\n' ∉ file.toList) :
    '\n' ∉ (loadPlugin ⟨file⟩).text.toList ∧ '\n' ∉ (importScript ⟨file⟩).text.toList := by
  have hplugin : (loadPlugin ⟨file⟩).text = "LoadPlugin(\"" ++ file ++ "\")" := rfl
  have himport : (importScript ⟨file⟩).text = "Import(\"" ++ file ++ "\")" := rfl
  rw [hplugin, himport]
  simp [hfile]

theorem unbroken_virtualDub {file name : String} (hfile : '\n' ∉ file.toList)
    (hname : '\n' ∉ name.toList) (n : Nat) :
    '\n' ∉ (loadVirtualDubPlugin ⟨file⟩ name n).text.toList := by
  have htext : (loadVirtualDubPlugin ⟨file⟩ name n).text =
      "LoadVirtualDubPlugin(\"" ++ file ++ "\", \"" ++ name ++ "\", " ++ Numeral.text n ++ ")" := rfl
  have hnumber := not_mem_numeral_of_loud (c := '\n') (by decide) n
  rw [htext]
  simp [hfile, hname, hnumber]

theorem unbroken_of_ofCall? {function : String} {arguments : List (List Char)} {d : Dependency}
    (h : ofCall? function arguments = some d) (hcited : ∀ a ∈ arguments, '\n' ∉ a) :
    '\n' ∉ d.text.toList := by
  have hread : ∀ a ∈ arguments, ∀ r, Script.unquote? a = some r →
      '\n' ∉ (String.ofList r).toList := by
    intro a ha r hr hbreak
    rw [String.toList_ofList] at hbreak
    exact hcited a ha (unquote?_subset hr hbreak)
  revert h hread
  fun_cases ofCall? function arguments with
  | case1 p =>
    intro h hread
    obtain ⟨r, hr, rfl⟩ := Option.map_eq_some_iff.1 h
    exact (unbroken_file (hread p List.mem_cons_self r hr)).1
  | case2 p =>
    intro h hread
    obtain ⟨r, hr, rfl⟩ := Option.map_eq_some_iff.1 h
    exact (unbroken_file (hread p List.mem_cons_self r hr)).2
  | case3 p name preroll =>
    intro h hread
    simp only [Option.bind_eq_bind, Option.bind_eq_some_iff] at h
    obtain ⟨r, hr, called, hcalled, n, -, h⟩ := h
    cases h
    exact unbroken_virtualDub (hread p List.mem_cons_self r hr)
      (hread name (List.mem_cons_of_mem _ List.mem_cons_self) called hcalled) n
  | case4 =>
    intro h hread
    cases h

/-- What a dependency cites stands in the text that it was read from. -/
theorem unbroken_of_parse? {t : List Char} {d : Dependency} (h : parse? t = some d)
    (ht : '\n' ∉ t) : '\n' ∉ d.text.toList := by
  simp only [parse?, Option.bind_eq_bind, Option.bind_eq_some_iff] at h
  obtain ⟨call, hcall, ⟨function, rest⟩, hsplit, h⟩ := h
  have hrest : rest ⊆ call :=
    List.Subset.trans (Text.splitOnce?_suffix hsplit).subset (List.tail_sublist call).subset
  have hwhole : call ⊆ t := List.Subset.trans (Text.dropTail?_subset hcall) (trim_subset t)
  exact unbroken_of_ofCall? h fun a ha hbreak =>
    ht (hwhole (hrest (splitArguments_subset ha hbreak)))

end Dependency

namespace Line

theorem unbroken_of_parse? {t : List Char} {l : Line} (h : parse? t = some l) (ht : '\n' ∉ t) :
    '\n' ∉ l.text.toList := by
  have htrim : '\n' ∉ Text.trim t := fun hbreak => ht (trim_subset t hbreak)
  unfold parse? at h
  generalize Text.trim t = t' at h htrim
  unfold ofTrimmed? at h
  split at h
  · cases h
  · cases h
    simpa [text] using htrim
  · cases h
    simpa [text] using htrim
  · split at h
    · rename_i d hd
      cases h
      exact Dependency.unbroken_of_parse? hd htrim
    · split at h
      · rename_i i hi
        cases h
        have hterm : '\n' ∉ Text.trimEnd (Text.takeBytes i t') := fun hbreak =>
          htrim (Text.takeBytes_subset _ _ (trimEnd_subset _ hbreak))
        have hmark : '\n' ∉ commentMark.toList := by decide
        have hcomment : '\n' ∉
            Text.trim (Text.dropBytes (i + Text.byteSize commentMark.toList) t') := fun hbreak =>
          htrim (Text.dropBytes_subset _ _ (trim_subset _ hbreak))
        simp only [text, String.toList_append, String.toList_ofList, List.mem_append, not_or]
        exact ⟨⟨hterm, hmark⟩, hcomment⟩
      · cases h
        simpa [text] using htrim

end Line

namespace Script

variable {s : Script} {r : FrameRange}

/-- No line of the script breaks off in the middle of its text. -/
def IsUnbroken (s : Script) : Prop := ∀ l ∈ s.lines, '\n' ∉ l.text.toList

theorem isUnbroken_parse (t : String) : (parse t).IsUnbroken := by
  intro l hl
  obtain ⟨line, hline, hread⟩ := List.mem_filterMap.1 hl
  exact Line.unbroken_of_parse? hread (Text.unbroken_of_mem_lines hline)

theorem IsUnbroken.restrict (hs : s.IsUnbroken) (r : FrameRange) : (s.restrict r).IsUnbroken := by
  intro l hl
  rcases mem_restrict hl with hl | rfl
  · exact hs l hl
  · exact (legible_restrictingLine r).unbroken

/-- An unbroken script has its lines in its text, if need be without a carriage return. -/
theorem IsUnbroken.lines_text (hs : s.IsUnbroken) :
    Text.lines s.text.toList = s.lines.map fun l => Text.dropReturn l.text.toList := by
  have hlines : ∀ l ∈ s.lines.map fun l => l.text.toList, '\n' ∉ l := by
    intro line hline
    obtain ⟨l, hl, rfl⟩ := List.mem_map.1 hline
    exact hs l hl
  have htext : s.text.toList = (s.lines.map fun l => l.text.toList).flatMap (· ++ ['\n']) := by
    rw [text, String.toList_ofList, List.flatMap_map]
  rw [htext, Text.lines_flatMap_dropReturn hlines, List.map_map]
  rfl

/-! ## Marked lines -/

/-- The lines of the text that hold the mark of a restriction. -/
def markedLines (t : String) : List (List Char) :=
  (Text.lines t.toList).filter (Text.occursIn restrictionMark.toList)

/-- **A restricted script has one marked line in its text**, the one that restricts it. -/
theorem markedLines_restrict (hs : s.IsUnbroken) (r : FrameRange) :
    markedLines (s.restrict r).text = [(restrictingLine r).text.toList] := by
  have hmark : ∀ l : Line, Text.occursIn restrictionMark.toList (Text.dropReturn l.text.toList) =
      l.contains restrictionMark := fun l => Text.occursIn_dropReturn (by decide) _
  rw [markedLines, (hs.restrict r).lines_text, List.filter_map]
  simp only [Function.comp_def, hmark, filter_restrict, List.map_singleton]
  rw [Text.dropReturn, if_neg (legible_restrictingLine r).whole]

end Script

end Restoration
