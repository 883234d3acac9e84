import Restoration.Job.FileName

/-!
# Reading back the names of a job's files

    classify (fileName (fragment n)) = start n        for every frame number n that fits in a word
    classify (fileName f) = foreign                   for every file f that is no fragment
-/

namespace Restoration

namespace Text

theorem dropLead?_append_append (lead a b : List Char) :
    dropLead? (lead ++ a) (lead ++ b) = dropLead? a b := by
  simp [dropLead?]

theorem dropLead?_of_ne {c d : Char} (h : c ≠ d) (a b : List Char) :
    dropLead? (c :: a) (d :: b) = none := by
  simp [dropLead?, h]

end Text

namespace Numeral

/-- Different numbers have different numerals. -/
theorem text_inj {n m : Nat} (h : text n = text m) : n = m := by
  have hdigits : digits n = digits m := String.ofList_injective h
  have hvalue := value?_digits n
  rw [hdigits, value?_digits] at hvalue
  exact (Option.some.inj hvalue).symm

end Numeral

namespace Job

theorem toList_fragment_fileName (j : Job) (n : Nat) :
    (j.fileName (.fragment n)).toList =
      j.fragmentStem.toList ++ (Numeral.digits n ++ j.extension.toList) := by
  simp only [fileName, Numeral.text, String.toList_append, String.toList_ofList, List.append_assoc]

/-- The first frame of a fragment is read back from the name of its file. -/
theorem classify_fragment (j : Job) {n : Nat} (h : n < Numeral.word) :
    j.classify (j.fileName (.fragment n)) = .start n := by
  rw [classify, toList_fragment_fileName, Text.dropLead?_append]
  simp only [Text.dropTail?_append, Numeral.value?_digits, if_pos h]

/-- A frame number that does not fit in a word is not read back. -/
theorem classify_fragment_of_le (j : Job) {n : Nat} (h : Numeral.word ≤ n) :
    j.classify (j.fileName (.fragment n)) = .malformed := by
  rw [classify, toList_fragment_fileName, Text.dropLead?_append]
  simp only [Text.dropTail?_append, Numeral.value?_digits, if_neg (Nat.not_lt.2 h)]

theorem classify_fragment_ne (j : Job) (n : Nat) : j.classify (j.fileName (.fragment n)) ≠ .foreign := by
  rcases Nat.lt_or_ge n Numeral.word with hn | hn
  · simp [j.classify_fragment hn]
  · simp [j.classify_fragment_of_le hn]

/-- What follows the stem in the name of a file. -/
def tail (c : Container) : JobFile → String
  | .script => "Script.avs"
  | .chunkScript n => "Script_" ++ (Numeral.text n ++ ".avs")
  | .motionScript => "Deshaker.avs"
  | .motionLog => "Deshaker.log"
  | .frameCountScript => "FrameCount.avs"
  | .frameCount => "FrameCount.txt"
  | .fragment n => "Output_" ++ (Numeral.text n ++ ("." ++ c.extension))
  | .concatList => "Concat.txt"
  | .delivery => "Final" ++ ("." ++ c.extension)
  | .record => "Settings.json"

theorem fileName_eq (j : Job) (f : JobFile) :
    j.fileName f = j.stem ++ tail j.delivery.container f := by
  cases f <;> simp only [fileName, tail, fragmentStem, extension, String.append_assoc]

/-- The tails of fragments are told from all others by their first letter. -/
theorem tail_of_ne {c : Container} {f : JobFile} (hf : ∀ n, f ≠ .fragment n) :
    ∃ a rest, (tail c f).toList = a :: rest ∧ 'O' ≠ a := by
  cases f with
  | fragment n => exact absurd rfl (hf n)
  | script | chunkScript | record => exact ⟨'S', _, by simp [tail]; rfl, by decide⟩
  | motionScript | motionLog => exact ⟨'D', _, by simp [tail]; rfl, by decide⟩
  | frameCountScript | frameCount | delivery => exact ⟨'F', _, by simp [tail]; rfl, by decide⟩
  | concatList => exact ⟨'C', _, by simp [tail]; rfl, by decide⟩

/-- No other file of a job with that index is taken for a fragment. -/
theorem classify_of_stem {j k : Job} {f : JobFile} (hstem : j.stem = k.stem)
    (hf : ∀ n, f ≠ .fragment n) : k.classify (j.fileName f) = .foreign := by
  obtain ⟨a, rest, htail, ha⟩ := tail_of_ne (c := j.delivery.container) hf
  have hname : (j.fileName f).toList = k.stem.toList ++ a :: rest := by
    rw [fileName_eq, String.toList_append, htail, hstem]
  have hfragment : k.fragmentStem.toList = k.stem.toList ++ 'O' :: "utput_".toList := by
    simp [fragmentStem]
  rw [classify, hname, hfragment, Text.dropLead?_append_append, Text.dropLead?_of_ne ha]

theorem classify_fileName (j : Job) {f : JobFile} (hf : ∀ n, f ≠ .fragment n) :
    j.classify (j.fileName f) = .foreign :=
  classify_of_stem rfl hf

/-- Only names that start as the job's names do are taken for fragments. -/
theorem stem_of_classify {j : Job} {name : String} (h : j.classify name ≠ .foreign) :
    j.stem.toList <+: name.toList := by
  unfold classify at h
  split at h
  · exact absurd rfl h
  · rename_i rest hlead
    rw [Text.dropLead?, Option.ite_none_right_eq_some, List.isPrefixOf_iff_prefix, fragmentStem,
      String.toList_append] at hlead
    exact (List.prefix_append _ _).trans hlead.1

theorem stem_fileName (j : Job) (f : JobFile) : j.stem.toList <+: (j.fileName f).toList := by
  cases f <;> simp [fileName, fragmentStem]

/-! ## Different files -/

theorem fileName_fragment_inj (j : Job) {n m : Nat}
    (h : j.fileName (.fragment n) = j.fileName (.fragment m)) : n = m := by
  simp only [fileName, String.append_left_inj, String.append_right_inj] at h
  exact Numeral.text_inj h

theorem fileName_chunkScript_inj (j : Job) {n m : Nat}
    (h : j.fileName (.chunkScript n) = j.fileName (.chunkScript m)) : n = m := by
  simp only [fileName, String.append_left_inj, String.append_right_inj] at h
  exact Numeral.text_inj h

theorem fileName_script_ne (j : Job) (n : Nat) : j.fileName .script ≠ j.fileName (.chunkScript n) := by
  intro h
  have hlists := congrArg String.toList h
  simp [fileName] at hlists

end Job

end Restoration
