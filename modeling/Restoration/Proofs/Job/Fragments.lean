import Restoration.Proofs.Job.Names
import Restoration.Proofs.Json.Number
import Restoration.Proofs.Script.Lines

/-!
# Names that stand for fragments

A name stands for the fragment that starts at a frame if the number between the job's stem and its
extension is that frame. Zeros ahead of the number make no difference to the reader; the writer
leaves none:

    classify name = start n        ↔  ∃ k, name = fragmentStem ++ "0…0" ++ text n ++ extension
    fileName (fragment n) = name   ↔  classify name = start n, and no zero is ahead of the number
-/

namespace Restoration

/-! ## Rows of digits -/

namespace Numeral

variable {c : Char} {ds : List Char} {n : Nat}

theorem digit_digitValue (h : isDigit c = true) : digit (digitValue c) = c ∧ digitValue c < 10 := by
  have hrange : '0'.toNat ≤ c.toNat ∧ c.toNat ≤ '9'.toNat := by
    simpa [isDigit, Char.le_def, UInt32.le_iff_toNat_le] using h
  have hvalue : '0'.toNat + digitValue c = c.toNat := by
    rw [digitValue]
    omega
  exact ⟨by rw [digit, hvalue, Char.ofNat_toNat], by
    have : '9'.toNat = '0'.toNat + 9 := rfl
    omega⟩

/-- A digit behind a numeral goes on with it. -/
theorem digits_append_digit (hn : n ≠ 0) (hc : isDigit c = true) :
    digits (10 * n + digitValue c) = digits n ++ [c] := by
  obtain ⟨hdigit, hlt⟩ := digit_digitValue hc
  rw [digits_of_le (by omega), show (10 * n + digitValue c) / 10 = n by omega,
    show (10 * n + digitValue c) % 10 = digitValue c by omega, hdigit]

theorem digits_valueFrom (hn : n ≠ 0) (hds : ∀ c ∈ ds, isDigit c = true) :
    digits (valueFrom n ds) = digits n ++ ds := by
  induction ds generalizing n with
  | nil => rw [valueFrom, List.foldl_nil, List.append_nil]
  | cons c ds ih =>
    have hc := hds c List.mem_cons_self
    rw [valueFrom, List.foldl_cons, ← valueFrom, ih (by omega) fun d hd => hds d (.tail _ hd),
      digits_append_digit hn hc, List.append_assoc, List.singleton_append]

/-- A row of digits is the numeral of its value, with zeros ahead of it. -/
theorem exists_zeros (hne : ds ≠ []) (hds : ∀ c ∈ ds, isDigit c = true) :
    ∃ k, ds = List.replicate k '0' ++ digits (valueFrom 0 ds) := by
  induction ds with
  | nil => exact absurd rfl hne
  | cons c ds ih =>
    obtain ⟨hdigit, hlt⟩ := digit_digitValue (hds c List.mem_cons_self)
    have hrest : ∀ d ∈ ds, isDigit d = true := fun d hd => hds d (.tail _ hd)
    have hvalue : valueFrom 0 (c :: ds) = valueFrom (digitValue c) ds := by
      rw [valueFrom, List.foldl_cons, Nat.mul_zero, Nat.zero_add, ← valueFrom]
    by_cases hc : digitValue c = 0
    · rw [hc] at hdigit hvalue
      rw [hvalue, ← hdigit]
      by_cases hds' : ds = []
      · exact ⟨0, by rw [hds', valueFrom, List.foldl_nil, digits_of_lt (by omega)]; rfl⟩
      · obtain ⟨k, hk⟩ := ih hds' hrest
        exact ⟨k + 1, congrArg (digit 0 :: ·) hk⟩
    · refine ⟨0, ?_⟩
      rw [hvalue, digits_valueFrom hc hrest, digits_of_lt hlt, hdigit]
      rfl

theorem valueFrom_zeros (k : Nat) (ds : List Char) :
    valueFrom 0 (List.replicate k '0' ++ ds) = valueFrom 0 ds := by
  induction k with
  | zero => rfl
  | succ k ih => exact ih

/-- Zeros ahead of a numeral make no difference to its value, and nothing else may stand there. -/
theorem value?_eq_some_iff : value? ds = some n ↔ ∃ k, ds = List.replicate k '0' ++ digits n := by
  rw [value?, Option.ite_none_left_eq_some, Option.some.injEq]
  constructor
  · rintro ⟨hrow, rfl⟩
    simp only [Bool.or_eq_true, List.isEmpty_iff, List.any_eq_true, not_or, not_exists] at hrow
    exact exists_zeros hrow.1 fun c hc => by simpa [hc] using hrow.2 c
  · rintro ⟨k, rfl⟩
    refine ⟨?_, by rw [valueFrom_zeros, valueFrom_digits]⟩
    simp only [Bool.or_eq_true, List.isEmpty_iff, List.any_eq_true, List.append_eq_nil_iff,
      digits_ne_nil, and_false, false_or, not_exists, List.mem_append, List.mem_replicate]
    rintro c ⟨⟨-, rfl⟩ | hc, hdigit⟩
    · exact absurd hdigit (by decide)
    · rw [isDigit_of_mem_digits hc] at hdigit
      cases hdigit

end Numeral

namespace Text

theorem dropLead?_eq_some_iff {lead t u : List Char} : dropLead? lead t = some u ↔ t = lead ++ u := by
  rw [dropLead?, Option.ite_none_right_eq_some, List.isPrefixOf_iff_prefix, Option.some.injEq]
  constructor
  · rintro ⟨⟨rest, rfl⟩, rfl⟩
    rw [List.drop_left]
  · rintro rfl
    exact ⟨List.prefix_append _ _, List.drop_left⟩

end Text

/-! ## Names -/

namespace Job

variable {j : Job} {name other : String} {k n : Nat}

/-- The name of a fragment with some zeros ahead of its number. -/
def paddedName (j : Job) (zeros n : Nat) : String :=
  j.fragmentStem ++ (String.ofList (List.replicate zeros '0') ++ (Numeral.text n ++ j.extension))

/-- Does a zero stand ahead of another digit, right behind the stem of the job's fragments? -/
def Padded (j : Job) (name : String) : Prop :=
  ∃ c rest, Numeral.isDigit c = true ∧ name.toList = j.fragmentStem.toList ++ '0' :: c :: rest

theorem toList_paddedName (j : Job) (zeros n : Nat) :
    (j.paddedName zeros n).toList = j.fragmentStem.toList ++
      (List.replicate zeros '0' ++ Numeral.digits n ++ j.extension.toList) := by
  simp only [paddedName, Numeral.text, String.toList_append, String.toList_ofList, List.append_assoc]

theorem paddedName_zero (j : Job) (n : Nat) : j.paddedName 0 n = j.fileName (.fragment n) := by
  refine String.toList_injective ?_
  rw [toList_paddedName, toList_fragment_fileName]
  rfl

/-- The number in a name is padded if there are zeros ahead of its numeral. -/
theorem padded_paddedName_iff : j.Padded (j.paddedName k n) ↔ k ≠ 0 := by
  rw [Padded, toList_paddedName]
  simp only [List.append_cancel_left_eq]
  cases k with
  | zero =>
    refine iff_of_false ?_ (by simp)
    rintro ⟨c, rest, hc, h⟩
    rw [List.replicate_zero, List.nil_append, extension, toList_extension] at h
    rcases Nat.eq_zero_or_pos n with rfl | hn
    · rw [Numeral.digits_of_lt (by omega)] at h
      cases h
      cases hc
    · obtain ⟨d, ds, hds⟩ := List.exists_cons_of_ne_nil (Numeral.digits_ne_nil n)
      have hhead := Numeral.head?_digits (Nat.ne_of_gt hn)
      rw [hds] at h hhead
      exact hhead (congrArg some (List.cons.inj h).1)
  | succ k =>
    refine iff_of_true ?_ (by simp)
    have hrow : ∀ d ∈ List.replicate k '0' ++ Numeral.digits n, Numeral.isDigit d = true := by
      intro d hd
      rcases List.mem_append.1 hd with hd | hd
      · rw [(List.mem_replicate.1 hd).2]
        decide
      · exact Numeral.isDigit_of_mem_digits hd
    obtain ⟨c, ds, hds⟩ := List.exists_cons_of_ne_nil
      (List.append_ne_nil_of_right_ne_nil (List.replicate k '0') (Numeral.digits_ne_nil n))
    refine ⟨c, ds ++ j.extension.toList, hrow c (hds ▸ List.mem_cons_self), ?_⟩
    rw [List.replicate_succ, List.cons_append, List.cons_append, hds, List.cons_append]

/-- What stands between the stem and the extension. -/
theorem classify_eq (j : Job) (offset : List Char) (h : name.toList =
    j.fragmentStem.toList ++ (offset ++ j.extension.toList)) :
    j.classify name = match Numeral.value? offset with
      | some n => if n < Numeral.word then .start n else .malformed
      | none => .malformed := by
  cases hvalue : Numeral.value? offset with
  | some n => simp [classify, h, Text.dropLead?_append, Text.dropTail?_append, hvalue]
  | none => simp [classify, h, Text.dropLead?_append, Text.dropTail?_append, hvalue]

theorem classify_ne_foreign_iff : j.classify name ≠ .foreign ↔
    ∃ offset, name.toList = j.fragmentStem.toList ++ (offset ++ j.extension.toList) := by
  constructor
  · intro h
    unfold classify at h
    split at h
    · exact absurd rfl h
    · rename_i rest hlead
      split at h
      · exact absurd rfl h
      · rename_i offset htail
        rw [Text.dropLead?_eq_some_iff] at hlead
        rw [Text.dropTail?_eq_some_iff] at htail
        exact ⟨offset, htail ▸ hlead⟩
  · rintro ⟨offset, hoffset⟩
    rw [classify_eq j offset hoffset]
    split
    · split <;> simp
    · simp

theorem dot_not_mem_fragmentStem (j : Job) : '.' ∉ j.fragmentStem.toList := by
  have hindex : '.' ∉ Numeral.digits j.index := fun h =>
    absurd (Numeral.isDigit_of_mem_digits h) (by decide)
  simp [fragmentStem, stem, Numeral.text, hindex]

/-- Stem and extension do not overlap in a name: there is no dot in the stem. -/
theorem exists_offset_iff : (∃ offset, name.toList =
      j.fragmentStem.toList ++ (offset ++ j.extension.toList)) ↔
    j.fragmentStem.toList <+: name.toList ∧ j.extension.toList <:+ name.toList := by
  constructor
  · rintro ⟨offset, h⟩
    exact ⟨⟨_, h.symm⟩, ⟨j.fragmentStem.toList ++ offset, by rw [h, List.append_assoc]⟩⟩
  · rintro ⟨⟨rest, hstem⟩, ⟨front, hextension⟩⟩
    have hname := hstem.trans hextension.symm
    rcases List.append_eq_append_iff.1 hname with ⟨offset, -, hrest⟩ | ⟨shared, hfragment, hshared⟩
    · exact ⟨offset, by rw [← hstem, hrest]⟩
    · rw [extension, toList_extension] at hshared
      cases shared with
      | nil => exact ⟨[], by rw [← hstem, List.nil_append, extension, toList_extension, hshared]; rfl⟩
      | cons c shared =>
        refine absurd ?_ j.dot_not_mem_fragmentStem
        rw [hfragment, (List.cons.inj hshared).1]
        simp

theorem classify_eq_start_iff :
    j.classify name = .start n ↔ n < Numeral.word ∧ ∃ zeros, name = j.paddedName zeros n := by
  constructor
  · intro h
    obtain ⟨offset, hoffset⟩ := classify_ne_foreign_iff.1 (by rw [h]; exact FragmentName.noConfusion)
    rw [classify_eq j offset hoffset] at h
    split at h
    · rename_i m hvalue
      split at h
      · cases h
        obtain ⟨zeros, rfl⟩ := Numeral.value?_eq_some_iff.1 hvalue
        exact ⟨‹_›, zeros, String.toList_injective (by rw [hoffset, toList_paddedName])⟩
      · cases h
    · cases h
  · rintro ⟨hn, zeros, rfl⟩
    have hvalue := Numeral.value?_eq_some_iff.2 ⟨zeros, (rfl : _ ++ Numeral.digits n = _)⟩
    rw [classify_eq j _ (j.toList_paddedName zeros n), hvalue]
    simp only [if_pos hn]

theorem fileName?_path (j : Job) (f : JobFile) : (j.path f).fileName? = some (j.fileName f) := by
  rw [Path.fileName?, path, getLast?_components_join (j.isName_fileName f)]

/-- What the name of a file says about the fragments of a job. -/
structure NamesFragment (j : Job) (name : String) : Prop where
  /-- It stands for the fragment whose numeral it has, with any number of zeros ahead of it. -/
  start : ∀ n, j.classify name = .start n ↔ n < Numeral.word ∧ ∃ zeros, name = j.paddedName zeros n
  /-- It is the name of that fragment's file if there is no zero ahead of the numeral. -/
  written : ∀ n < Numeral.word,
    (j.path (.fragment n)).fileName? = some name ↔ j.classify name = .start n ∧ ¬j.Padded name
  /-- Of all names that stand for one fragment, one has no zero ahead of its numeral. -/
  alone : ∀ other n, j.classify name = .start n → j.classify other = .start n →
    ¬j.Padded name → ¬j.Padded other → other = name
  /-- It is malformed if it has the stem and the extension and stands for no fragment. -/
  malformed : j.classify name = .malformed ↔ (j.fragmentStem.toList <+: name.toList ∧
    j.extension.toList <:+ name.toList) ∧ ∀ n, j.classify name ≠ .start n
  /-- It is no fragment's name if it lacks the stem or the extension. -/
  foreign : j.classify name = .foreign ↔ ¬(j.fragmentStem.toList <+: name.toList ∧
    j.extension.toList <:+ name.toList)

/-- A fragment's file has the one name that stands for it without a zero ahead of the numeral. -/
theorem fileName_fragment_iff (hn : n < Numeral.word) :
    j.fileName (.fragment n) = name ↔ j.classify name = .start n ∧ ¬j.Padded name := by
  rw [classify_eq_start_iff]
  constructor
  · rintro rfl
    exact ⟨⟨hn, 0, (j.paddedName_zero n).symm⟩, by
      rw [← paddedName_zero, padded_paddedName_iff]
      simp⟩
  · rintro ⟨⟨-, zeros, rfl⟩, hpadded⟩
    rw [padded_paddedName_iff, not_not] at hpadded
    rw [hpadded, paddedName_zero]

/-- **Reading the names of fragments.** Writing a frame into a name and reading it back are inverse
to each other, but for names with a zero ahead of the number: they stand for a fragment whose file
has another name. -/
theorem names_fragment (j : Job) (name : String) : NamesFragment j name where
  start n := classify_eq_start_iff
  written n hn := by rw [fileName?_path, Option.some.injEq, fileName_fragment_iff hn]
  alone other n h hother hname hpadded := by
    have hn := (classify_eq_start_iff.1 h).1
    rw [← (fileName_fragment_iff hn).2 ⟨h, hname⟩, (fileName_fragment_iff hn).2 ⟨hother, hpadded⟩]
  malformed := by
    rw [← exists_offset_iff, ← classify_ne_foreign_iff]
    cases j.classify name <;> simp
  foreign := by rw [← exists_offset_iff, ← classify_ne_foreign_iff, not_not]

/-- The seventh job of a directory. -/
def seventh : Job := { source := ⟨"/media/clip.mkv"⟩, directory := ⟨"/jobs"⟩, index := 7 }

/-- A name with zeros ahead of its number stands for a fragment that has another name. -/
theorem padded_name_read :
    seventh.classify "Job7_Output_007.mkv" = .start 7 ∧
      (seventh.path (.fragment 7)).fileName? = some "Job7_Output_7.mkv" ∧
      seventh.classify "Job7_Output_7.mkv" = .start 7 := by
  decide +kernel

end Job

end Restoration
