import Restoration.Proofs.Script.Quotes
import Restoration.Proofs.Script.Reading

/-!
# How lines are read

A line is read from its text without the white space at its edges. `Line.Reads` is the reading as a
relation, with one constructor for each way in which a text makes a line: a comment begins with `#`, a
dependency is a call of its function, and a comment behind a term stands behind the first mark outside
quotes, in a gap of white space (`Line.gap`):

    parse? x = some l  ↔  isEdged (trim x) ∧ Reads (trim x) l
-/

namespace Restoration

open Text Script

/-! ## Parts of a text -/

namespace Text

theorem dropTail?_eq_some_iff {tail t u : List Char} : dropTail? tail t = some u ↔ t = u ++ tail := by
  constructor
  · intro h
    unfold dropTail? at h
    split at h
    · rename_i hsuffix
      obtain ⟨front, rfl⟩ := List.isSuffixOf_iff_suffix.1 hsuffix
      rw [List.length_append, Nat.add_sub_cancel, List.take_left, Option.some.injEq] at h
      rw [h]
    · cases h
  · rintro rfl
    exact dropTail?_append u tail

theorem splitOnce?_eq_some_iff {c : Char} {t a b : List Char} :
    splitOnce? c t = some (a, b) ↔ t = a ++ c :: b ∧ c ∉ a := by
  constructor
  · intro h
    have hlead : c ∉ t.takeWhile (· != c) := fun hmem => by
      simpa using List.mem_takeWhile_imp hmem
    unfold splitOnce? at h
    split at h
    · cases h
    · rename_i d after hdrop
      have hd : d = c := by
        have hhead := List.head?_dropWhile_not (· != c) t
        rw [hdrop] at hhead
        exact bne_eq_false_iff_eq.1 hhead
      rw [Option.some.injEq, Prod.mk.injEq] at h
      obtain ⟨rfl, rfl⟩ := h
      refine ⟨?_, hlead⟩
      have hsplit : t.takeWhile (· != c) ++ t.dropWhile (· != c) = t :=
        List.takeWhile_append_dropWhile
      rw [hdrop, hd] at hsplit
      exact hsplit.symm
  · rintro ⟨rfl, ha⟩
    exact splitOnce?_of_not_mem ha b

end Text

/-! ## Numerals -/

namespace Numeral

variable {bound n : Nat} {t : List Char}

theorem isDigit_of_value? (h : value? t = some n) : ∀ c ∈ t, isDigit c = true := by
  unfold value? at h
  split at h
  · cases h
  · rename_i hdigits
    intro c hc
    by_contra hdigit
    exact hdigits (by simpa using .inr ⟨c, hc, by simpa using hdigit⟩)

theorem exists_value_of_read? (h : read? bound t = some n) :
    ∃ ds, (t = ds ∨ t = '+' :: ds) ∧ value? ds = some n ∧ n < bound := by
  unfold read? at h
  dsimp only at h
  split at h
  · rename_i m hm
    split at h
    · rename_i hlt
      cases h
      split at hm
      · exact ⟨_, .inr rfl, hm, hlt⟩
      · exact ⟨_, .inl rfl, hm, hlt⟩
    · cases h
  · cases h

/-- A numeral is made of digits, perhaps behind a plus sign, and small enough. -/
theorem lt_of_read? (h : read? bound t = some n) :
    n < bound ∧ ∀ c ∈ t, isDigit c = true ∨ c = '+' := by
  obtain ⟨ds, hds, hvalue, hlt⟩ := exists_value_of_read? h
  have hdigits : ∀ c ∈ ds, isDigit c = true ∨ c = '+' := fun c hc =>
    .inl (isDigit_of_value? hvalue c hc)
  refine ⟨hlt, ?_⟩
  rcases hds with rfl | rfl
  · exact hdigits
  · exact List.forall_mem_cons.2 ⟨.inr rfl, hdigits⟩

end Numeral

/-! ## Dependencies -/

namespace Script

theorem unquote?_eq_some_iff {a p : List Char} :
    unquote? a = some p ↔ trim a = '"' :: (p ++ ['"']) := by
  unfold unquote?
  split
  · rename_i r hr
    rw [dropTail?_eq_some_iff, hr, List.cons.injEq]
    simp
  · rename_i hquote
    constructor
    · intro h
      cases h
    · intro h
      exact absurd h (hquote _)

end Script

namespace Dependency

variable {d : Dependency} {f : String} {as : List (List Char)} {t : List Char}

theorem IsCallOf.ne_nil (h : d.IsCallOf as) : as ≠ [] := by
  cases h <;> simp

theorem IsCallOf.preroll_lt (h : d.IsCallOf as) : ∀ n ∈ d.preroll?, n < prerollBound := by
  cases h with
  | loadPlugin | importScript => simp [preroll?]
  | loadVirtualDubPlugin _ _ preroll => simpa [preroll?] using (Numeral.lt_of_read? preroll).1

/-- A statement is the name of its function, trimmed or not, and its arguments in parentheses. -/
theorem parse?_eq_some_iff (ht : isEdged t = true) : parse? t = some d ↔
    ∃ f as, t = f ++ '(' :: (as ++ [')']) ∧ '(' ∉ f ∧ trim f = d.function.toList ∧
      d.IsCallOf (splitArguments as) := by
  have hname : ∀ f, String.ofList (trim f) = d.function ↔ trim f = d.function.toList := fun f => by
    rw [← String.toList_inj, String.toList_ofList]
  simp only [parse?, Script.trim_of_isEdged ht, Option.bind_eq_bind, Option.bind_eq_some_iff,
    dropTail?_eq_some_iff, Prod.exists, splitOnce?_eq_some_iff, ofCall?_eq_some_iff, hname]
  constructor
  · rintro ⟨_, rfl, f, as, ⟨rfl, hf⟩, hfunction, hcall⟩
    exact ⟨f, as, by simp, hf, hfunction, hcall⟩
  · rintro ⟨f, as, rfl, hf, hfunction, hcall⟩
    exact ⟨f ++ '(' :: as, by simp, f, as, ⟨rfl, hf⟩, hfunction, hcall⟩

end Dependency

/-! ## Lines -/

namespace Line

variable {t x : List Char} {l : Line}

/-- The mark of a comment with white space around it. -/
def gap (a b : List Char) : List Char := a ++ (commentMark.toList ++ b)

/-- The line is read from the text, which has no white space at its edges. -/
inductive Reads : List Char → Line → Prop
  | spaced (r : List Char) : Reads ('#' :: ' ' :: r) (comment (String.ofList r))
  | joined (r : List Char) (h : r.head? ≠ some ' ') : Reads ('#' :: r) (comment (String.ofList r))
  | dependency {c : Char} {r : List Char} {d : Dependency} (lead : c ≠ '#')
      (read : Dependency.parse? (c :: r) = some d) : Reads (c :: r) (dependency d)
  | commented {c : Char} {r s a b comment : List Char} (lead : c ≠ '#')
      (plain : Dependency.parse? (c :: r) = none) (split : c :: r = s ++ (gap a b ++ comment))
      (ha : IsBlank a) (hb : IsBlank b) (hs : isEdged s = true) (hcomment : isEdged comment = true)
      (first : findUnquoted? commentMark.toList (c :: r) = some (byteSize (s ++ a))) :
      Reads (c :: r) (termWithComment (String.ofList s) (String.ofList comment))
  | term {c : Char} {r : List Char} (lead : c ≠ '#') (plain : Dependency.parse? (c :: r) = none)
      (uncommented : findUnquoted? commentMark.toList (c :: r) = none) :
      Reads (c :: r) (term (String.ofList (c :: r)))

theorem commentMark_toList : commentMark.toList = [' ', '#', ' '] := by decide

theorem mark_ne_nil : commentMark.toList ≠ [] := by decide

theorem head?_mark : commentMark.toList.head? ≠ some '"' := by decide

/-- A mark in a text without white space at its edges stands between a term and a comment. -/
theorem exists_gap (ht : isEdged t = true) {ahead : List Char}
    (hmark : ahead ++ commentMark.toList <+: t) :
    ∃ s a b c, t = s ++ (gap a b ++ c) ∧ IsBlank a ∧ IsBlank b ∧ isEdged s = true ∧
      isEdged c = true ∧ ahead = s ++ a := by
  obtain ⟨behind, rfl⟩ := hmark
  have hfirst : ahead ++ commentMark.toList ++ behind = ahead ++ ' ' :: ('#' :: ' ' :: behind) := by
    simp [commentMark_toList]
  have hlast : ahead ++ commentMark.toList ++ behind = (ahead ++ [' ', '#']) ++ ' ' :: behind := by
    simp [commentMark_toList]
  obtain ⟨a, ha, htrimmed⟩ := trimEnd_spec ahead
  have hs := isEdged_trimEnd_ahead (by decide) (hfirst ▸ ht)
  obtain ⟨hc, b, hb, hsplit⟩ := isEdged_trim_behind (by decide) (hlast ▸ ht)
  refine ⟨trimEnd ahead, a, b, trim behind, ?_, ha, hb, hs, hc, htrimmed⟩
  conv_lhs => rw [htrimmed, hsplit]
  simp [gap]

theorem prefix_gap (s a b c : List Char) : s ++ a <+: s ++ (gap a b ++ c) := by
  rw [gap, List.append_assoc, ← List.append_assoc s]
  exact List.prefix_append _ _

theorem trimEnd_takeBytes_gap {s a : List Char} (ha : IsBlank a) (hs : isEdged s = true)
    (b c : List Char) : trimEnd (takeBytes (byteSize (s ++ a)) (s ++ (gap a b ++ c))) = s := by
  rw [gap, List.append_assoc, ← List.append_assoc s, takeBytes_append,
    trimEnd_append ha (isEdged_iff.1 hs).2.2]

theorem trim_dropBytes_gap {b c : List Char} (hb : IsBlank b) (hc : isEdged c = true)
    (s a : List Char) : trim (dropBytes (byteSize (s ++ a) + byteSize commentMark.toList)
      (s ++ (gap a b ++ c))) = c := by
  have hsplit : s ++ (gap a b ++ c) = ((s ++ a) ++ commentMark.toList) ++ (b ++ c) := by simp [gap]
  rw [hsplit, ← byteSize_append, dropBytes_append]
  simpa using trim_of_split hb isBlank_nil hc

/-! ## Reading -/

theorem ofTrimmed?_hash (r : List Char) : ofTrimmed? ('#' :: r) = some l ↔ Reads ('#' :: r) l := by
  constructor
  · intro h
    unfold ofTrimmed? at h
    split at h
    · cases h
    · rename_i r' heq
      cases heq
      cases h
      exact .spaced r'
    · rename_i r' hspace heq
      cases heq
      cases h
      refine .joined _ fun hhead => ?_
      obtain ⟨rest, rfl⟩ := List.head?_eq_some_iff.1 hhead
      exact hspace rest rfl
    · rename_i hjoined
      exact absurd rfl (hjoined r)
  · intro h
    cases h with
    | spaced r => rfl
    | joined r hspace =>
      unfold ofTrimmed?
      split
      · rename_i heq
        cases heq
      · rename_i r' heq
        cases heq
        exact absurd rfl hspace
      · rename_i heq
        cases heq
        rfl
      · rename_i hjoined
        exact absurd rfl (hjoined r)
    | dependency lead _ | commented lead _ _ _ _ _ _ _ | term lead _ _ => exact absurd rfl lead

theorem ofTrimmed?_lead {c : Char} {r : List Char} (hlead : c ≠ '#')
    (ht : isEdged (c :: r) = true) : ofTrimmed? (c :: r) = some l ↔ Reads (c :: r) l := by
  rw [ofTrimmed?_cons hlead]
  constructor
  · intro h
    split at h
    · rename_i d hd
      cases h
      exact .dependency hlead hd
    · rename_i hplain
      split at h
      · rename_i i hi
        obtain ⟨ahead, rfl, ⟨hmark, -⟩, -⟩ :=
          (findUnquoted?_eq_some_iff mark_ne_nil head?_mark).1 hi
        obtain ⟨s, a, b, comment, hsplit, ha, hb, hs, hcomment, rfl⟩ := exists_gap ht hmark
        rw [hsplit, trimEnd_takeBytes_gap ha hs, trim_dropBytes_gap hb hcomment] at h
        cases h
        exact .commented hlead hplain hsplit ha hb hs hcomment hi
      · rename_i hnone
        cases h
        exact .term hlead hplain hnone
  · intro h
    cases h with
    | spaced | joined => exact absurd rfl hlead
    | dependency _ read => rw [read]
    | commented _ plain split ha hb hs hcomment first =>
      simp only [plain, first]
      rw [split, trimEnd_takeBytes_gap ha hs, trim_dropBytes_gap hb hcomment]
    | term _ plain uncommented => simp only [plain, uncommented]

/-- What is read from a text is read in one of these ways, and in no other. -/
theorem ofTrimmed?_eq_some_iff (ht : isEdged t = true) : ofTrimmed? t = some l ↔ Reads t l := by
  obtain ⟨c, r, rfl⟩ := List.exists_cons_of_ne_nil (ne_nil_of_isEdged ht)
  by_cases hlead : c = '#'
  · rw [hlead]
    exact ofTrimmed?_hash r
  · exact ofTrimmed?_lead hlead ht

/-- Blank text is no line, and other text is the line that is read without its edges. -/
theorem parse?_eq_some_iff : parse? x = some l ↔ isEdged (trim x) = true ∧ Reads (trim x) l := by
  rw [parse?]
  rcases trim_eq_nil_or_isEdged x with hnil | hedged
  · rw [hnil]
    constructor
    · intro h
      cases h
    · rintro ⟨h, -⟩
      cases h
  · rw [ofTrimmed?_eq_some_iff hedged]
    exact ⟨fun h => ⟨hedged, h⟩, fun h => h.2⟩

/-- Text that is not blank is a line. -/
theorem isSome_parse? (hx : trim x ≠ []) : (parse? x).isSome = true := by
  obtain ⟨c, r, htrim⟩ := List.exists_cons_of_ne_nil hx
  rw [parse?, htrim]
  by_cases hlead : c = '#'
  · subst hlead
    by_cases hspace : r.head? = some ' '
    · obtain ⟨rest, rfl⟩ := List.head?_eq_some_iff.1 hspace
      rfl
    · rw [(ofTrimmed?_hash r).2 (.joined r hspace)]
      rfl
  · rw [ofTrimmed?_cons hlead]
    split
    · rfl
    · split <;> rfl

end Line

end Restoration
