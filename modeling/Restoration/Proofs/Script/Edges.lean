import Mathlib.Data.List.Basic
import Mathlib.Data.List.TakeWhile
import Restoration.Proofs.Script.Call

/-!
# Edges of a text

Trimming takes white space off both edges and leaves either nothing or a text without white space at
its edges. So a trimmed text is known from any way to write the text around it:

    trim (a ++ (m ++ b)) = m           for blank a, b and edged m
-/

namespace Restoration

namespace Text

/-- Is there nothing but white space? -/
def IsBlank (t : List Char) : Prop := ∀ c ∈ t, isBlank c = true

theorem isBlank_nil : IsBlank [] := by simp [IsBlank]

theorem not_mem_of_isBlank {b : List Char} {c : Char} (h : IsBlank b) (hc : isBlank c = false) :
    c ∉ b := fun hmem => by
  rw [h c hmem] at hc
  cases hc

/-! ## One edge -/

theorem trimStart_spec (t : List Char) : ∃ a, IsBlank a ∧ t = a ++ trimStart t :=
  ⟨t.takeWhile isBlank, fun _ hc => List.mem_takeWhile_imp hc, List.takeWhile_append_dropWhile.symm⟩

theorem trimEnd_spec (t : List Char) : ∃ b, IsBlank b ∧ t = trimEnd t ++ b := by
  obtain ⟨a, ha, hsplit⟩ := trimStart_spec t.reverse
  refine ⟨a.reverse, fun c hc => ha c (List.mem_reverse.1 hc), ?_⟩
  rw [trimEnd, ← trimStart, ← List.reverse_append, ← hsplit, List.reverse_reverse]

theorem head?_trimStart (t : List Char) : (trimStart t).head?.all (!isBlank ·) = true := by
  have h := List.head?_dropWhile_not isBlank t
  rw [← trimStart] at h
  cases hhead : (trimStart t).head? with
  | none => rfl
  | some c =>
    rw [hhead] at h
    simpa using h

theorem getLast?_trimEnd (t : List Char) : (trimEnd t).getLast?.all (!isBlank ·) = true := by
  rw [trimEnd, List.getLast?_reverse]
  exact head?_trimStart t.reverse

theorem trimStart_append {a m : List Char} (ha : IsBlank a)
    (hm : m.head?.all (!isBlank ·) = true) : trimStart (a ++ m) = m := by
  rw [trimStart, List.dropWhile_append_of_pos ha]
  cases m with
  | nil => rfl
  | cons c r =>
    have hc : isBlank c = false := by simpa using hm
    rw [List.dropWhile_cons, hc]
    rfl

theorem trimEnd_append {m b : List Char} (hb : IsBlank b)
    (hm : m.getLast?.all (!isBlank ·) = true) : trimEnd (m ++ b) = m := by
  have hreverse := trimStart_append (a := b.reverse) (m := m.reverse)
    (fun c hc => hb c (List.mem_reverse.1 hc)) (by rwa [List.head?_reverse])
  rw [trimEnd, List.reverse_append, ← trimStart, hreverse, List.reverse_reverse]

end Text

/-! ## Both edges -/

namespace Script

open Text

variable {a b m t : List Char}

theorem isEdged_iff : isEdged t = true ↔
    t ≠ [] ∧ t.head?.all (!isBlank ·) = true ∧ t.getLast?.all (!isBlank ·) = true := by
  cases t with
  | nil => simp [isEdged]
  | cons c r => simp [isEdged, List.getLast?_cons]

theorem ne_nil_of_isEdged (h : isEdged t = true) : t ≠ [] := (isEdged_iff.1 h).1

theorem trim_eq_nil_or_isEdged (t : List Char) : trim t = [] ∨ isEdged (trim t) = true := by
  by_cases hne : trim t = []
  · exact .inl hne
  · refine .inr (isEdged_iff.2 ⟨hne, ?_, getLast?_trimEnd _⟩)
    obtain ⟨b, -, hsplit⟩ := trimEnd_spec (trimStart t)
    have hhead := head?_trimStart t
    rw [hsplit, ← trim, List.head?_append_of_ne_nil _ hne] at hhead
    exact hhead

/-- A text is its trimmed text with white space around it. -/
theorem trim_spec (t : List Char) : ∃ a b, IsBlank a ∧ IsBlank b ∧ t = a ++ (trim t ++ b) := by
  obtain ⟨a, ha, hstart⟩ := trimStart_spec t
  obtain ⟨b, hb, hend⟩ := trimEnd_spec (trimStart t)
  exact ⟨a, b, ha, hb, by rw [trim, ← hend, ← hstart]⟩

theorem trim_eq_nil_iff : trim t = [] ↔ IsBlank t := by
  constructor
  · intro h
    obtain ⟨a, b, ha, hb, hsplit⟩ := trim_spec t
    rw [h, List.nil_append] at hsplit
    rw [hsplit]
    exact List.forall_mem_append.2 ⟨ha, hb⟩
  · intro h
    rw [trim, trimStart_of_blank h]
    rfl

theorem trim_of_split (ha : IsBlank a) (hb : IsBlank b) (hm : isEdged m = true) :
    trim (a ++ (m ++ b)) = m := by
  obtain ⟨hne, hhead, hlast⟩ := isEdged_iff.1 hm
  rw [trim, trimStart_append ha (by rwa [List.head?_append_of_ne_nil _ hne]), trimEnd_append hb hlast]

theorem trim_trim (t : List Char) : trim (trim t) = trim t := by
  rcases trim_eq_nil_or_isEdged t with h | h
  · rw [h]
    rfl
  · exact trim_of_isEdged h

/-- Text between edged texts does not change the edges. -/
theorem isEdged_append (ha : isEdged a = true) (m : List Char) (hb : isEdged b = true) :
    isEdged (a ++ (m ++ b)) = true := by
  obtain ⟨hna, hhead, -⟩ := isEdged_iff.1 ha
  obtain ⟨hnb, -, hlast⟩ := isEdged_iff.1 hb
  refine isEdged_iff.2 ⟨by simp [hna], ?_, ?_⟩
  · rwa [List.head?_append_of_ne_nil _ hna]
  · rwa [← List.append_assoc, List.getLast?_append_of_ne_nil _ hnb]

/-- What stands behind the first of several characters does not change the edges. -/
theorem isEdged_cons_cons {c d : Char} {r : List Char} (h : isEdged (c :: r) = true)
    (hr : r ≠ []) : isEdged (c :: d :: r) = true := by
  obtain ⟨-, hhead, hlast⟩ := isEdged_iff.1 h
  refine isEdged_iff.2 ⟨List.cons_ne_nil _ _, hhead, ?_⟩
  rw [List.getLast?_cons_of_ne_nil hr] at hlast
  rwa [List.getLast?_cons_cons, List.getLast?_cons_of_ne_nil hr]

/-- No edged text ends in white space. -/
theorem eq_nil_of_isBlank_suffix (h : isEdged t = true) (hb : IsBlank b) (hsuffix : b <:+ t) :
    b = [] := by
  rcases List.eq_nil_or_concat b with rfl | ⟨front, c, rfl⟩
  · rfl
  · obtain ⟨lead, rfl⟩ := hsuffix
    have hlast := (isEdged_iff.1 h).2.2
    have hc : isBlank c = true := hb c (by simp)
    rw [List.concat_eq_append, ← List.append_assoc, List.getLast?_concat] at hlast
    simp [hc] at hlast

section around

variable {c : Char} (hc : isBlank c = true) (h : isEdged (a ++ c :: b) = true)

include hc h

/-- Ahead of white space in an edged text is more than white space. -/
theorem isEdged_trimEnd_ahead : isEdged (trimEnd a) = true := by
  obtain ⟨x, hx, hsplit⟩ := trimEnd_spec a
  obtain ⟨-, hhead, -⟩ := isEdged_iff.1 h
  have hne : trimEnd a ≠ [] := by
    intro hnil
    rw [hsplit, hnil, List.nil_append] at hhead
    cases x with
    | nil => simp [hc] at hhead
    | cons d x => simp [hx d List.mem_cons_self] at hhead
  refine isEdged_iff.2 ⟨hne, ?_, getLast?_trimEnd a⟩
  rwa [hsplit, List.append_assoc, List.head?_append_of_ne_nil _ hne] at hhead

/-- Behind white space in an edged text is more than white space, up to the end. -/
theorem isEdged_trim_behind : isEdged (trim b) = true ∧ ∃ x, IsBlank x ∧ b = x ++ trim b := by
  obtain ⟨x, y, hx, hy, hsplit⟩ := trim_spec b
  have hend : y = [] := by
    refine eq_nil_of_isBlank_suffix h hy ?_
    rw [hsplit]
    exact ⟨a ++ c :: (x ++ trim b), by simp⟩
  rw [hend, List.append_nil] at hsplit
  refine ⟨(trim_eq_nil_or_isEdged b).resolve_left fun hnil => ?_, x, hx, hsplit⟩
  have hblank : IsBlank (c :: x) := List.forall_mem_cons.2 ⟨hc, hx⟩
  refine List.cons_ne_nil _ _ (eq_nil_of_isBlank_suffix h hblank ?_)
  rw [hsplit, hnil, List.append_nil]
  exact List.suffix_append a (c :: x)

end around

/-! ## Characters that are not white space -/

/-- The characters of a text that are not white space. -/
def solid (t : List Char) : List Char := t.filter (!isBlank ·)

@[simp] theorem solid_append (a b : List Char) : solid (a ++ b) = solid a ++ solid b :=
  List.filter_append a b

theorem solid_of_isBlank (h : IsBlank t) : solid t = [] := by
  rw [solid, List.filter_eq_nil_iff]
  intro c hc
  simp [h c hc]

theorem solid_cons {c : Char} (hc : isBlank c = false) (r : List Char) :
    solid (c :: r) = c :: solid r := by
  rw [solid, List.filter_cons_of_pos (by simp [hc]), ← solid]

theorem solid_trim (t : List Char) : solid (trim t) = solid t := by
  obtain ⟨a, b, ha, hb, hsplit⟩ := trim_spec t
  conv_rhs => rw [hsplit]
  rw [solid_append, solid_append, solid_of_isBlank ha, solid_of_isBlank hb, List.nil_append,
    List.append_nil]

theorem exists_solid_cons (h : isEdged t = true) : ∃ c r, t = c :: r ∧ solid t = c :: solid r := by
  obtain ⟨hne, hhead, -⟩ := isEdged_iff.1 h
  obtain ⟨c, r, rfl⟩ := List.exists_cons_of_ne_nil hne
  exact ⟨c, r, rfl, solid_cons (by simpa using hhead) r⟩

end Script

end Restoration
