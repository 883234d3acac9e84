/-!
# White space

The characters that separate words, and cutting them off the edges of a text. Texts are lists of
characters here; a string enters through `String.toList`.

    trim (b₁ ++ t ++ b₂) = trim t      for blank b₁ and b₂
-/

namespace Restoration.Text

/-- The characters with the Unicode property White_Space. -/
def isBlank (c : Char) : Bool :=
  let n := c.toNat
  (0x9 ≤ n && n ≤ 0xD) || n == 0x20 || n == 0x85 || n == 0xA0 || n == 0x1680
    || (0x2000 ≤ n && n ≤ 0x200A) || n == 0x2028 || n == 0x2029 || n == 0x202F || n == 0x205F
    || n == 0x3000

/-- The text without leading white space. -/
def trimStart (t : List Char) : List Char := t.dropWhile isBlank

/-- The text without trailing white space. -/
def trimEnd (t : List Char) : List Char := (t.reverse.dropWhile isBlank).reverse

/-- The text without white space at either edge. -/
def trim (t : List Char) : List Char := trimEnd (trimStart t)

/-- The text without its final `tail`, if it ends in it. -/
def dropTail? (tail t : List Char) : Option (List Char) :=
  if tail.isSuffixOf t then some (t.take (t.length - tail.length)) else none

/-- The text without its initial `lead`, if it starts with it. -/
def dropLead? (lead t : List Char) : Option (List Char) :=
  if lead.isPrefixOf t then some (t.drop lead.length) else none

/-! ## Lemmas -/

theorem trimStart_of_blank {t : List Char} (h : ∀ c ∈ t, isBlank c) : trimStart t = [] := by
  induction t with
  | nil => rfl
  | cons c r ih =>
    have hc : isBlank c := h c (by simp)
    have hr := ih fun d hd => h d (by simp [hd])
    simp only [trimStart] at hr
    simp [trimStart, hc, hr]

theorem isBlank_of_isWhitespace {c : Char} (h : c.isWhitespace) : isBlank c := by
  simp only [Char.isWhitespace, Bool.or_eq_true, decide_eq_true_eq] at h
  rcases h with ((h | h) | h) | h <;> subst h <;> decide

theorem dropLead?_append (lead t : List Char) : dropLead? lead (lead ++ t) = some t := by
  simp [dropLead?]

theorem dropTail?_append (t tail : List Char) : dropTail? tail (t ++ tail) = some t := by
  simp [dropTail?]

end Restoration.Text
