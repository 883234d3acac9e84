/-!
# Occurrences of one text in another

Finding, replacing and splitting at a pattern, always from left to right and without overlap.

    replace p w (t without p) = t
-/

namespace Restoration.Text

/-! ## Algorithm -/

/-- Does `pattern` stand somewhere in the text? -/
def occursIn (pattern : List Char) : List Char → Bool
  | [] => pattern.isEmpty
  | c :: r => pattern.isPrefixOf (c :: r) || occursIn pattern r

/-- The text with every occurrence of the non-empty `pattern` replaced by `other`. -/
def replace (pattern other : List Char) (t : List Char) : List Char :=
  match t with
  | [] => []
  | c :: r =>
    if 0 < pattern.length ∧ pattern.isPrefixOf (c :: r) then
      other ++ replace pattern other ((c :: r).drop pattern.length)
    else c :: replace pattern other r
termination_by t.length
decreasing_by all_goals simp_all <;> omega

/-- The pieces of the text between the characters for which `sep` holds; never empty. -/
def splitAt (sep : Char → Bool) : List Char → List (List Char)
  | [] => [[]]
  | c :: r =>
    if sep c then [] :: splitAt sep r
    else match splitAt sep r with
      | [] => [[c]]
      | piece :: rest => (c :: piece) :: rest

/-- What stands before and after the first `c`, if there is one. -/
def splitOnce? (c : Char) (t : List Char) : Option (List Char × List Char) :=
  match t.dropWhile (· != c) with
  | [] => none
  | _ :: after => some (t.takeWhile (· != c), after)

/-- A line without the carriage return that may precede its line feed. -/
def dropReturn (line : List Char) : List Char :=
  if line.getLast? = some '\r' then line.dropLast else line

/-- The lines of a text. A line ends in a line feed, with or without a carriage return ahead of it;
what follows the last line feed is a line if it is not empty. -/
def lines (t : List Char) : List (List Char) :=
  let pieces := splitAt (· == '\n') t
  let last := pieces.getLastD []
  pieces.dropLast.map dropReturn ++ (if last.isEmpty then [] else [last])

end Restoration.Text

namespace Restoration

/-- Does `pattern` stand somewhere in the string? -/
def hasText (s pattern : String) : Bool := Text.occursIn pattern.toList s.toList

end Restoration

namespace Restoration.Text

/-! ## Lemmas -/

theorem splitAt_ne_nil (sep : Char → Bool) (t : List Char) : splitAt sep t ≠ [] := by
  cases t with
  | nil => simp [splitAt]
  | cons c r =>
    rw [splitAt]
    split
    · simp
    · split <;> simp

theorem splitOnce?_of_not_mem {c : Char} {before : List Char} (h : c ∉ before) (after : List Char) :
    splitOnce? c (before ++ c :: after) = some (before, after) := by
  have hb : ∀ d ∈ before, (d != c) = true := by
    intro d hd
    rw [bne_iff_ne]
    exact fun hdc => h (hdc ▸ hd)
  simp [splitOnce?, List.dropWhile_append_of_pos hb, List.takeWhile_append_of_pos hb]

theorem occursIn_iff {pattern t : List Char} : occursIn pattern t = true ↔ pattern <:+: t := by
  induction t with
  | nil => simp [occursIn]
  | cons c r ih => simp [occursIn, ih, List.infix_cons_iff]

end Restoration.Text
