import Restoration.Json.Quoted

/-!
# Strings come back

Every character is written as itself, behind a backslash, or by its number. However it is written,
the end of its string is found behind it, and it is read again:

    scan (encode s ++ '"' :: r) = ok (encode s ++ ['"'], r)
    read (encode s ++ '"' :: r) = ok s
-/

namespace Restoration.Json.Quoted

/-! ## One character -/

theorem hexValue?_hexDigit : ∀ d : Fin 16, hexValue? (hexDigit d) = some d.val := by decide

theorem hex4?_hexDigit {n : Nat} (h : n < 0x100) :
    hex4? '0' '0' (hexDigit (n / 16)) (hexDigit (n % 16)) = some n := by
  have hzero : hexValue? '0' = some 0 := by decide
  have hhigh := hexValue?_hexDigit ⟨n / 16, by omega⟩
  have hlow := hexValue?_hexDigit ⟨n % 16, by omega⟩
  dsimp only at hhigh hlow
  simp only [hex4?, hzero, hhigh, hlow, Option.some.injEq]
  omega

/-- The ways to write a character. -/
inductive Spells : Char → List Char → Prop
  | escaped {c e : Char} (hu : e ≠ 'u') (he : unescape? e = some c) : Spells c ['\\', e]
  | numbered {c : Char} (h : c.toNat < 0x20) :
    Spells c ['\\', 'u', '0', '0', hexDigit (c.toNat / 16), hexDigit (c.toNat % 16)]
  | itself {c : Char} (hquote : c ≠ '"') (hescape : c ≠ '\\') (h : 0x20 ≤ c.toNat) : Spells c [c]

variable {c : Char} {t : List Char}

theorem spells_encodeChar (c : Char) : Spells c (encodeChar c) := by
  unfold encodeChar
  split
  case h_8 hquote hescape _ _ _ _ _ =>
    split
    · exact .numbered ‹_›
    · exact .itself (by simpa using hquote) (by simpa using hescape) (by omega)
  all_goals exact .escaped (by decide) rfl

theorem scan_append (h : Spells c t) (r : List Char) : scan (t ++ r) = after t (scan r) := by
  cases h with
  | escaped hu he => simp [scan, hu, he]
  | numbered h => simp [scan, hex4?_hexDigit (n := c.toNat) (by omega)]
  | itself hquote hescape h => simp [scan, hescape, Nat.not_lt.2 h]

theorem read_append (h : Spells c t) (r : List Char) :
    read (t ++ r) = (read r).map (c :: ·) := by
  cases h with
  | escaped hu he => simp [read, hu, he]
  | numbered h =>
    have htrailing : isTrailing c.toNat = false := by simp [isTrailing]; omega
    have hleading : isLeading c.toNat = false := by simp [isLeading]; omega
    simp [read, hex4?_hexDigit (n := c.toNat) (by omega), htrailing, hleading]
  | itself hquote hescape h => simp [read, hescape, Nat.not_lt.2 h]

/-! ## Whole strings -/

/-- The end of a string is where its closing quote stands. -/
theorem scan_encode (s r : List Char) : scan (encode s ++ '"' :: r) = .ok (encode s ++ ['"'], r) := by
  induction s with
  | nil => rfl
  | cons c s ih =>
    simp only [encode, List.flatMap_cons, List.append_assoc] at ih ⊢
    rw [scan_append (spells_encodeChar c), ih]
    rfl

/-- **A string is read as it was**, whatever its characters are. -/
theorem read_encode (s r : List Char) : read (encode s ++ '"' :: r) = .ok s := by
  induction s with
  | nil => rfl
  | cons c s ih =>
    simp only [encode, List.flatMap_cons, List.append_assoc] at ih ⊢
    rw [read_append (spells_encodeChar c), ih]
    rfl

end Restoration.Json.Quoted
