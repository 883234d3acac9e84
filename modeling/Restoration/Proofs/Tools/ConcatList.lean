import Restoration.Proofs.Script.Reading
import Restoration.Tools.ConcatList

/-!
# Concat lists come back

How a transcoder reads a list of files, and that it reads the files that the list was written for. The
escapes are written in one pass for each special character; as the backslash goes first, the passes
together escape one character at a time (`escape_eq_flatMap`), and reading undoes that one character at
a time:

    token .plain (escapeChar c ++ r) = c :: token .plain r        for every c but other white space
-/

namespace Restoration

/-- A single character is replaced one character at a time. -/
theorem Text.replace_singleton (c : Char) (other t : List Char) :
    replace [c] other t = t.flatMap fun d => if d = c then other else [d] := by
  induction t with
  | nil => simp [replace]
  | cons d r ih =>
    rw [replace, List.flatMap_cons]
    by_cases h : d = c
    · rw [if_pos (by simp [h]), if_pos h]
      simp [ih]
    · rw [if_neg (by simp [Ne.symm h]), if_neg h, ih]
      rfl

namespace ConcatList

/-! ## Reading -/

/-- The white space of a list. -/
def isSpace (c : Char) : Bool := c = ' ' || c = '\t' || c = '\r' || c = '\n'

/-- How the next character of a token is read. -/
inductive Mode where
  | plain
  /-- Behind a backslash, where any character stands for itself. -/
  | escaped
  /-- Behind a quote, where all do up to the next quote. -/
  | quoted

/-- The token that a text starts with. White space ends it, unless it is escaped or quoted. -/
def token : Mode → List Char → List Char
  | .escaped, [] => ['\\']
  | _, [] => []
  | .plain, c :: r =>
    if c = '\\' then token .escaped r
    else if c = '\x27' then token .quoted r
    else if isSpace c then []
    else c :: token .plain r
  | .escaped, c :: r => c :: token .plain r
  | .quoted, c :: r => if c = '\x27' then token .plain r else c :: token .quoted r

/-- The file that a line names: a keyword, white space, and a token. -/
def fileOf? (line : List Char) : Option Path := do
  let r ← Text.dropLead? "file".toList line
  if r.head?.any isSpace then some ⟨String.ofList (token .plain (r.dropWhile isSpace))⟩ else none

/-- The files of a list. -/
def decode? (s : String) : Option (List Path) := (Text.lines s.toList).mapM fileOf?

/-! ## Escapes -/

/-- One character of a file name as it is written. -/
def escapeChar (c : Char) : List Char := if c ∈ special then ['\\', c] else [c]

theorem escape_eq_flatMap (t : List Char) : escape t = t.flatMap escapeChar := by
  simp only [escape, special, List.foldl_cons, List.foldl_nil, escapeAll, Text.replace_singleton,
    List.flatMap_assoc]
  refine List.flatMap_congr fun c _ => ?_
  by_cases hslash : c = '\\'
  · subst hslash
    decide
  by_cases hblank : c = ' '
  · subst hblank
    decide
  by_cases hquote : c = '\x27'
  · subst hquote
    decide
  · simp [escapeChar, special, hslash, hblank, hquote]

/-- A file name without white space that cannot be escaped. -/
def Listable (p : Path) : Prop := ∀ c ∈ p.text.toList, c ≠ '\t' ∧ c ≠ '\r' ∧ c ≠ '\n'

instance (p : Path) : Decidable (Listable p) :=
  inferInstanceAs (Decidable (∀ c ∈ p.text.toList, c ≠ '\t' ∧ c ≠ '\r' ∧ c ≠ '\n'))

variable {c : Char} {t : List Char}

theorem token_escapeChar (hc : c ≠ '\t' ∧ c ≠ '\r' ∧ c ≠ '\n') (r : List Char) :
    token .plain (escapeChar c ++ r) = c :: token .plain r := by
  unfold escapeChar
  split
  · simp [token]
  · rename_i hplain
    simp only [special, List.mem_cons, List.not_mem_nil, or_false, not_or] at hplain
    simp [token, isSpace, hplain, hc]

theorem token_escape (h : ∀ c ∈ t, c ≠ '\t' ∧ c ≠ '\r' ∧ c ≠ '\n') : token .plain (escape t) = t := by
  rw [escape_eq_flatMap]
  induction t with
  | nil => rfl
  | cons c t ih =>
    obtain ⟨hc, ht⟩ := List.forall_mem_cons.1 h
    rw [List.flatMap_cons, token_escapeChar hc, ih ht]

/-- A file name as it is written starts with no white space. -/
theorem dropWhile_escape (h : ∀ c ∈ t, c ≠ '\t' ∧ c ≠ '\r' ∧ c ≠ '\n') :
    (escape t).dropWhile isSpace = escape t := by
  rw [escape_eq_flatMap]
  cases t with
  | nil => rfl
  | cons c t =>
    rw [List.flatMap_cons, escapeChar]
    split
    · rfl
    · rename_i hplain
      simp only [special, List.mem_cons, List.not_mem_nil, or_false, not_or] at hplain
      have hspace : isSpace c = false := by simp [isSpace, hplain, h c]
      simp [hspace]

theorem mem_escape (h : c ∈ escape t) : c = '\\' ∨ c ∈ t := by
  rw [escape_eq_flatMap, List.mem_flatMap] at h
  obtain ⟨d, hd, h⟩ := h
  unfold escapeChar at h
  split at h
  · rcases List.mem_cons.1 h with rfl | h
    · exact .inl rfl
    · exact .inr (List.mem_singleton.1 h ▸ hd)
  · exact .inr (List.mem_singleton.1 h ▸ hd)

/-! ## Lines -/

theorem fileOf?_line {p : Path} (hp : Listable p) :
    fileOf? ("file ".toList ++ escape p.text.toList) = some p := by
  have hlead : "file ".toList ++ escape p.text.toList =
      "file".toList ++ ' ' :: escape p.text.toList := rfl
  have hblank : isSpace ' ' = true := by decide
  rw [fileOf?, hlead, Text.dropLead?_append]
  simp [hblank, dropWhile_escape hp, token_escape hp]

theorem lines_text {ps : List Path} (h : ∀ p ∈ ps, Listable p) :
    Text.lines (text ps).toList = ps.map fun p => "file ".toList ++ escape p.text.toList := by
  have hline : ∀ l ∈ ps.map (fun p => "file ".toList ++ escape p.text.toList),
      '\n' ∉ l ∧ '\r' ∉ l := by
    intro l hl
    obtain ⟨p, hp, rfl⟩ := List.mem_map.1 hl
    have hbreak : '\n' ∉ escape p.text.toList := fun hmem =>
      (mem_escape hmem).elim (by decide) fun hmem => (h p hp _ hmem).2.2 rfl
    have hreturn : '\r' ∉ escape p.text.toList := fun hmem =>
      (mem_escape hmem).elim (by decide) fun hmem => (h p hp _ hmem).2.1 rfl
    simp only [List.mem_append, not_or]
    exact ⟨⟨by decide, hbreak⟩, by decide, hreturn⟩
  rw [text, String.toList_ofList, ← Text.lines_flatMap fun l hl =>
    ⟨(hline l hl).1, fun hlast => (hline l hl).2 (List.mem_of_getLast? hlast)⟩, List.flatMap_map]
  rfl

theorem decode?_text {ps : List Path} (h : ∀ p ∈ ps, Listable p) : decode? (text ps) = some ps := by
  rw [decode?, lines_text h]
  induction ps with
  | nil => rfl
  | cons p ps ih =>
    obtain ⟨hp, hps⟩ := List.forall_mem_cons.1 h
    rw [List.map_cons, List.mapM_cons, fileOf?_line hp, ih hps]
    rfl

/-- **A list is read as the files that it was written for**, in their order, so that no two lists have
one text. -/
theorem list_decodes {ps : List Path} (h : ∀ p ∈ ps, Listable p) :
    decode? (text ps) = some ps ∧ ∀ qs, (∀ q ∈ qs, Listable q) → text qs = text ps → qs = ps := by
  refine ⟨decode?_text h, fun qs hqs heq => ?_⟩
  have hboth : some qs = some ps := by rw [← decode?_text hqs, heq, decode?_text h]
  exact Option.some.inj hboth

/-- Blanks at both ends, quotes, and backslashes ahead of other special characters. -/
theorem list_decodes_edges :
    let ps : List Path := [⟨" it\x27s \\ here "⟩, ⟨"\\\\\x27"⟩, ⟨""⟩, ⟨"/jobs/\u2003Übung"⟩]
    (∀ p ∈ ps, Listable p) ∧ decode? (text ps) = some ps := by
  intro ps
  have hps : ∀ p ∈ ps, Listable p := by decide
  exact ⟨hps, (list_decodes hps).1⟩

end ConcatList

end Restoration
