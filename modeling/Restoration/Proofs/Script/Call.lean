import Restoration.Proofs.Script.Pieces
import Restoration.Stage.Statements

/-!
# Calls in the text of a line

A statement of a script is read as a call: the name ahead of the first parenthesis, and the
arguments between the commas outside quotes. What stages write as a call is read back as it was
written:

    readCall? (call f as) = some ⟨f, as⟩
                            for a name without parenthesis and arguments that hold together
-/

namespace Restoration

/-- A call of a function of the scripting engine. -/
structure Call where
  function : String
  arguments : List String
  deriving DecidableEq, Repr

/-- Reads a call from the text of a statement. -/
def readCall? (t : List Char) : Option Call := do
  let (function, rest) ← Text.splitOnce? '(' t
  let inner ← Text.dropTail? [')'] rest
  pure ⟨String.ofList function, (Script.splitArguments inner).map String.ofList⟩

/-- The call that a line makes; dependencies and comments make none. -/
def Line.call? : Line → Option Call
  | .term s => readCall? s.toList
  | .termWithComment s _ => readCall? s.toList
  | _ => none

namespace Script

/-- Reads on from a plain or quoted point: `none` if a comma separates the text, and otherwise
whether its end is quoted. -/
def quotedAfter (quoted : Bool) : List Char → Option Bool
  | [] => some quoted
  | c :: r =>
    if c = ',' ∧ quoted = false then none
    else quotedAfter (if c = '"' then !quoted else quoted) r

/-- Is the text non-blank at both edges? -/
def isEdged (a : List Char) : Bool :=
  a.head?.any (!Text.isBlank ·) && a.getLast?.any (!Text.isBlank ·)

/-- Does the text hold together as one argument? -/
def isArgument (a : List Char) : Bool := quotedAfter false a == some false && isEdged a

/-! ## Quotes -/

theorem quotedAfter_append (q : Bool) (a b : List Char) :
    quotedAfter q (a ++ b) = (quotedAfter q a).bind (quotedAfter · b) := by
  induction a generalizing q with
  | nil => rfl
  | cons c r ih =>
    rw [List.cons_append, quotedAfter, quotedAfter]
    split
    · rfl
    · exact ih _

/-- Text without commas and quotes changes nothing. -/
theorem quotedAfter_plain {a : List Char} (h : ∀ c ∈ a, c ≠ ',' ∧ c ≠ '"') (q : Bool) :
    quotedAfter q a = some q := by
  induction a with
  | nil => rfl
  | cons c r ih =>
    obtain ⟨h1, h2⟩ := h c List.mem_cons_self
    rw [quotedAfter, if_neg (fun h => h1 h.1), if_neg h2]
    exact ih fun d hd => h d (List.mem_cons_of_mem _ hd)

/-- Between quotes a comma separates nothing. -/
theorem quotedAfter_quoted {a : List Char} (h : '"' ∉ a) : quotedAfter true a = some true := by
  induction a with
  | nil => rfl
  | cons c r ih =>
    rw [List.mem_cons, not_or] at h
    rw [quotedAfter, if_neg (fun h => by cases h.2), if_neg (fun hc => h.1 hc.symm)]
    exact ih h.2

/-- Text that no comma separates stays with the first piece. -/
theorem cutAtCommas_append {q q' : Bool} {a : List Char} (h : quotedAfter q a = some q')
    {t piece : List Char} {rest : List (List Char)} (ht : cutAtCommas q' t = piece :: rest) :
    cutAtCommas q (a ++ t) = (a ++ piece) :: rest := by
  induction a generalizing q with
  | nil =>
    cases h
    exact ht
  | cons c r ih =>
    rw [quotedAfter] at h
    split at h
    · cases h
    · rename_i hc
      rw [List.cons_append, cutAtCommas, if_neg hc, ih h]
      rfl

/-- Text that no comma separates is one piece. -/
theorem cutAtCommas_unseparated {q q' : Bool} {a : List Char} (h : quotedAfter q a = some q') :
    cutAtCommas q a = [a] := by
  have hone := cutAtCommas_append h (show cutAtCommas q' [] = [[]] from rfl)
  rwa [List.append_nil] at hone

/-! ## Arguments -/

theorem trim_of_isEdged {a : List Char} (h : isEdged a = true) : Text.trim a = a := by
  have hdrop : ∀ l : List Char, l.head?.any (!Text.isBlank ·) = true →
      l.dropWhile Text.isBlank = l := by
    intro l hl
    cases l with
    | nil => rfl
    | cons c r =>
      have hc : Text.isBlank c = false := by simpa using hl
      rw [List.dropWhile_cons, hc]
      rfl
  rw [isEdged, Bool.and_eq_true, ← List.head?_reverse] at h
  rw [Text.trim, Text.trimStart, hdrop a h.1, Text.trimEnd, hdrop a.reverse h.2, List.reverse_reverse]

/-- The pieces between commas are the arguments, each but the first behind a blank. -/
theorem cutAtCommas_intercalate (a : List Char) (as : List (List Char))
    (h : ∀ b ∈ a :: as, isArgument b = true) :
    cutAtCommas false ([',', ' '].intercalate (a :: as)) = a :: as.map (' ' :: ·) := by
  have hclosed : ∀ b ∈ a :: as, quotedAfter false b = some false := by
    intro b hb
    have := h b hb
    rw [isArgument, Bool.and_eq_true, beq_iff_eq] at this
    exact this.1
  induction as generalizing a with
  | nil =>
    rw [List.intercalate_singleton, cutAtCommas_unseparated (hclosed a List.mem_cons_self)]
    rfl
  | cons b bs ih =>
    have hb := ih b (fun c hc => h c (List.mem_cons_of_mem _ hc))
      (fun c hc => hclosed c (List.mem_cons_of_mem _ hc))
    have hblank : cutAtCommas false (' ' :: [',', ' '].intercalate (b :: bs)) =
        (' ' :: b) :: bs.map (' ' :: ·) := cutAtCommas_append (a := [' ']) rfl hb
    rw [List.intercalate_cons_cons, List.append_assoc]
    have hcomma : cutAtCommas false ([',', ' '] ++ [',', ' '].intercalate (b :: bs)) =
        [] :: (b :: bs).map (' ' :: ·) := by
      rw [List.cons_append, cutAtCommas, if_pos ⟨rfl, rfl⟩]
      exact congrArg _ hblank
    rw [cutAtCommas_append (hclosed a List.mem_cons_self) hcomma, List.append_nil]

theorem splitArguments_intercalate (as : List (List Char)) (h : ∀ a ∈ as, isArgument a = true) :
    splitArguments ([',', ' '].intercalate as) = as := by
  have htrim : ∀ a ∈ as, Text.trim a = a := by
    intro a ha
    have := h a ha
    rw [isArgument, Bool.and_eq_true] at this
    exact trim_of_isEdged this.2
  cases as with
  | nil => rfl
  | cons a as =>
    have hpieces : (a :: as.map (' ' :: ·)).map Text.trim = a :: as := by
      rw [List.map_cons, List.map_map, htrim a List.mem_cons_self]
      refine congrArg _ ?_
      conv => rhs; rw [← List.map_id as]
      exact List.map_congr_left fun b hb => htrim b (List.mem_cons_of_mem _ hb)
    have hne : a ≠ [] := by
      rintro rfl
      exact absurd (h [] List.mem_cons_self) (by decide)
    rw [splitArguments_eq, cutAtCommas_intercalate a as h, hpieces]
    split
    · rename_i heq
      rw [List.cons.injEq] at heq
      exact absurd heq.1 hne
    · rfl

end Script

/-! ## Calls -/

theorem toList_call (f : String) (as : List String) :
    (Statements.call f as).toList =
      f.toList ++ '(' :: ([',', ' '].intercalate (as.map String.toList) ++ [')']) := by
  simp [Statements.call]

/-- The name of a call is read back, whatever its arguments are. -/
theorem readCall?_function {f : String} (hf : '(' ∉ f.toList) (as : List String) :
    ∃ bs, readCall? (Statements.call f as).toList = some ⟨f, bs⟩ := by
  refine ⟨(Script.splitArguments
    ([',', ' '].intercalate (as.map String.toList))).map String.ofList, ?_⟩
  rw [readCall?, toList_call, Text.splitOnce?_of_not_mem hf]
  simp only [Option.bind_eq_bind, Option.bind_some, Text.dropTail?_append]
  rw [String.ofList_toList]
  rfl

/-- A call is read back as it was written. -/
theorem readCall?_call {f : String} (hf : '(' ∉ f.toList) {as : List String}
    (has : ∀ a ∈ as, Script.isArgument a.toList = true) :
    readCall? (Statements.call f as).toList = some ⟨f, as⟩ := by
  have hsplit : Script.splitArguments ([',', ' '].intercalate (as.map String.toList)) =
      as.map String.toList := by
    refine Script.splitArguments_intercalate _ fun a ha => ?_
    obtain ⟨b, hb, rfl⟩ := List.mem_map.1 ha
    exact has b hb
  rw [readCall?, toList_call, Text.splitOnce?_of_not_mem hf]
  simp only [Option.bind_eq_bind, Option.bind_some, Text.dropTail?_append, hsplit]
  rw [String.ofList_toList, List.map_map]
  simp [Function.comp_def, String.ofList_toList]

end Restoration
