import Restoration.Proofs.FileTree.Join
import Restoration.Proofs.Script.Spelling

/-!
# Reading scripts back

A line that sound calls are made of is read from its text as the line that it is (`Line.Legible`),
and a script of such lines as the script that it is:

    (∀ l ∈ s.lines, l.Legible)  →  parse s.text = s
-/

namespace Restoration

open Statements

/-! ## Lines of a text -/

namespace Text

/-- Lines that are written one below the other are read as they were, but for a carriage return at
their end. -/
theorem lines_flatMap_dropReturn {ls : List (List Char)} (h : ∀ l ∈ ls, '\n' ∉ l) :
    lines (ls.flatMap (· ++ ['\n'])) = ls.map dropReturn := by
  have hpieces : splitAt (· == '\n') (ls.flatMap (· ++ ['\n'])) = ls ++ [[]] := by
    induction ls with
    | nil => rfl
    | cons l rest ih =>
      obtain ⟨hl, hrest⟩ := List.forall_mem_cons.1 h
      have hline : splitAt (· == '\n') l = [l] := splitAt_of_not_mem fun c hc =>
        beq_eq_false_iff_ne.2 fun heq => hl (heq ▸ hc)
      rw [List.flatMap_cons, List.append_assoc, List.singleton_append, splitAt_append rfl, hline,
        ih hrest]
      rfl
  simp [lines, hpieces]

/-- Lines that end in no carriage return are read as they were. -/
theorem lines_flatMap {ls : List (List Char)} (h : ∀ l ∈ ls, '\n' ∉ l ∧ l.getLast? ≠ some '\r') :
    lines (ls.flatMap (· ++ ['\n'])) = ls := by
  have hreturn : ls.map dropReturn = ls :=
    (List.map_congr_left fun l hl => if_neg (h l hl).2).trans (List.map_id ls)
  rw [lines_flatMap_dropReturn fun l hl => (h l hl).1, hreturn]

end Text

/-- The line is read from its text as what it is. -/
structure Line.Legible (l : Line) : Prop where
  read : Line.parse? l.text.toList = some l
  unbroken : '\n' ∉ l.text.toList
  whole : l.text.toList.getLast? ≠ some '\r'

/-- **Legible lines make a script that is read as what it is.** -/
theorem Script.parse_text {s : Script} (h : ∀ l ∈ s.lines, l.Legible) : Script.parse s.text = s := by
  have hlines : Text.lines (s.lines.flatMap fun l => l.text.toList ++ ['\n']) =
      s.lines.map fun l => l.text.toList := by
    have hwhole : ∀ l ∈ s.lines.map fun l => l.text.toList, '\n' ∉ l ∧ l.getLast? ≠ some '\r' := by
      simpa using fun l hl => ⟨(h l hl).unbroken, (h l hl).whole⟩
    rw [← Text.lines_flatMap hwhole, List.flatMap_map]
  have hread : (s.lines.map fun l => l.text.toList).filterMap Line.parse? = s.lines := by
    rw [List.filterMap_map]
    exact (List.filterMap_congr fun l hl => (h l hl).read).trans List.filterMap_some
  rw [parse, linesOf, text, String.toList_ofList, hlines, hread]

/-! ## Comments -/

namespace Script

/-- No comment begins in text that no `#` stands out of. -/
theorem findUnquotedFrom_append {q q' : Bool} {a b : List Char} (h : hashAfter q a = some q')
    (hb : b.head? ≠ some '#') : findUnquotedFrom Line.commentMark.toList q (a ++ b) =
      (findUnquotedFrom Line.commentMark.toList q' b).map (Text.byteSize a + ·) := by
  induction a generalizing q with
  | nil =>
    cases h
    simp
  | cons c r ih =>
    have hnext : findUnquotedFrom Line.commentMark.toList (if c = '"' then !q else q) (r ++ b) =
        (findUnquotedFrom Line.commentMark.toList q' b).map (Text.byteSize r + ·) := by
      rw [hashAfter] at h
      split at h
      · cases h
      · exact ih h
    have hcons : ∀ found : Option Nat, (found.map (Text.byteSize r + ·)).map (c.utf8Size + ·) =
        found.map (Text.byteSize (c :: r) + ·) := by
      intro found
      rw [Option.map_map]
      refine Option.map_congr fun i _ => ?_
      rw [Text.byteSize_cons, Nat.add_assoc]
      rfl
    rw [List.cons_append, findUnquotedFrom]
    split
    · rename_i hc
      rw [if_pos hc] at hnext
      rw [hnext, hcons]
    · rename_i hc
      rw [if_neg hc] at hnext
      rw [if_neg, hnext, hcons]
      -- the blank that a comment begins with is followed by its `#`
      simp only [Line.commentMark, Bool.and_eq_true, Bool.not_eq_true', List.isPrefixOf_iff_prefix]
      rintro ⟨rfl, back, hback⟩
      have hmark : ' ' :: '#' :: ' ' :: back = c :: (r ++ b) := by simpa using hback
      obtain ⟨rfl, hrest⟩ := List.cons.inj hmark
      cases r with
      | nil => exact hb (by rw [← List.nil_append b, ← hrest]; rfl)
      | cons d r =>
        obtain ⟨rfl, -⟩ := List.cons.inj hrest
        simp [hashAfter] at h

end Script

/-! ## Calls -/

/-- A name that statements can call. -/
structure Callable (f : String) : Prop extends Sound f where
  name : '(' ∉ f.toList
  edged : Script.isEdged f.toList = true

instance (f : String) : Decidable (Callable f) :=
  decidable_of_iff (Sound f ∧ '(' ∉ f.toList ∧ Script.isEdged f.toList = true)
    ⟨fun h => ⟨h.1, h.2.1, h.2.2⟩, fun h => ⟨h.toSound, h.name, h.edged⟩⟩

/-- The functions that statements load functions with. -/
def loadingFunctions : List String := ["LoadPlugin", "Import", "LoadVirtualDubPlugin"]

section call

variable {f : String} {as : List String} {tail : List Char}

theorem Callable.exists_cons (hf : Callable f) :
    ∃ c r, f.toList = c :: r ∧ Text.isBlank c = false ∧ c ≠ '#' := by
  have hedged := hf.edged
  have hclosed := hf.closed
  cases hlist : f.toList with
  | nil =>
    rw [hlist] at hedged
    cases hedged
  | cons c r =>
    rw [hlist] at hedged hclosed
    refine ⟨c, r, rfl, ?_, ?_⟩
    · rw [Script.isEdged, Bool.and_eq_true] at hedged
      simpa using hedged.1
    · rintro rfl
      simp [Script.hashAfter] at hclosed

/-- A call begins with a character that no other line begins with. -/
theorem call_cons (hf : Callable f) (as : List String) :
    ∃ c r, (call f as).toList = c :: r ∧ Text.isBlank c = false ∧ c ≠ '#' := by
  obtain ⟨c, r, hlist, hblank, hhash⟩ := hf.exists_cons
  exact ⟨c, _, by rw [toList_call, hlist, List.cons_append], hblank, hhash⟩

theorem getLast?_call (f : String) (as : List String) : (call f as).toList.getLast? = some ')' := by
  rw [toList_call, ← List.cons_append, ← List.append_assoc, List.getLast?_concat]

theorem isEdged_call (hf : Callable f) (as : List String) :
    Script.isEdged (call f as).toList = true := by
  obtain ⟨c, r, hlist, hblank, -⟩ := call_cons hf as
  rw [Script.isEdged, getLast?_call, hlist]
  simp [hblank]
  decide

theorem trimEnd_call (f : String) (as : List String) :
    Text.trimEnd (call f as).toList = (call f as).toList := by
  obtain ⟨front, hfront⟩ : ∃ front, (call f as).toList = front ++ [')'] :=
    ⟨_, (List.dropLast_append_getLast? _ (getLast?_call f as)).symm⟩
  have hblank : Text.isBlank ')' = false := by decide
  rw [Text.trimEnd, hfront, List.reverse_concat, List.dropWhile_cons, hblank]
  simp

/-- A line that begins with no `#` is a dependency, or a term and perhaps its comment. -/
theorem Line.ofTrimmed?_cons {c : Char} (hc : c ≠ '#') (r : List Char) :
    Line.ofTrimmed? (c :: r) =
      match Dependency.parse? (c :: r) with
      | some d => some (.dependency d)
      | none =>
        match Script.findUnquoted? Line.commentMark.toList (c :: r) with
        | some i =>
          some (.termWithComment (String.ofList (Text.trimEnd (Text.takeBytes i (c :: r))))
            (String.ofList
              (Text.trim (Text.dropBytes (i + Text.byteSize Line.commentMark.toList) (c :: r)))))
        | none => some (.term (String.ofList (c :: r))) := by
  unfold Line.ofTrimmed?
  split
  · rename_i heq
    cases heq
  · rename_i heq
    exact absurd (List.cons.inj heq).1 hc
  · rename_i heq
    exact absurd (List.cons.inj heq).1 hc
  · rfl

/-- Text that begins as a call does is a dependency, or a term and perhaps its comment. -/
theorem ofTrimmed?_call (hf : Callable f) (as : List String) (tail : List Char) :
    Line.ofTrimmed? ((call f as).toList ++ tail) =
      match Dependency.parse? ((call f as).toList ++ tail) with
      | some d => some (.dependency d)
      | none =>
        match Script.findUnquoted? Line.commentMark.toList ((call f as).toList ++ tail) with
        | some i =>
          some (.termWithComment
            (String.ofList (Text.trimEnd (Text.takeBytes i ((call f as).toList ++ tail))))
            (String.ofList (Text.trim (Text.dropBytes (i + Text.byteSize Line.commentMark.toList)
              ((call f as).toList ++ tail)))))
        | none => some (.term (String.ofList ((call f as).toList ++ tail))) := by
  obtain ⟨c, r, hlist, -, hhash⟩ := call_cons hf as
  rw [hlist, List.cons_append]
  exact Line.ofTrimmed?_cons hhash _

/-- A call is a dependency if its function loads functions. -/
theorem parse?_call (hf : Callable f) (as : List String) : Dependency.parse? (call f as).toList =
    Dependency.ofCall? f (Script.splitArguments ([',', ' '].intercalate (as.map String.toList))) := by
  have hinner : (call f as).toList =
      (f.toList ++ '(' :: [',', ' '].intercalate (as.map String.toList)) ++ [')'] := by
    rw [toList_call, List.append_assoc, List.cons_append]
  rw [Dependency.parse?, Script.trim_of_isEdged (isEdged_call hf as), hinner]
  simp only [Option.bind_eq_bind, Text.dropTail?_append, Option.bind_some,
    Text.splitOnce?_of_not_mem hf.name, Script.trim_of_isEdged hf.edged, String.ofList_toList]

theorem ofCall?_of_not_mem (hf : f ∉ loadingFunctions) (as : List (List Char)) :
    Dependency.ofCall? f as = none := by
  simp only [loadingFunctions, List.mem_cons, List.not_mem_nil, or_false, not_or] at hf
  unfold Dependency.ofCall?
  split
  · exact absurd rfl hf.1
  · exact absurd rfl hf.2.1
  · exact absurd rfl hf.2.2
  · rfl

/-! ## Terms -/

/-- A term is read as that term. -/
theorem legible_term (hf : Callable f) (hload : f ∉ loadingFunctions) (has : ∀ a ∈ as, Sound a) :
    (Line.term (call f as)).Legible where
  read := by
    have hcomment : Script.findUnquoted? Line.commentMark.toList (call f as).toList = none := by
      have h := Script.findUnquotedFrom_append (hashAfter_call hf.toSound has)
        (show [].head? ≠ some '#' by simp)
      rwa [List.append_nil] at h
    have htrimmed := ofTrimmed?_call hf as []
    rw [List.append_nil, parse?_call hf, ofCall?_of_not_mem hload] at htrimmed
    rw [Line.text, Line.parse?, Script.trim_of_isEdged (isEdged_call hf as), htrimmed]
    simp only [hcomment, String.ofList_toList]
  unbroken := unbroken_call hf.toSound has
  whole := by
    rw [Line.text, getLast?_call]
    simp

/-- A comment that ends in neither a blank nor a parenthesis. -/
structure IsComment (c : String) : Prop where
  edged : Script.isEdged c.toList = true
  unbroken : '\n' ∉ c.toList
  ended : c.toList.getLast? ≠ some ')'

instance (c : String) : Decidable (IsComment c) :=
  decidable_of_iff (Script.isEdged c.toList = true ∧ '\n' ∉ c.toList ∧ c.toList.getLast? ≠ some ')')
    ⟨fun h => ⟨h.1, h.2.1, h.2.2⟩, fun h => ⟨h.edged, h.unbroken, h.ended⟩⟩

section commented

variable {c : String}

/-- A term with its comment as text. -/
def commentedText (f : String) (as : List String) (c : String) : List Char :=
  (call f as).toList ++ (Line.commentMark.toList ++ c.toList)

theorem IsComment.exists_getLast (hc : IsComment c) :
    ∃ x, c.toList.getLast? = some x ∧ Text.isBlank x = false := by
  have hedged := hc.edged
  rw [Script.isEdged, Bool.and_eq_true] at hedged
  cases hlast : c.toList.getLast? with
  | none => simp [hlast] at hedged
  | some x => exact ⟨x, rfl, by simpa [hlast] using hedged.2⟩

theorem getLast?_commentedText (hc : IsComment c) (f : String) (as : List String) :
    (commentedText f as c).getLast? = c.toList.getLast? := by
  obtain ⟨x, hx, -⟩ := hc.exists_getLast
  rw [commentedText, List.getLast?_append, List.getLast?_append, hx]
  rfl

theorem isEdged_commentedText (hf : Callable f) (hc : IsComment c) (as : List String) :
    Script.isEdged (commentedText f as c) = true := by
  obtain ⟨x, hx, hblank⟩ := hc.exists_getLast
  obtain ⟨y, r, hlist, hy, -⟩ := call_cons hf as
  rw [Script.isEdged, getLast?_commentedText hc, hx, commentedText, hlist]
  simp [hy, hblank]

/-- A statement with a comment behind it is no dependency. -/
theorem parse?_commentedText (hf : Callable f) (hc : IsComment c) (as : List String) :
    Dependency.parse? (commentedText f as c) = none := by
  have hdrop : Text.dropTail? [')'] (commentedText f as c) = none := by
    rw [Text.dropTail?, if_neg]
    rw [List.isSuffixOf_iff_suffix]
    rintro ⟨front, hfront⟩
    refine hc.ended ?_
    rw [← getLast?_commentedText hc f as, ← hfront, List.getLast?_concat]
  rw [Dependency.parse?, Script.trim_of_isEdged (isEdged_commentedText hf hc as), hdrop]
  rfl

theorem findUnquoted?_commentedText (hf : Callable f) (has : ∀ a ∈ as, Sound a) (c : String) :
    Script.findUnquoted? Line.commentMark.toList (commentedText f as c) =
      some (Text.byteSize (call f as).toList) := by
  have hhere : Script.findUnquotedFrom Line.commentMark.toList false
      (Line.commentMark.toList ++ c.toList) = some 0 := by
    simp [Line.commentMark, Script.findUnquotedFrom]
  rw [Script.findUnquoted?, commentedText,
    Script.findUnquotedFrom_append (hashAfter_call hf.toSound has) (by simp [Line.commentMark]), hhere]
  simp

/-- A term with a comment is read as that term with that comment. -/
theorem legible_commented (hf : Callable f) (has : ∀ a ∈ as, Sound a) (hc : IsComment c) :
    (Line.termWithComment (call f as) c).Legible := by
  have htext : (Line.termWithComment (call f as) c).text.toList = commentedText f as c := by
    rw [Line.text, String.toList_append, String.toList_append, List.append_assoc, commentedText]
  have hbehind : Text.dropBytes (Text.byteSize (call f as).toList +
      Text.byteSize Line.commentMark.toList) (commentedText f as c) = c.toList := by
    rw [commentedText, ← Text.byteSize_append, ← List.append_assoc, Text.dropBytes_append]
  refine ⟨?_, ?_, ?_⟩
  · have hread := ofTrimmed?_call hf as (Line.commentMark.toList ++ c.toList)
    rw [← commentedText, parse?_commentedText hf hc] at hread
    rw [Line.parse?, htext, Script.trim_of_isEdged (isEdged_commentedText hf hc as), hread]
    simp only [findUnquoted?_commentedText hf has c]
    rw [hbehind, Script.trim_of_isEdged hc.edged, commentedText, Text.takeBytes_append,
      trimEnd_call, String.ofList_toList, String.ofList_toList]
  · rw [htext, commentedText]
    simp [unbroken_call hf.toSound has, hc.unbroken, Line.commentMark]
  · obtain ⟨x, hx, hblank⟩ := hc.exists_getLast
    rw [htext, getLast?_commentedText hc, hx]
    rintro ⟨rfl⟩
    exact absurd hblank (by decide)

end commented

/-! ## Dependencies -/

theorem toList_quoted (s : String) : (quoted s).toList = '"' :: (s.toList ++ ['"']) := by
  simp [quoted]

theorem isEdged_quoted (s : String) : Script.isEdged (quoted s).toList = true := by
  rw [Script.isEdged, toList_quoted, ← List.cons_append, List.getLast?_concat]
  rfl

theorem isArgument_quoted {s : String} (h : '"' ∉ s.toList) :
    Script.isArgument (quoted s).toList = true := by
  have hafter : Script.quotedAfter false (quoted s).toList = some false := by
    rw [toList_quoted]
    show (Script.quotedAfter true (s.toList ++ ['"'])) = _
    rw [Script.quotedAfter_append, Script.quotedAfter_quoted h]
    rfl
  rw [Script.isArgument, hafter, isEdged_quoted]
  rfl

theorem unquote?_quoted (s : String) : Script.unquote? (quoted s).toList = some s.toList := by
  rw [Script.unquote?, Script.trim_of_isEdged (isEdged_quoted s), toList_quoted]
  exact Text.dropTail?_append _ _

theorem Numeral.read?_text {bound n : Nat} (h : n < bound) :
    Numeral.read? bound (Numeral.text n).toList = some n := by
  have hplus : '+' ∉ Numeral.digits n := fun hmem =>
    absurd (Numeral.isDigit_of_mem_digits hmem) (by decide)
  rw [Numeral.text, String.toList_ofList, Numeral.read?]
  split
  · rename_i m hm
    rw [Numeral.value?_digits, Option.some.injEq] at hm
    rw [← hm, if_pos h]
  · rename_i hm
    rw [Numeral.value?_digits] at hm
    cases hm
  · exact fun r hr => hplus (hr ▸ List.mem_cons_self)

namespace Dependency

/-- The function that the statement calls. -/
def function : Dependency → String
  | loadPlugin _ => "LoadPlugin"
  | importScript _ => "Import"
  | loadVirtualDubPlugin .. => "LoadVirtualDubPlugin"

/-- The arguments of the call behind the path. -/
def details : Dependency → List String
  | loadPlugin _ => []
  | importScript _ => []
  | loadVirtualDubPlugin _ name preroll => [quoted name, Numeral.text preroll]

theorem text_eq_call (d : Dependency) : d.text = call d.function (quoted d.path.text :: d.details) := by
  cases d with
  | loadPlugin p =>
    show "LoadPlugin(\"" ++ p.text ++ "\")" = call "LoadPlugin" [quoted p.text]
    apply String.toList_injective
    simp [toList_call, quoted]
  | importScript p =>
    show "Import(\"" ++ p.text ++ "\")" = call "Import" [quoted p.text]
    apply String.toList_injective
    simp [toList_call, quoted]
  | loadVirtualDubPlugin p name preroll =>
    show "LoadVirtualDubPlugin(\"" ++ p.text ++ "\", \"" ++ name ++ "\", " ++ Numeral.text preroll ++
      ")" = call "LoadVirtualDubPlugin" [quoted p.text, quoted name, Numeral.text preroll]
    apply String.toList_injective
    simp [toList_call, quoted]

theorem function_mem (d : Dependency) : d.function ∈ loadingFunctions := by
  cases d <;> simp [function, loadingFunctions]

theorem callable_function (d : Dependency) : Callable d.function := by
  have hall : ∀ f ∈ loadingFunctions, Callable f := by decide
  exact hall _ d.function_mem

/-! ### Arguments -/

/-- The preroll that the statement gives, if it gives one. -/
def preroll? : Dependency → Option Nat
  | loadVirtualDubPlugin _ _ n => some n
  | _ => none

/-- The statement is what a call of its function with these arguments loads. -/
inductive IsCallOf : Dependency → List (List Char) → Prop
  | loadPlugin {a p : List Char} (path : Script.unquote? a = some p) :
      IsCallOf (loadPlugin ⟨String.ofList p⟩) [a]
  | importScript {a p : List Char} (path : Script.unquote? a = some p) :
      IsCallOf (importScript ⟨String.ofList p⟩) [a]
  | loadVirtualDubPlugin {a b c p name : List Char} {n : Nat} (path : Script.unquote? a = some p)
      (called : Script.unquote? b = some name)
      (preroll : Numeral.read? prerollBound (Text.trim c) = some n) :
      IsCallOf (loadVirtualDubPlugin ⟨String.ofList p⟩ (String.ofList name) n) [a, b, c]

theorem ofCall?_eq_some_iff {function : String} {arguments : List (List Char)} {d : Dependency} :
    ofCall? function arguments = some d ↔ function = d.function ∧ d.IsCallOf arguments := by
  constructor
  · fun_cases ofCall? function arguments with
    | case1 a =>
      intro h
      obtain ⟨p, hp, rfl⟩ := Option.map_eq_some_iff.1 h
      exact ⟨rfl, .loadPlugin hp⟩
    | case2 a =>
      intro h
      obtain ⟨p, hp, rfl⟩ := Option.map_eq_some_iff.1 h
      exact ⟨rfl, .importScript hp⟩
    | case3 a b c =>
      intro h
      simp only [Option.bind_eq_bind, Option.bind_eq_some_iff] at h
      obtain ⟨p, hp, name, hname, n, hn, h⟩ := h
      cases h
      exact ⟨rfl, .loadVirtualDubPlugin hp hname hn⟩
    | case4 =>
      intro h
      cases h
  · rintro ⟨rfl, hcall⟩
    cases hcall with
    | loadPlugin hp | importScript hp => simp [function, ofCall?, hp]
    | loadVirtualDubPlugin hp hname hn => simp [function, ofCall?, hp, hname, hn]

/-- The arguments of the statement as text. -/
def arguments (d : Dependency) : List (List Char) :=
  (quoted d.path.text :: d.details).map String.toList

/-- A statement is a call of its own arguments, if its preroll is one that can be read. -/
theorem isCallOf_arguments {d : Dependency} (h : ∀ n ∈ d.preroll?, n < prerollBound) :
    d.IsCallOf d.arguments := by
  cases d with
  | loadPlugin p =>
    have hcall := IsCallOf.loadPlugin (unquote?_quoted p.text)
    rwa [String.ofList_toList] at hcall
  | importScript p =>
    have hcall := IsCallOf.importScript (unquote?_quoted p.text)
    rwa [String.ofList_toList] at hcall
  | loadVirtualDubPlugin p name n =>
    have htrim : Text.trim (Numeral.text n).toList = (Numeral.text n).toList := by
      have hwhole := (plain_numeral n).whole
      rw [Script.isArgument, Bool.and_eq_true] at hwhole
      exact Script.trim_of_isEdged hwhole.2
    have hpreroll : Numeral.read? prerollBound (Text.trim (Numeral.text n).toList) = some n := by
      rw [htrim, Numeral.read?_text (h n rfl)]
    have hcall := IsCallOf.loadVirtualDubPlugin (unquote?_quoted p.text) (unquote?_quoted name) hpreroll
    rwa [String.ofList_toList, String.ofList_toList] at hcall

/-- A statement is read back where its arguments are found again. -/
theorem parse?_text {d : Dependency} (h : ∀ n ∈ d.preroll?, n < prerollBound)
    (hsplit : Script.splitArguments ([',', ' '].intercalate d.arguments) = d.arguments) :
    parse? d.text.toList = some d := by
  rw [text_eq_call, parse?_call d.callable_function, ← arguments, hsplit]
  exact ofCall?_eq_some_iff.2 ⟨rfl, isCallOf_arguments h⟩

/-! ### Statements that can be read back -/

/-- What follows the path in the statement can be read back. -/
def Readable : Dependency → Prop
  | loadVirtualDubPlugin _ name preroll => Quotable name ∧ preroll < prerollBound
  | _ => True

instance (d : Dependency) : Decidable d.Readable :=
  match d with
  | loadVirtualDubPlugin _ name preroll =>
    inferInstanceAs (Decidable (Quotable name ∧ preroll < prerollBound))
  | loadPlugin _ | importScript _ => isTrue trivial

theorem sound_details {d : Dependency} (h : d.Readable) : ∀ a ∈ d.details, Sound a := by
  cases d with
  | loadVirtualDubPlugin p name preroll =>
    simp only [details, List.forall_mem_cons]
    exact ⟨(cites_quoted ⟨name⟩).sound h.1, (quiet_numeral _).toSound, by simp⟩
  | _ => simp [details]

theorem isArgument_arguments {d : Dependency} (hp : Quotable d.path.text) (h : d.Readable) :
    ∀ a ∈ d.arguments, Script.isArgument a = true := by
  rw [arguments, List.forall_mem_map, List.forall_mem_cons]
  refine ⟨isArgument_quoted hp.quote, ?_⟩
  cases d with
  | loadVirtualDubPlugin p name preroll =>
    simp only [details, List.forall_mem_cons]
    exact ⟨isArgument_quoted h.1.quote, (plain_numeral preroll).whole, by simp⟩
  | _ => simp [details]

theorem preroll_lt_of_readable {d : Dependency} (h : d.Readable) : ∀ n ∈ d.preroll?, n < prerollBound := by
  cases d with
  | loadVirtualDubPlugin p name n => simpa [preroll?] using h.2
  | _ => simp [preroll?]

/-- **A dependency is read from its text as what it is.** -/
theorem legible {d : Dependency} (hp : Quotable d.path.text) (h : d.Readable) :
    (Line.dependency d).Legible := by
  have hcallable : Callable d.function := d.callable_function
  have hsound : ∀ a ∈ quoted d.path.text :: d.details, Sound a :=
    List.forall_mem_cons.2 ⟨(cites_quoted d.path).sound hp, sound_details h⟩
  have hparse : Dependency.parse? d.text.toList = some d :=
    parse?_text (preroll_lt_of_readable h)
      (Script.splitArguments_intercalate _ (isArgument_arguments hp h))
  refine ⟨?_, ?_, ?_⟩
  · have hread := ofTrimmed?_call hcallable (quoted d.path.text :: d.details) []
    rw [List.append_nil, ← text_eq_call, hparse] at hread
    rw [Line.text, Line.parse?, Script.trim_of_isEdged, hread]
    rw [text_eq_call]
    exact isEdged_call hcallable _
  · rw [Line.text, text_eq_call]
    exact unbroken_call hcallable.toSound hsound
  · rw [Line.text, text_eq_call, getLast?_call]
    simp

end Dependency

end call

end Restoration
