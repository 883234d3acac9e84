import Restoration.Proofs.Script.Rereading

/-!
# What reading and writing keeps of a script

Reading and writing moves nothing but white space outside quotes. Of a line whose quotes are all closed
everything else is in the line that is written for it, in the same order; only the preroll of a statement
is a number, and is spelled as numbers are (`Retains`):

    squeezed l.text = squeezed (trim x)        for l read from x, but for the spelling of a preroll
    quotations l.text = quotations (trim x)
-/

namespace Restoration

open Text Script Statements

/-! ## Thinned texts -/

namespace Script

variable {keep : Char → Bool} {t w : List Char}

/-- The quotes of a text, all that stands between them, and of the rest what is to be kept. -/
def thin (keep : Char → Bool) (quoted : Bool) : List Char → List Char
  | [] => []
  | c :: r =>
    if c = '"' then c :: thin keep (!quoted) r
    else if quoted || keep c then c :: thin keep quoted r
    else thin keep quoted r

/-- The text without the white space that stands outside quotes. -/
def squeezed (t : List Char) : List Char := thin (!isBlank ·) false t

/-- What stands between quotes, and the quotes. -/
def quotations (t : List Char) : List Char := thin (fun _ => false) false t

theorem thin_append (keep : Char → Bool) (q : Bool) (a b : List Char) :
    thin keep q (a ++ b) = thin keep q a ++ thin keep (quotedBehind q a) b := by
  induction a generalizing q with
  | nil => rfl
  | cons c r ih =>
    rw [List.cons_append, thin, thin, quotedBehind_cons]
    split <;> rename_i hc
    · rw [ih, List.cons_append]
    · split <;> rw [ih]
      rfl

/-- Texts of which the first closes its quotes are thinned one after the other. -/
theorem thin_append_of_closed {a : List Char} (ha : quotedBehind false a = false) (b : List Char) :
    thin keep false (a ++ b) = thin keep false a ++ thin keep false b := by
  rw [thin_append, ha]

theorem thin_of_not_mem (h : '"' ∉ w) : thin keep false w = w.filter keep := by
  induction w with
  | nil => rfl
  | cons c r ih =>
    rw [List.mem_cons, not_or] at h
    rw [thin, if_neg (Ne.symm h.1), ih h.2, Bool.false_or, List.filter_cons]

theorem thin_intercalate {sep : List Char} (hsep : '"' ∉ sep) {as : List (List Char)}
    (has : ∀ a ∈ as, quotedBehind false a = false) :
    thin keep false (sep.intercalate as) = (sep.filter keep).intercalate (as.map (thin keep false)) := by
  induction as with
  | nil => rfl
  | cons a as ih =>
    obtain ⟨ha, hrest⟩ := List.forall_mem_cons.1 has
    cases as with
    | nil => simp
    | cons b as =>
      rw [List.intercalate_cons_cons, List.append_assoc, thin_append_of_closed ha,
        thin_append_of_closed (quotedBehind_of_not_mem hsep false), ih hrest, thin_of_not_mem hsep]
      simp [List.intercalate_cons_cons]

theorem quotedBehind_intercalate {sep : List Char} (hsep : '"' ∉ sep) {as : List (List Char)}
    (has : ∀ a ∈ as, quotedBehind false a = false) : quotedBehind false (sep.intercalate as) = false := by
  induction as with
  | nil => rfl
  | cons a as ih =>
    obtain ⟨ha, hrest⟩ := List.forall_mem_cons.1 has
    cases as with
    | nil => rwa [List.intercalate_singleton]
    | cons b as =>
      rw [List.intercalate_cons_cons, List.append_assoc, quotedBehind_append, ha, quotedBehind_append,
        quotedBehind_of_not_mem hsep, ih hrest]

/-- Nothing is kept of white space outside quotes. -/
def DropsBlanks (keep : Char → Bool) : Prop := ∀ c, isBlank c = true → keep c = false

theorem filter_of_isBlank (hkeep : DropsBlanks keep) {b : List Char} (hb : IsBlank b) :
    b.filter keep = [] := by
  rw [List.filter_eq_nil_iff]
  intro c hc
  simp [hkeep c (hb c hc)]

theorem thin_of_isBlank (hkeep : DropsBlanks keep) {b : List Char} (hb : IsBlank b) :
    thin keep false b = [] := by
  rw [thin_of_not_mem (not_mem_of_isBlank hb (by decide)), filter_of_isBlank hkeep hb]

theorem thin_trim (hkeep : DropsBlanks keep) (h : quotedBehind false t = false) :
    thin keep false (trim t) = thin keep false t := by
  obtain ⟨a, b, ha, hb, hsplit⟩ := trim_spec t
  have hclosed : quotedBehind false (trim t) = false := by rw [quotedBehind_trim, h]
  conv_rhs => rw [hsplit, thin_append_of_closed (quotedBehind_of_isBlank ha false),
    thin_append_of_closed hclosed, thin_of_isBlank hkeep ha, thin_of_isBlank hkeep hb]
  simp

/-! ## Calls -/

/-- The text of a call, with what stands between its arguments. -/
def callText (f sep : List Char) (as : List (List Char)) : List Char :=
  f ++ '(' :: (sep.intercalate as ++ [')'])

section callText

variable {f sep : List Char} {as : List (List Char)} (hf : '"' ∉ f)

include hf

theorem quotedBehind_statement (arguments : List Char) :
    quotedBehind false (f ++ '(' :: (arguments ++ [')'])) = quotedBehind false arguments := by
  rw [quotedBehind_append, quotedBehind_of_not_mem hf, quotedBehind_cons, quotedBehind_append]
  rfl

/-- A call is thinned argument by argument. -/
theorem thin_callText (hsep : '"' ∉ sep) (has : ∀ a ∈ as, quotedBehind false a = false) :
    thin keep false (callText f sep as) = thin keep false f ++ (thin keep false ['('] ++
      ((sep.filter keep).intercalate (as.map (thin keep false)) ++ thin keep false [')'])) := by
  rw [callText, thin_append_of_closed (quotedBehind_of_not_mem hf false), ← List.singleton_append,
    thin_append_of_closed rfl, thin_append_of_closed (quotedBehind_intercalate hsep has),
    thin_intercalate hsep has]

end callText

end Script

/-! ## What is kept of a line -/

/-- A statement that loads a VirtualDub plugin, with the spelling of its preroll. -/
def prerolled (path name numeral : String) : List Char :=
  (call "LoadVirtualDubPlugin" [quoted path, quoted name, numeral]).toList

/-- The second text is the first one, but for white space outside quotes and the spelling of a
preroll. -/
structure Retains (x y : List Char) : Prop where
  spaced : squeezed y = squeezed x ∨ ∃ path name numeral n,
    Numeral.read? Dependency.prerollBound numeral.toList = some n ∧
      squeezed x = squeezed (prerolled path name numeral) ∧ y = prerolled path name (Numeral.text n)
  quoted : quotations y = quotations x

theorem prerolled_eq (path name numeral : String) : prerolled path name numeral =
    callText "LoadVirtualDubPlugin".toList [',', ' ']
      [(quoted path).toList, (quoted name).toList, numeral.toList] := by
  rw [prerolled, toList_call]
  rfl

theorem Retains.of_thin {x y : List Char}
    (h : ∀ keep, DropsBlanks keep → thin keep false y = thin keep false x) : Retains x y :=
  ⟨.inl (h _ (by simp [DropsBlanks])), h _ (by simp [DropsBlanks])⟩

namespace Dependency

variable {d : Dependency} {t f as : List Char}

theorem toList_text (d : Dependency) :
    d.text.toList = callText d.function.toList [',', ' '] d.arguments := by
  rw [text_eq_call, toList_call]
  rfl

/-- Of a statement all is kept but white space around its name and its arguments. -/
theorem thin_statement {keep : Char → Bool} (hkeep : DropsBlanks keep)
    (hf : trim f = d.function.toList) (hne : splitArguments as ≠ [])
    (hclosed : quotedBehind false as = false) : thin keep false (f ++ '(' :: (as ++ [')'])) =
      thin keep false (callText d.function.toList [',', ' '] (splitArguments as)) := by
  have hquote : '"' ∉ f := not_mem_name hf (by decide) (by decide)
  have hname : '"' ∉ d.function.toList := hf ▸ fun hmem => hquote (trim_subset f hmem)
  have hwhole : f ++ '(' :: (as ++ [')']) = callText f [','] (cutAtCommas false as) := by
    rw [callText, intercalate_cutAtCommas]
  have hpieces : ∀ a ∈ cutAtCommas false as, quotedBehind false a = false := fun a ha =>
    closed_of_mem_cutAtCommas hclosed ha
  have htrimmed : ∀ a ∈ (cutAtCommas false as).map trim, quotedBehind false a = false := by
    rw [List.forall_mem_map]
    exact fun a ha => by rw [quotedBehind_trim, hpieces a ha]
  have hthin : ((cutAtCommas false as).map trim).map (thin keep false) =
      (cutAtCommas false as).map (thin keep false) := by
    rw [List.map_map]
    exact List.map_congr_left fun a ha => thin_trim hkeep (hpieces a ha)
  have hsep : [',', ' '].filter keep = [','].filter keep := by
    simp [List.filter_cons, hkeep ' ' (by decide)]
  rw [hwhole, splitArguments_of_ne_nil hne, thin_callText hquote (by decide) hpieces,
    thin_callText hname (by decide) htrimmed, hthin, hsep, ← hf,
    thin_trim hkeep (quotedBehind_of_not_mem hquote false)]

/-- What is quoted of a statement does not depend on the spelling of its preroll. -/
theorem quotations_prerolled {path name numeral : String}
    (hpath : quotedBehind false (quoted path).toList = false)
    (hname : quotedBehind false (quoted name).toList = false) (hnumeral : '"' ∉ numeral.toList) :
    quotations (prerolled path name numeral) =
      quotations (quoted path).toList ++ quotations (quoted name).toList := by
  have hclosed : ∀ a ∈ [(quoted path).toList, (quoted name).toList, numeral.toList],
      quotedBehind false a = false := by
    simp [hpath, hname, quotedBehind_of_not_mem hnumeral]
  rw [quotations, prerolled_eq, thin_callText (by decide) (by decide) hclosed,
    thin_of_not_mem (by decide)]
  simp [thin_of_not_mem hnumeral, quotations, thin]

/-- A statement with another spelling of its preroll retains the rest. -/
theorem retains_prerolled {x : List Char} {path name numeral : String} {n : Nat}
    (hread : Numeral.read? prerollBound numeral.toList = some n)
    (hpath : quotedBehind false (quoted path).toList = false)
    (hname : quotedBehind false (quoted name).toList = false)
    (h : ∀ keep, DropsBlanks keep →
      thin keep false x = thin keep false (prerolled path name numeral)) :
    Retains x (prerolled path name (Numeral.text n)) := by
  have hnumeral : '"' ∉ numeral.toList := fun hmem =>
    absurd ((Numeral.lt_of_read? hread).2 _ hmem) (by decide)
  refine ⟨.inr ⟨path, name, numeral, n, hread, h _ (by simp [DropsBlanks]), rfl⟩, ?_⟩
  calc quotations (prerolled path name (Numeral.text n))
      = quotations (prerolled path name numeral) := by
        rw [quotations_prerolled hpath hname (not_mem_numeral_of_loud rfl n),
          quotations_prerolled hpath hname hnumeral]
    _ = quotations x := (h _ (by simp [DropsBlanks])).symm

/-- **A dependency that was read is written with all that it was read from.** -/
theorem retains_text (ht : isEdged t = true) (h : parse? t = some d)
    (hclosed : quotedBehind false t = false) : Retains t d.text.toList := by
  obtain ⟨f, as, rfl, -, hf, hcall⟩ := (parse?_eq_some_iff ht).1 h
  rw [quotedBehind_statement (not_mem_name hf (by decide) (by decide))] at hclosed
  have hthin := fun keep (hkeep : DropsBlanks keep) =>
    thin_statement hkeep hf hcall.ne_nil hclosed
  have hpieces : ∀ a ∈ splitArguments as, trim a = a ∧ quotedBehind false a = false := by
    rw [splitArguments_of_ne_nil hcall.ne_nil, List.forall_mem_map]
    exact fun a ha => ⟨trim_trim a, by rw [quotedBehind_trim, closed_of_mem_cutAtCommas hclosed ha]⟩
  have hquoted : ∀ {a p}, a ∈ splitArguments as → unquote? a = some p →
      (quoted (String.ofList p)).toList = a := fun {a p} ha hp => by
    rw [toList_quoted, String.toList_ofList, ← unquote?_eq_some_iff.1 hp, (hpieces a ha).1]
  generalize splitArguments as = args at hcall hthin hpieces hquoted
  cases hcall with
  | loadPlugin path | importScript path =>
    refine Retains.of_thin fun keep hkeep => ?_
    rw [hthin keep hkeep, toList_text]
    exact congrArg (fun a => thin keep false (callText _ [',', ' '] [a]))
      (hquoted List.mem_cons_self path)
  | @loadVirtualDubPlugin a b c p name n path called preroll =>
    have ha := hquoted List.mem_cons_self path
    have hb := hquoted (List.mem_cons_of_mem _ List.mem_cons_self) called
    obtain ⟨-, ha'⟩ := hpieces a List.mem_cons_self
    obtain ⟨-, hb'⟩ := hpieces b (List.mem_cons_of_mem _ List.mem_cons_self)
    obtain ⟨hc, -⟩ := hpieces c (by simp)
    rw [hc] at preroll
    have hspelled : prerolled (String.ofList p) (String.ofList name) (String.ofList c) =
        callText "LoadVirtualDubPlugin".toList [',', ' '] [a, b, c] := by
      have hlast : (String.ofList c).toList = c := String.toList_ofList
      rw [prerolled_eq, ha, hb, hlast]
    have htext : (Dependency.loadVirtualDubPlugin ⟨String.ofList p⟩ (String.ofList name) n).text.toList =
        prerolled (String.ofList p) (String.ofList name) (Numeral.text n) := by
      rw [text_eq_call]
      rfl
    rw [htext]
    refine retains_prerolled (by rwa [String.toList_ofList]) (ha ▸ ha') (hb ▸ hb') ?_
    rw [hspelled]
    exact hthin

end Dependency

namespace Line

variable {t a b : List Char} {l : Line}

theorem quotedBehind_gap (ha : IsBlank a) (hb : IsBlank b) : quotedBehind false (gap a b) = false :=
  quotedBehind_of_not_mem (not_mem_gap ha hb (by decide) (by decide)) false

/-- Of the mark of a comment, at most the `#` is kept, whatever white space is around it. -/
theorem thin_gap {keep : Char → Bool} (hkeep : DropsBlanks keep) (ha : IsBlank a) (hb : IsBlank b) :
    thin keep false (gap a b) = ['#'].filter keep := by
  have hmark : commentMark.toList.filter keep = ['#'].filter keep := by
    simp [commentMark_toList, List.filter_cons, hkeep ' ' (by decide)]
  rw [thin_of_not_mem (not_mem_gap ha hb (by decide) (by decide)), gap, List.filter_append,
    List.filter_append, filter_of_isBlank hkeep ha, filter_of_isBlank hkeep hb, hmark,
    List.nil_append, List.append_nil]

/-- **A line that was read is written with all that it was read from.** -/
theorem Reads.retains_text (ht : isEdged t = true) (h : Reads t l)
    (hclosed : quotedBehind false t = false) : Retains t l.text.toList := by
  cases h with
  | spaced r =>
    rw [toList_text_comment]
    exact Retains.of_thin fun _ _ => rfl
  | joined r =>
    rw [toList_text_comment]
    refine Retains.of_thin fun keep hkeep => ?_
    simp [thin, hkeep ' ' (by decide)]
  | dependency _ hread => exact Dependency.retains_text ht hread hclosed
  | @commented _ _ s a b c _ _ hsplit ha hb _ _ hfirst =>
    rw [toList_text_commented, hsplit]
    have hs : quotedBehind false s = false := by
      rw [hsplit, findUnquoted?_eq_byteSize_iff mark_ne_nil head?_mark (prefix_gap s a b c)] at hfirst
      obtain ⟨⟨-, hquoted⟩, -⟩ := hfirst
      rwa [quotedBehind_append, quotedBehind_of_isBlank ha] at hquoted
    refine Retains.of_thin fun keep hkeep => ?_
    rw [thin_append_of_closed hs, thin_append_of_closed hs,
      thin_append_of_closed (quotedBehind_gap ha hb),
      thin_append_of_closed (quotedBehind_gap isBlank_nil isBlank_nil), thin_gap hkeep ha hb,
      thin_gap hkeep isBlank_nil isBlank_nil]
  | term =>
    rw [text, String.toList_ofList]
    exact Retains.of_thin fun _ _ => rfl

end Line

namespace Script

/-- **Reading and writing a script loses nothing.** Where every line of a text closes its quotes, each
line that is not blank is written again in its place, with all of it but white space outside quotes. -/
theorem lines_kept {t : String} (h : ∀ x ∈ Text.lines t.toList, x.count '"' % 2 = 0) :
    List.Forall₂ (fun x y => Retains (trim x) y) ((Text.lines t.toList).filter (trim · ≠ []))
      (Text.lines (parse t).text.toList) := by
  rw [lines_text_parse, lines_parse]
  generalize Text.lines t.toList = ls at h
  induction ls with
  | nil => exact .nil
  | cons x ls ih =>
    obtain ⟨hx, hls⟩ := List.forall_mem_cons.1 h
    by_cases hblank : trim x = []
    · have hnone : Line.parse? x = none := by rw [Line.parse?, hblank]; rfl
      rw [List.filter_cons_of_neg (by simpa using hblank), List.filterMap_cons_none hnone]
      exact ih hls
    · obtain ⟨l, hl⟩ := Option.isSome_iff_exists.1 (Line.isSome_parse? hblank)
      obtain ⟨hedged, hreads⟩ := Line.parse?_eq_some_iff.1 hl
      have hclosed : quotedBehind false (trim x) = false := by
        rw [quotedBehind_trim, quotedBehind_of_count hx]
      rw [List.filter_cons_of_pos (by simpa using hblank), List.filterMap_cons_some hl, List.map_cons]
      exact .cons (hreads.retains_text hedged hclosed) (ih hls)

/-- White space and the preroll change in a statement, and the `#` between quotes begins no comment. -/
theorem lines_kept_spaced :
    let t := "\tLoadVirtualDubPlugin ( \"a,  b\" ,\"n\",  +007 )\n\nx( \" # \" )\t # y\r\n"
    (∀ x ∈ Text.lines t.toList, x.count '"' % 2 = 0) ∧
      List.Forall₂ (fun x y => Retains (trim x) y) ((Text.lines t.toList).filter (trim · ≠ []))
        (Text.lines (parse t).text.toList) :=
  ⟨by decide, lines_kept (by decide)⟩

end Script

end Restoration
