import Restoration.Proofs.Script.Lines
import Restoration.Proofs.Script.Unbroken

/-!
# Scripts written and read again

A script that was read, written and read again is the same script, but for one thing: a mark of a
comment is looked for with single blanks around its `#`, and whatever white space is around the mark is
dropped. A term that ends in a blank and a `#` then makes a mark with the first blank behind it, where
no mark was before (`Line.Settled`):

    parse (parse t).text = parse t  ↔  ∀ l ∈ (parse t).lines, l.Settled
-/

namespace Restoration

open Text Script Statements

/-! ## Arguments -/

namespace Script

/-- An argument is between quotes if they are the first and the last of it that is not white space. -/
theorem isSome_unquote?_iff {t : List Char} :
    (unquote? t).isSome = true ↔ ∃ r, solid t = '"' :: (r ++ ['"']) := by
  have hquote : isBlank '"' = false := by decide
  rw [Option.isSome_iff_exists]
  simp only [unquote?_eq_some_iff]
  rw [← solid_trim]
  constructor
  · rintro ⟨p, hp⟩
    refine ⟨solid p, ?_⟩
    rw [hp, solid_cons hquote, solid_append, solid_cons hquote]
    rfl
  · rintro ⟨r, hr⟩
    have hedged : isEdged (trim t) = true :=
      (trim_eq_nil_or_isEdged t).resolve_left fun hnil => by
        rw [hnil] at hr
        cases hr
    obtain ⟨c, m, htrim, hsolid⟩ := exists_solid_cons hedged
    have hlast := (isEdged_iff.1 hedged).2.2
    rw [hsolid] at hr
    obtain ⟨rfl, hm⟩ := List.cons.inj hr
    rcases List.eq_nil_or_concat m with rfl | ⟨p, x, rfl⟩
    · simp [solid] at hm
    · rw [htrim, List.concat_eq_append, ← List.cons_append, List.getLast?_concat] at hlast
      rw [List.concat_eq_append, solid_append, solid_cons (by simpa using hlast)] at hm
      obtain ⟨-, hx⟩ := List.append_inj' hm rfl
      cases hx
      exact ⟨p, by rw [htrim, List.concat_eq_append]⟩

theorem splitArguments_singleton {a : List Char} {q : Bool} (ha : quotedAfter false a = some q)
    (hedged : isEdged a = true) : splitArguments a = [a] := by
  have hpieces : (cutAtCommas false a).map trim = [a] := by
    rw [cutAtCommas_unseparated ha, List.map_singleton, trim_of_isEdged hedged]
  rw [splitArguments_of_ne, hpieces]
  rw [hpieces]
  exact fun hnil => ne_nil_of_isEdged hedged (List.singleton_inj.1 hnil)

/-- What is between quotes is written as it stood, but for its edges. -/
theorem toList_quoted_of_unquote? {piece p : List Char} (h : unquote? (trim piece) = some p) :
    (quoted (String.ofList p)).toList = trim piece := by
  rw [toList_quoted, String.toList_ofList, ← unquote?_eq_some_iff.1 h, trim_trim]

end Script

namespace Dependency

variable {d : Dependency} {t : List Char}

/-- The arguments that a statement was read from are found again in its text. -/
theorem splitArguments_arguments {as : List Char} (h : d.IsCallOf (splitArguments as)) :
    splitArguments ([',', ' '].intercalate d.arguments) = d.arguments := by
  have hone : ∀ {a p : List Char}, splitArguments as = [a] → unquote? a = some p →
      splitArguments (quoted (String.ofList p)).toList = [(quoted (String.ofList p)).toList] := by
    intro a p hsplit hp
    rw [splitArguments_of_ne_nil (by simp [hsplit]), List.map_eq_singleton_iff] at hsplit
    obtain ⟨piece, hcut, rfl⟩ := hsplit
    obtain ⟨rfl, q, hafter⟩ := cutAtCommas_eq_singleton hcut
    refine splitArguments_singleton (q := q) ?_ (isEdged_quoted _)
    rw [toList_quoted_of_unquote? hp, quotedAfter_trim, hafter]
  generalize hsplit : splitArguments as = args at h
  cases h with
  | loadPlugin path | importScript path =>
    rw [arguments, List.map_cons, details, List.map_nil, List.intercalate_singleton]
    exact hone hsplit path
  | @loadVirtualDubPlugin a b c p name n path called preroll =>
    rw [splitArguments_of_ne_nil (by simp [hsplit])] at hsplit
    obtain ⟨p₁, r₁, hcut, rfl, hbehind⟩ := List.map_eq_cons_iff.1 hsplit
    obtain ⟨p₂, r₂, rfl, rfl, hlast⟩ := List.map_eq_cons_iff.1 hbehind
    obtain ⟨p₃, r₃, rfl, -, -⟩ := List.map_eq_cons_iff.1 hlast
    obtain ⟨u, -, hfirst, hcut'⟩ := cutAtCommas_eq_cons hcut
    obtain ⟨-, -, hsecond, -⟩ := cutAtCommas_eq_cons hcut'
    have hargument : ∀ {piece q : List Char}, quotedAfter false piece = some false →
        unquote? (trim piece) = some q → isArgument (quoted (String.ofList q)).toList = true := by
      intro piece q hafter hq
      rw [isArgument, isEdged_quoted, toList_quoted_of_unquote? hq, quotedAfter_trim, hafter]
      rfl
    refine splitArguments_intercalate _ ?_
    simp only [arguments, details, List.map_cons, List.map_nil, List.forall_mem_cons]
    exact ⟨hargument hfirst path, hargument hsecond called, (plain_numeral n).whole, by simp⟩

theorem isEdged_text (d : Dependency) : isEdged d.text.toList = true := by
  rw [text_eq_call]
  exact isEdged_call d.callable_function _

/-- **A dependency that was read is read again from its own text.** -/
theorem parse?_text_of_parse? (ht : isEdged t = true) (h : parse? t = some d) :
    parse? d.text.toList = some d := by
  obtain ⟨f, as, -, -, -, hcall⟩ := (parse?_eq_some_iff ht).1 h
  exact parse?_text hcall.preroll_lt (splitArguments_arguments hcall)

/-! ### White space around a mark -/

/-- A call still loads something where an argument that holds a `#` gives way to one that differs from
it in white space only. -/
theorem IsCallOf.swap {xs zs : List (List Char)} {y y' : List Char} (h : d.IsCallOf (xs ++ y :: zs))
    (hsolid : solid y' = solid y) (hhash : '#' ∈ trim y) :
    ∃ e : Dependency, e.function = d.function ∧ e.IsCallOf (xs ++ y' :: zs) := by
  have hquote : ∀ {p}, unquote? y = some p → ∃ p', unquote? y' = some p' := fun hp => by
    rw [← Option.isSome_iff_exists, isSome_unquote?_iff, hsolid, ← isSome_unquote?_iff, hp]
    rfl
  have hnumeral : ∀ n, Numeral.read? prerollBound (trim y) ≠ some n := fun n hn =>
    absurd ((Numeral.lt_of_read? hn).2 '#' hhash) (by decide)
  have hsingle : ∀ {a}, xs ++ y :: zs = [a] → xs = [] ∧ y = a ∧ zs = [] := fun heq => by
    rcases List.append_eq_singleton_iff.1 heq with ⟨hxs, hy⟩ | ⟨-, hy⟩
    · exact ⟨hxs, List.cons.inj hy⟩
    · cases hy
  generalize hwhole : xs ++ y :: zs = as at h
  cases h with
  | loadPlugin path =>
    obtain ⟨rfl, rfl, rfl⟩ := hsingle hwhole
    obtain ⟨p', hp'⟩ := hquote path
    refine ⟨_, ?_, .loadPlugin hp'⟩
    rfl
  | importScript path =>
    obtain ⟨rfl, rfl, rfl⟩ := hsingle hwhole
    obtain ⟨p', hp'⟩ := hquote path
    refine ⟨_, ?_, .importScript hp'⟩
    rfl
  | loadVirtualDubPlugin path called preroll =>
    rcases xs with _ | ⟨x, _ | ⟨x', _ | ⟨x'', xs⟩⟩⟩
    · obtain ⟨rfl, rfl⟩ := List.cons.inj hwhole
      obtain ⟨p', hp'⟩ := hquote path
      refine ⟨_, ?_, .loadVirtualDubPlugin hp' called preroll⟩
      rfl
    · obtain ⟨rfl, hbehind⟩ := List.cons.inj hwhole
      obtain ⟨rfl, rfl⟩ := List.cons.inj hbehind
      obtain ⟨name', hname'⟩ := hquote called
      refine ⟨_, ?_, .loadVirtualDubPlugin path hname' preroll⟩
      rfl
    · obtain ⟨-, hbehind⟩ := List.cons.inj hwhole
      obtain ⟨-, hlast⟩ := List.cons.inj hbehind
      obtain ⟨rfl, -⟩ := List.cons.inj hlast
      exact absurd preroll (hnumeral _)
    · simp at hwhole

/-- The name of a call that holds no `#` stands ahead of what holds one, and so does its parenthesis. -/
theorem exists_call {s w c f r : List Char} (hf : '#' ∉ f) (hw : '#' ∈ w) (hparen : '(' ∉ w)
    (h : s ++ (w ++ c) = f ++ '(' :: r) (hname : '(' ∉ f) :
    ∃ s', s = f ++ '(' :: s' ∧ r = s' ++ (w ++ c) := by
  have hsplit : splitOnce? '(' (s ++ (w ++ c)) = some (f, r) := splitOnce?_eq_some_iff.2 ⟨h, hname⟩
  by_cases hs : '(' ∈ s
  · obtain ⟨f', s', rfl, hf'⟩ := List.eq_append_cons_of_mem hs
    rw [List.append_assoc, List.cons_append, splitOnce?_of_not_mem hf', Option.some.injEq,
      Prod.mk.injEq] at hsplit
    exact ⟨s', by rw [hsplit.1], hsplit.2.symm⟩
  · -- otherwise the parenthesis stands behind the `#`
    have hc : '(' ∈ c := by
      have hmem : '(' ∈ s ++ (w ++ c) := by simp [h]
      simpa [hs, hparen] using hmem
    obtain ⟨c', c'', rfl, hc'⟩ := List.eq_append_cons_of_mem hc
    have hlead : '(' ∉ s ++ (w ++ c') := by simp [hs, hparen, hc']
    have hwhole : s ++ (w ++ (c' ++ '(' :: c'')) = (s ++ (w ++ c')) ++ '(' :: c'' := by simp
    rw [hwhole, splitOnce?_of_not_mem hlead, Option.some.injEq, Prod.mk.injEq] at hsplit
    exact absurd (hsplit.1 ▸ by simp [hw]) hf

end Dependency

namespace Line

variable {a b a' b' : List Char}

theorem solid_gap (ha : IsBlank a) (hb : IsBlank b) : solid (gap a b) = ['#'] := by
  rw [gap, solid_append, solid_append, solid_of_isBlank ha, solid_of_isBlank hb]
  decide

theorem mem_gap (ha : IsBlank a) (hb : IsBlank b) {c : Char} (hc : c ∈ gap a b) :
    c = '#' ∨ isBlank c = true := by
  by_contra hne
  rw [not_or] at hne
  have hsolid : c ∈ solid (gap a b) := List.mem_filter.2 ⟨hc, by simpa using hne.2⟩
  rw [solid_gap ha hb, List.mem_singleton] at hsolid
  exact hne.1 hsolid

theorem not_mem_gap (ha : IsBlank a) (hb : IsBlank b) {c : Char} (hc : c ≠ '#')
    (hblank : isBlank c = false) : c ∉ gap a b := fun hmem => by
  rcases mem_gap ha hb hmem with h | h
  · exact hc h
  · rw [hblank] at h
    cases h

theorem hash_mem_gap (a b : List Char) : '#' ∈ gap a b := by simp [gap, commentMark_toList]

theorem hash_mem_trim_gap (ha : IsBlank a) (hb : IsBlank b) (l r : List Char) :
    '#' ∈ trim (l ++ (gap a b ++ r)) := by
  have hsolid : '#' ∈ solid (trim (l ++ (gap a b ++ r))) := by
    rw [solid_trim, solid_append, solid_append, solid_gap ha hb]
    simp
  exact List.mem_of_mem_filter hsolid

/-- A gap is inside one of the arguments, and leaves the others as they are. -/
theorem splitArguments_gap (s c : List Char) : ∃ front l r back, ∀ {a b : List Char}, IsBlank a →
    IsBlank b → splitArguments (s ++ (gap a b ++ c)) =
      front ++ trim (l ++ (gap a b ++ r)) :: back := by
  obtain ⟨front, l, r, back, hcut⟩ := cutAtCommas_insert false s c
  refine ⟨front.map trim, l, r, back.map trim, fun {a b} ha hb => ?_⟩
  have hplain : ∀ x ∈ gap a b, x ≠ ',' ∧ x ≠ '"' := by
    intro x hx
    constructor <;> rintro rfl <;> exact not_mem_gap ha hb (by decide) (by decide) hx
  have hpieces : (cutAtCommas false (s ++ (gap a b ++ c))).map trim =
      front.map trim ++ trim (l ++ (gap a b ++ r)) :: back.map trim := by
    rw [hcut _ hplain, List.map_append, List.map_cons]
  rw [splitArguments_of_ne, hpieces]
  rw [hpieces]
  intro hnil
  have hempty : trim (l ++ (gap a b ++ r)) ∈ [[]] := hnil ▸ by simp
  have hmem := hash_mem_trim_gap ha hb l r
  rw [List.mem_singleton.1 hempty] at hmem
  cases hmem

end Line

open Line

/-- Around the name of a function there is but white space. -/
theorem Dependency.not_mem_name {d : Dependency} {f : List Char} {c : Char}
    (h : trim f = d.function.toList) (hblank : isBlank c = false)
    (hfunctions : ∀ f ∈ loadingFunctions, c ∉ f.toList) : c ∉ f := by
  obtain ⟨x, y, hx, hy, hsplit⟩ := trim_spec f
  rw [hsplit, h]
  simp [not_mem_of_isBlank hx hblank, not_mem_of_isBlank hy hblank, hfunctions _ d.function_mem]

/-- How wide a gap is makes no text a statement. -/
theorem Dependency.parse?_gap {s c a b a' b' : List Char} (hs : isEdged s = true)
    (hc : isEdged c = true) (ha : IsBlank a) (hb : IsBlank b) (ha' : IsBlank a') (hb' : IsBlank b')
    (h : parse? (s ++ (gap a b ++ c)) = none) : parse? (s ++ (gap a' b' ++ c)) = none := by
  rw [← Option.not_isSome_iff_eq_none, Option.isSome_iff_exists]
  rintro ⟨d, hd⟩
  obtain ⟨f, as, hwhole, hname, hfunction, hcall⟩ :=
    (parse?_eq_some_iff (isEdged_append hs _ hc)).1 hd
  have hhash : '#' ∉ f := not_mem_name hfunction (by decide) (by decide)
  obtain ⟨s', rfl, hrest⟩ := exists_call hhash (hash_mem_gap a' b')
    (not_mem_gap ha' hb' (by decide) (by decide)) hwhole hname
  obtain ⟨c', rfl, rfl⟩ : ∃ c', c = c' ++ [')'] ∧ as = s' ++ (gap a' b' ++ c') := by
    obtain ⟨c', x, rfl⟩ := (List.eq_nil_or_concat c).resolve_left (ne_nil_of_isEdged hc)
    have hrest' : as ++ [')'] = (s' ++ (gap a' b' ++ c')) ++ [x] := by simpa using hrest
    obtain ⟨has, hx⟩ := List.append_inj' hrest' rfl
    cases hx
    exact ⟨c', List.concat_eq_append, has⟩
  obtain ⟨front, l, r, back, hsplit⟩ := splitArguments_gap s' c'
  have hsolid : solid (trim (l ++ (gap a b ++ r))) = solid (trim (l ++ (gap a' b' ++ r))) := by
    simp only [solid_trim, solid_append, solid_gap ha hb, solid_gap ha' hb']
  rw [hsplit ha' hb'] at hcall
  obtain ⟨e, hsame, hcall'⟩ :=
    hcall.swap hsolid (by rw [trim_trim]; exact hash_mem_trim_gap ha' hb' l r)
  rw [← hsplit ha hb] at hcall'
  have hread : parse? (f ++ '(' :: s' ++ (gap a b ++ (c' ++ [')']))) = some e :=
    (parse?_eq_some_iff (isEdged_append hs _ hc)).2
      ⟨f, _, by simp, hname, hfunction.trans (by rw [hsame]), hcall'⟩
  rw [h] at hread
  cases hread

/-! ## Lines -/

namespace Line

variable {s c a b t : List Char} {l : Line}

/-- No mark begins at the end of the term. -/
def Settled : Line → Prop
  | termWithComment s _ => ¬ [' ', '#'] <:+ s.toList
  | _ => True

instance (l : Line) : Decidable l.Settled :=
  match l with
  | termWithComment s _ => inferInstanceAs (Decidable (¬ [' ', '#'] <:+ s.toList))
  | dependency _ | comment _ | term _ => isTrue trivial

/-- A mark that begins in a term is inside the term, or begins with the last two characters of it. -/
theorem mark_in_term {ahead rest : List Char} (hs : isEdged (ahead ++ rest) = true) (hrest : rest ≠ [])
    (hmark : commentMark.toList <+: rest ++ (gap [] [] ++ c)) :
    [' ', '#'] <:+ ahead ++ rest ∨ commentMark.toList <+: rest := by
  have hsuffix : rest <:+ ahead ++ rest := List.suffix_append ahead rest
  rw [commentMark_toList] at hmark ⊢
  rcases rest with _ | ⟨x, _ | ⟨y, _ | ⟨z, u⟩⟩⟩ <;>
    simp only [List.cons_append, List.nil_append, List.cons_prefix_cons] at hmark
  · exact absurd rfl hrest
  · rw [← hmark.1] at hsuffix hs
    exact absurd (eq_nil_of_isBlank_suffix hs (List.forall_mem_singleton.2 (by decide)) hsuffix)
      (List.cons_ne_nil _ _)
  · rw [← hmark.1, ← hmark.2.1] at hsuffix ⊢
    exact .inl hsuffix
  · obtain ⟨rfl, rfl, rfl, -⟩ := hmark
    exact .inr ⟨u, rfl⟩

/-- **Between single blanks, the mark behind a term is found again unless the term ends in one's
beginning.** -/
theorem findUnquoted?_gap (hs : isEdged s = true) (ha : IsBlank a)
    (h : findUnquoted? commentMark.toList (s ++ (gap a b ++ c)) = some (byteSize (s ++ a))) :
    findUnquoted? commentMark.toList (s ++ (gap [] [] ++ c)) = some (byteSize s) ↔
      ¬ [' ', '#'] <:+ s := by
  rw [findUnquoted?_eq_byteSize_iff mark_ne_nil head?_mark (prefix_gap s a b c)] at h
  rw [findUnquoted?_eq_byteSize_iff mark_ne_nil head?_mark (List.prefix_append s _)]
  obtain ⟨⟨-, hquoted⟩, hfirst⟩ := h
  have hplain : quotedBehind false s = false := by
    rwa [quotedBehind_append, quotedBehind_of_isBlank ha] at hquoted
  constructor
  · rintro ⟨-, hnone⟩ ⟨s', rfl⟩
    have hquote : quotedBehind false s' = false := by
      rwa [quotedBehind_append, quotedBehind_of_not_mem (by decide)] at hplain
    have hshort := (hnone s' ⟨⟨['#', ' '] ++ c, by simp [gap, commentMark_toList]⟩, hquote⟩).length_le
    rw [List.length_append] at hshort
    exact absurd hshort (by simp)
  · intro hsettled
    refine ⟨⟨⟨c, by simp [gap]⟩, hplain⟩, ?_⟩
    rintro ahead ⟨hmark, hquote⟩
    have hstart : ahead <+: s ++ (gap [] [] ++ c) := (List.prefix_append _ _).trans hmark
    by_contra hshort
    -- a place ahead of the end of the term has the mark in the term, where it was not found before
    obtain ⟨rest, rfl⟩ : ahead <+: s :=
      (List.prefix_or_prefix_of_prefix hstart (List.prefix_append s _)).resolve_right hshort
    have hrest : rest ≠ [] := by
      rintro rfl
      rw [List.append_nil] at hshort
      exact hshort (List.prefix_refl _)
    rw [List.append_assoc, List.prefix_append_right_inj] at hmark
    have hinside := (mark_in_term hs hrest hmark).resolve_left hsettled
    have hfar := (hfirst ahead ⟨?_, hquote⟩).length_le
    · have hpos := List.length_pos_iff.2 hrest
      simp only [List.length_append] at hfar
      omega
    · rw [List.append_assoc, List.prefix_append_right_inj]
      exact hinside.trans (List.prefix_append _ _)

/-! ## Reading again -/

theorem toList_text_comment (r : List Char) :
    (comment (String.ofList r)).text.toList = '#' :: ' ' :: r := by simp [text]

theorem toList_text_commented (s c : List Char) :
    (termWithComment (String.ofList s) (String.ofList c)).text.toList = s ++ (gap [] [] ++ c) := by
  simp [text, gap]

/-- The text of a line has no white space at its edges, but for a comment that says nothing. -/
theorem isEdged_text (ht : isEdged t = true) (h : Reads t l) :
    l = comment "" ∨ isEdged l.text.toList = true := by
  cases h with
  | spaced r =>
    rw [toList_text_comment]
    exact .inr ht
  | joined r =>
    by_cases hr : r = []
    · exact .inl (by rw [hr])
    · rw [toList_text_comment]
      exact .inr (isEdged_cons_cons ht hr)
  | dependency _ _ => exact .inr (Dependency.isEdged_text _)
  | commented _ _ _ _ _ hs hcomment _ =>
    rw [toList_text_commented]
    exact .inr (isEdged_append hs _ hcomment)
  | term =>
    rw [text, String.toList_ofList]
    exact .inr ht

theorem reads_text_dependency {d : Dependency} (h : Dependency.parse? d.text.toList = some d) :
    Reads d.text.toList (dependency d) := by
  obtain ⟨c, r, hlist, -, hhash⟩ := call_cons d.callable_function (quoted d.path.text :: d.details)
  rw [← Dependency.text_eq_call] at hlist
  rw [hlist] at h ⊢
  exact .dependency hhash h

/-- A term and its comment are read again as the same two exactly if the mark between them is found
where it was. -/
theorem parse?_commented {c : Char} {r s a b comment : List Char} (hlead : c ≠ '#')
    (hplain : Dependency.parse? (c :: r) = none) (hsplit : c :: r = s ++ (gap a b ++ comment))
    (ha : IsBlank a) (hb : IsBlank b) (hs : isEdged s = true) (hcomment : isEdged comment = true) :
    parse? (s ++ (gap [] [] ++ comment)) =
        some (termWithComment (String.ofList s) (String.ofList comment)) ↔
      findUnquoted? commentMark.toList (s ++ (gap [] [] ++ comment)) = some (byteSize s) := by
  have hedged := isEdged_append hs (gap [] []) hcomment
  rw [hsplit] at hplain
  have hplain' := Dependency.parse?_gap hs hcomment ha hb isBlank_nil isBlank_nil hplain
  obtain ⟨d, s', rfl⟩ := List.exists_cons_of_ne_nil (ne_nil_of_isEdged hs)
  obtain ⟨rfl, -⟩ := List.cons.inj hsplit
  rw [parse?_eq_some_iff, trim_of_isEdged hedged]
  constructor
  · rintro ⟨-, hreads⟩
    generalize hwhole : (c :: s') ++ (gap [] [] ++ comment) = t at hreads
    generalize hline : termWithComment (String.ofList (c :: s')) (String.ofList comment) = l at hreads
    cases hreads with
    | spaced | joined | dependency | term => cases hline
    | @commented _ _ s₂ a₂ b₂ comment₂ _ _ hsplit₂ _ _ _ _ hfirst =>
      obtain ⟨hterm, hbehind⟩ := termWithComment.inj hline
      obtain rfl := String.ofList_injective hterm
      obtain rfl := String.ofList_injective hbehind
      -- the gap is as long as it was, so nothing is around the mark
      have hlength := congrArg List.length (hwhole.trans hsplit₂)
      simp only [gap, List.length_append, List.length_nil] at hlength
      have hnil : a₂ = [] := List.eq_nil_of_length_eq_zero (by omega)
      rwa [hnil, List.append_nil] at hfirst
  · intro hfind
    exact ⟨hedged, .commented hlead hplain' rfl isBlank_nil isBlank_nil hs hcomment
      (by simpa using hfind)⟩

/-- **A line that was read is read again from its own text exactly if it is settled.** -/
theorem parse?_text_iff {x : List Char} (h : parse? x = some l) :
    parse? l.text.toList = some l ↔ l.Settled := by
  have hagain : ∀ {t}, isEdged t = true → Reads t l → parse? t = some l := fun ht hreads =>
    parse?_eq_some_iff.2 (by rw [trim_of_isEdged ht]; exact ⟨ht, hreads⟩)
  obtain ⟨ht, hreads⟩ := parse?_eq_some_iff.1 h
  generalize trim x = t at ht hreads
  cases hreads with
  | spaced r =>
    rw [toList_text_comment]
    exact iff_of_true (hagain ht (.spaced r)) trivial
  | joined r =>
    refine iff_of_true ?_ trivial
    by_cases hr : r = []
    · rw [hr]
      decide
    · rw [toList_text_comment]
      exact hagain (isEdged_cons_cons ht hr) (.spaced r)
  | dependency _ hread =>
    have hparse := Dependency.parse?_text_of_parse? ht hread
    exact iff_of_true (hagain (Dependency.isEdged_text _) (reads_text_dependency hparse)) trivial
  | commented hlead hplain hsplit ha hb hs hcomment hfirst =>
    rw [toList_text_commented, parse?_commented hlead hplain hsplit ha hb hs hcomment,
      findUnquoted?_gap hs ha (hsplit ▸ hfirst), Settled, String.toList_ofList]
  | term hlead hplain hnone =>
    rw [text, String.toList_ofList]
    exact iff_of_true (hagain ht (.term hlead hplain hnone)) trivial

end Line

/-! ## Scripts -/

namespace Line

variable {x : List Char} {l : Line}

/-- No line ends in a carriage return. -/
theorem whole_of_parse? (h : parse? x = some l) : l.text.toList.getLast? ≠ some '\r' := by
  obtain ⟨ht, hreads⟩ := parse?_eq_some_iff.1 h
  rcases isEdged_text ht hreads with rfl | hedged
  · decide
  · intro hlast
    have hblank : isBlank '\r' = true := by decide
    simpa [hlast, hblank] using (isEdged_iff.1 hedged).2.2

/-- The text of a line is a line. -/
theorem isSome_parse?_text (h : parse? x = some l) : (parse? l.text.toList).isSome = true := by
  obtain ⟨ht, hreads⟩ := parse?_eq_some_iff.1 h
  rcases isEdged_text ht hreads with rfl | hedged
  · decide
  · refine isSome_parse? ?_
    rw [trim_of_isEdged hedged]
    exact ne_nil_of_isEdged hedged

end Line

namespace Script

theorem lines_parse (t : String) :
    (parse t).lines = (Text.lines t.toList).filterMap Line.parse? := rfl

/-- A script that was read has the text of its lines for lines of its text. -/
theorem lines_text_parse (t : String) :
    Text.lines (parse t).text.toList = (parse t).lines.map fun l => l.text.toList := by
  rw [(isUnbroken_parse t).lines_text]
  refine List.map_congr_left fun l hl => ?_
  obtain ⟨x, -, hx⟩ := List.mem_filterMap.1 hl
  rw [dropReturn, if_neg (Line.whole_of_parse? hx)]

theorem filterMap_eq_self_iff {α : Type} {f : α → Option α} {as : List α}
    (h : ∀ a ∈ as, (f a).isSome = true) : as.filterMap f = as ↔ ∀ a ∈ as, f a = some a := by
  induction as with
  | nil => simp
  | cons a as ih =>
    obtain ⟨b, hb⟩ := Option.isSome_iff_exists.1 (h a List.mem_cons_self)
    rw [List.filterMap_cons_some hb, List.cons.injEq, ih fun c hc => h c (List.mem_cons_of_mem _ hc),
      List.forall_mem_cons, hb, Option.some.injEq]

/-- **A script that was read, written and read again is the same script exactly if no term of it ends
in the beginning of a mark.** -/
theorem parse_text_parse_iff (t : String) :
    parse (parse t).text = parse t ↔ ∀ l ∈ (parse t).lines, l.Settled := by
  have hread : ∀ l ∈ (parse t).lines, ∃ x, Line.parse? x = some l := by
    intro l hl
    obtain ⟨x, -, hx⟩ := List.mem_filterMap.1 hl
    exact ⟨x, hx⟩
  have hlines : (parse (parse t).text).lines =
      (parse t).lines.filterMap fun l => Line.parse? l.text.toList := by
    rw [lines_parse (parse t).text, lines_text_parse, List.filterMap_map, Function.comp_def]
  have hsome : ∀ l ∈ (parse t).lines, (Line.parse? l.text.toList).isSome = true := by
    intro l hl
    obtain ⟨x, hx⟩ := hread l hl
    exact Line.isSome_parse?_text hx
  calc parse (parse t).text = parse t
      ↔ (parse t).lines.filterMap (fun l => Line.parse? l.text.toList) = (parse t).lines := by
        rw [← hlines, Script.mk.injEq]
    _ ↔ ∀ l ∈ (parse t).lines, Line.parse? l.text.toList = some l := filterMap_eq_self_iff hsome
    _ ↔ ∀ l ∈ (parse t).lines, l.Settled := forall₂_congr fun l hl => by
        obtain ⟨x, hx⟩ := hread l hl
        exact Line.parse?_text_iff hx

/-- A term that ends in a blank and a `#` loses them to its comment. -/
theorem parse_text_parse_ne :
    parse (parse "x #\t # y").text ≠ parse "x #\t # y" := by
  decide

end Script

end Restoration
