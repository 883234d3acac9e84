import Restoration.Proofs.Script.Edges

/-!
# Places outside quotes

Whether a place of a text is quoted is a matter of the quotes ahead of it. What is searched for is
found at the first place where it stands outside quotes (`isFirst_findUnquotedFrom`), and arguments end at
the commas outside quotes:

    cutAtCommas q (a ++ ',' :: b) = a :: cutAtCommas false b
                                             for the first comma of all that stands outside quotes
-/

namespace Restoration

namespace Script

/-! ## Quotes ahead of a place -/

/-- Is text quoted behind this one, if it is quoted ahead of it or not? -/
def quotedBehind (quoted : Bool) (t : List Char) : Bool :=
  t.foldl (fun q c => if c = '"' then !q else q) quoted

@[simp] theorem quotedBehind_nil (q : Bool) : quotedBehind q [] = q := rfl

theorem quotedBehind_cons (q : Bool) (c : Char) (r : List Char) :
    quotedBehind q (c :: r) = quotedBehind (if c = '"' then !q else q) r := rfl

theorem quotedBehind_append (q : Bool) (a b : List Char) :
    quotedBehind q (a ++ b) = quotedBehind (quotedBehind q a) b := List.foldl_append

theorem quotedBehind_of_not_mem {t : List Char} (h : '"' ∉ t) (q : Bool) : quotedBehind q t = q := by
  induction t with
  | nil => rfl
  | cons c r ih =>
    rw [List.mem_cons, not_or] at h
    rw [quotedBehind_cons, if_neg (Ne.symm h.1), ih h.2]

/-- Each quote switches. -/
theorem quotedBehind_eq_parity (t : List Char) (q : Bool) :
    quotedBehind q t = (q ^^ (t.count '"' % 2 == 1)) := by
  induction t generalizing q with
  | nil => simp
  | cons c r ih =>
    rw [quotedBehind_cons, ih]
    by_cases hc : c = '"'
    · have hodd : (r.count '"' + 1) % 2 = 1 - r.count '"' % 2 := by omega
      rw [if_pos hc, hc, List.count_cons_self, hodd]
      rcases Nat.mod_two_eq_zero_or_one (r.count '"') with hr | hr <;> rw [hr] <;> cases q <;> rfl
    · rw [if_neg hc, List.count_cons_of_ne hc]

/-- An even number of quotes leaves text as it was. -/
theorem quotedBehind_of_count {t : List Char} (h : t.count '"' % 2 = 0) (q : Bool) :
    quotedBehind q t = q := by
  rw [quotedBehind_eq_parity, h]
  cases q <;> rfl

/-! ## Searching -/

/-- Behind this beginning of the text the pattern stands, and outside quotes. -/
def StandsBehind (pattern : List Char) (quoted : Bool) (t ahead : List Char) : Prop :=
  ahead ++ pattern <+: t ∧ quotedBehind quoted ahead = false

section search

variable {pattern t : List Char} {q : Bool}

/-- The byte, if there is one, is the first at which the pattern stands outside quotes. -/
def IsFirst (pattern : List Char) (quoted : Bool) (t : List Char) : Option Nat → Prop
  | some i => ∃ ahead, Text.byteSize ahead = i ∧ StandsBehind pattern quoted t ahead ∧
      ∀ other, StandsBehind pattern quoted t other → ahead <+: other
  | none => ∀ ahead, ¬ StandsBehind pattern quoted t ahead

/-- A place of a text is its beginning, or a place of the rest. -/
theorem StandsBehind.of_cons {c : Char} {ahead : List Char}
    (h : StandsBehind pattern q (c :: t) ahead) : ahead = [] ∨
      ∃ rest, ahead = c :: rest ∧ StandsBehind pattern (if c = '"' then !q else q) t rest := by
  obtain ⟨hstarts, hquoted⟩ := h
  cases ahead with
  | nil => exact .inl rfl
  | cons d rest =>
    rw [List.cons_append, List.cons_prefix_cons] at hstarts
    obtain ⟨rfl, hstarts⟩ := hstarts
    exact .inr ⟨rest, rfl, hstarts, hquoted⟩

theorem IsFirst.cons {c : Char} {found : Option Nat} (hhere : ¬ StandsBehind pattern q (c :: t) [])
    (h : IsFirst pattern (if c = '"' then !q else q) t found) :
    IsFirst pattern q (c :: t) (found.map (c.utf8Size + ·)) := by
  have hbehind : ∀ {ahead}, StandsBehind pattern q (c :: t) ahead → ∃ rest, ahead = c :: rest ∧
      StandsBehind pattern (if c = '"' then !q else q) t rest := fun hstands =>
    hstands.of_cons.resolve_left fun hnil => hhere (hnil ▸ hstands)
  cases found with
  | none =>
    intro ahead hstands
    obtain ⟨rest, -, hrest⟩ := hbehind hstands
    exact h rest hrest
  | some i =>
    obtain ⟨ahead, rfl, hstands, hfirst⟩ := h
    refine ⟨c :: ahead, Text.byteSize_cons c ahead, ⟨?_, hstands.2⟩, fun other hother => ?_⟩
    · rw [List.cons_append, List.cons_prefix_cons]
      exact ⟨rfl, hstands.1⟩
    · obtain ⟨rest, rfl, hrest⟩ := hbehind hother
      exact List.cons_prefix_cons.2 ⟨rfl, hfirst rest hrest⟩

variable (hne : pattern ≠ []) (hquote : pattern.head? ≠ some '"')

include hne hquote

/-- **What is found is the first place outside quotes**, if there is one. -/
theorem isFirst_findUnquotedFrom (q : Bool) (t : List Char) :
    IsFirst pattern q t (findUnquotedFrom pattern q t) := by
  induction t generalizing q with
  | nil =>
    rintro ahead ⟨hstarts, -⟩
    rw [List.prefix_nil, List.append_eq_nil_iff] at hstarts
    exact hne hstarts.2
  | cons c r ih =>
    have hrest := ih (if c = '"' then !q else q)
    by_cases hc : c = '"'
    · rw [if_pos hc] at hrest
      rw [findUnquotedFrom, if_pos hc]
      refine IsFirst.cons ?_ (by rwa [if_pos hc])
      rintro ⟨hstarts, -⟩
      obtain ⟨d, rest, rfl⟩ := List.exists_cons_of_ne_nil hne
      exact hquote (by rw [(List.cons_prefix_cons.1 hstarts).1, hc]; rfl)
    · by_cases hhere : (!q && pattern.isPrefixOf (c :: r)) = true
      · rw [findUnquotedFrom, if_neg hc, if_pos hhere]
        rw [Bool.and_eq_true, Bool.not_eq_true', List.isPrefixOf_iff_prefix] at hhere
        exact ⟨[], rfl, ⟨hhere.2, hhere.1⟩, fun other _ => List.nil_prefix⟩
      · rw [if_neg hc] at hrest
        rw [findUnquotedFrom, if_neg hc, if_neg hhere]
        refine IsFirst.cons ?_ (by rwa [if_neg hc])
        rintro ⟨hstarts, hquoted⟩
        have hq : q = false := hquoted
        rw [hq] at hhere
        exact hhere (by simpa using hstarts)

theorem findUnquoted?_eq_some_iff {i : Nat} : findUnquoted? pattern t = some i ↔
    ∃ ahead, Text.byteSize ahead = i ∧ StandsBehind pattern false t ahead ∧
      ∀ other, StandsBehind pattern false t other → ahead <+: other := by
  have h := isFirst_findUnquotedFrom hne hquote false t
  rw [findUnquoted?]
  cases hfind : findUnquotedFrom pattern false t with
  | none =>
    rw [hfind] at h
    exact ⟨fun hsome => (by cases hsome), fun ⟨ahead, _, hstands, _⟩ => absurd hstands (h ahead)⟩
  | some j =>
    rw [hfind] at h
    constructor
    · intro hj
      cases hj
      exact h
    · rintro ⟨ahead, rfl, hstands, hfirst⟩
      obtain ⟨found, rfl, hfound, hfirst'⟩ := h
      rw [(hfirst' ahead hstands).eq_of_length_le (hfirst found hfound).length_le]

/-- For a beginning of the text it is enough to look behind it. -/
theorem findUnquoted?_eq_byteSize_iff {ahead : List Char} (h : ahead <+: t) :
    findUnquoted? pattern t = some (Text.byteSize ahead) ↔ StandsBehind pattern false t ahead ∧
      ∀ other, StandsBehind pattern false t other → ahead <+: other := by
  rw [findUnquoted?_eq_some_iff hne hquote]
  constructor
  · rintro ⟨found, hsize, hstands, hfirst⟩
    obtain rfl := Text.eq_of_byteSize_eq ((List.prefix_append found pattern).trans hstands.1) h hsize
    exact ⟨hstands, hfirst⟩
  · exact fun hfirst => ⟨ahead, rfl, hfirst⟩

theorem findUnquoted?_eq_none_iff : findUnquoted? pattern t = none ↔
    ∀ ahead, ¬ StandsBehind pattern false t ahead := by
  have h := isFirst_findUnquotedFrom hne hquote false t
  rw [findUnquoted?]
  cases hfind : findUnquotedFrom pattern false t with
  | none =>
    rw [hfind] at h
    exact ⟨fun _ => h, fun _ => rfl⟩
  | some j =>
    rw [hfind] at h
    obtain ⟨ahead, -, hstands, -⟩ := h
    exact ⟨fun hsome => (by cases hsome), fun hnone => absurd hstands (hnone ahead)⟩

end search

/-! ## White space -/

theorem plain_of_isBlank {b : List Char} (h : Text.IsBlank b) : ∀ c ∈ b, c ≠ ',' ∧ c ≠ '"' := by
  intro c hc
  have hblank := h c hc
  constructor <;> rintro rfl <;> exact absurd hblank (by decide)

/-- White space at the edges of a text neither separates nor quotes. -/
theorem quotedAfter_trim (q : Bool) (t : List Char) :
    quotedAfter q (Text.trim t) = quotedAfter q t := by
  obtain ⟨a, b, ha, hb, hsplit⟩ := trim_spec t
  have hafter : ∀ q, quotedAfter q b = some q := quotedAfter_plain (plain_of_isBlank hb)
  conv_rhs => rw [hsplit, quotedAfter_append, quotedAfter_plain (plain_of_isBlank ha),
    Option.bind_some, quotedAfter_append]
  simp only [hafter, Option.bind_fun_some]

theorem quotedBehind_of_isBlank {a : List Char} (ha : Text.IsBlank a) (q : Bool) :
    quotedBehind q a = q := quotedBehind_of_not_mem (Text.not_mem_of_isBlank ha (by decide)) q

theorem quotedBehind_trim (q : Bool) (t : List Char) :
    quotedBehind q (Text.trim t) = quotedBehind q t := by
  obtain ⟨a, b, ha, hb, hsplit⟩ := trim_spec t
  conv_rhs => rw [hsplit, quotedBehind_append, quotedBehind_of_isBlank ha, quotedBehind_append,
    quotedBehind_of_isBlank hb]

/-! ## Cutting at commas -/

/-- No comma outside quotes is in the text, or the text ahead of the first one is the first piece. -/
theorem cutAtCommas_cases (q : Bool) (t : List Char) :
    (∃ q', quotedAfter q t = some q' ∧ cutAtCommas q t = [t]) ∨
      ∃ a b, t = a ++ ',' :: b ∧ quotedAfter q a = some false ∧
        cutAtCommas q t = a :: cutAtCommas false b := by
  induction t generalizing q with
  | nil => exact .inl ⟨q, rfl, rfl⟩
  | cons c r ih =>
    by_cases hc : c = ',' ∧ q = false
    · obtain ⟨rfl, rfl⟩ := hc
      exact .inr ⟨[], r, rfl, rfl, by rw [cutAtCommas, if_pos ⟨rfl, rfl⟩]⟩
    · rcases ih (if c = '"' then !q else q) with ⟨q', hafter, hcut⟩ | ⟨a, b, rfl, hafter, hcut⟩
      · exact .inl ⟨q', by rw [quotedAfter, if_neg hc, hafter], by rw [cutAtCommas, if_neg hc, hcut]⟩
      · exact .inr ⟨c :: a, b, rfl, by rw [quotedAfter, if_neg hc, hafter],
          by rw [cutAtCommas, if_neg hc, hcut]⟩

/-- One piece is the whole text. -/
theorem cutAtCommas_eq_singleton {q : Bool} {t a : List Char} (h : cutAtCommas q t = [a]) :
    t = a ∧ ∃ q', quotedAfter q a = some q' := by
  rcases cutAtCommas_cases q t with ⟨q', hafter, hcut⟩ | ⟨front, b, -, -, hcut⟩
  · rw [hcut, List.singleton_inj] at h
    exact ⟨h, q', h ▸ hafter⟩
  · rw [hcut] at h
    exact absurd (List.cons.inj h).2 (cutAtCommas_ne_nil _ _)

/-- The first of several pieces ends outside quotes, and at a comma. -/
theorem cutAtCommas_eq_cons {q : Bool} {t a b : List Char} {rest : List (List Char)}
    (h : cutAtCommas q t = a :: b :: rest) :
    ∃ u, t = a ++ ',' :: u ∧ quotedAfter q a = some false ∧ cutAtCommas false u = b :: rest := by
  rcases cutAtCommas_cases q t with ⟨q', -, hcut⟩ | ⟨front, u, ht, hafter, hcut⟩
  · rw [hcut] at h
    cases h
  · rw [hcut] at h
    obtain ⟨rfl, hrest⟩ := List.cons.inj h
    exact ⟨u, ht, hafter, hrest⟩

/-- **The pieces are all of the text**, and a comma stands between any two of them. -/
theorem intercalate_cutAtCommas (q : Bool) (t : List Char) :
    [','].intercalate (cutAtCommas q t) = t := by
  induction t generalizing q with
  | nil => rfl
  | cons c r ih =>
    by_cases hc : c = ',' ∧ q = false
    · obtain ⟨piece, rest, hcut⟩ := List.exists_cons_of_ne_nil (cutAtCommas_ne_nil q r)
      rw [cutAtCommas, if_pos hc, hcut, List.intercalate_cons_cons, ← hcut, ih, hc.1]
      rfl
    · obtain ⟨piece, rest, hcut⟩ :=
        List.exists_cons_of_ne_nil (cutAtCommas_ne_nil (if c = '"' then !q else q) r)
      have hr := ih (if c = '"' then !q else q)
      rw [cutAtCommas, if_neg hc, hcut]
      rw [hcut] at hr
      cases rest with
      | nil => rw [List.intercalate_singleton] at hr ⊢; rw [hr]
      | cons next rest =>
        rw [List.intercalate_cons_cons] at hr ⊢
        rw [List.cons_append, List.cons_append, hr]

/-- Where all quotes of a text are closed, those of each piece are. -/
theorem quotedBehind_of_cutAtCommas {q : Bool} {t piece : List Char} {rest : List (List Char)}
    (hcut : cutAtCommas q t = piece :: rest) (h : quotedBehind q t = false) :
    quotedBehind q piece = false ∧ ∀ p ∈ rest, quotedBehind false p = false := by
  induction t generalizing q piece rest with
  | nil =>
    cases hcut
    exact ⟨h, by simp⟩
  | cons c r ih =>
    rw [quotedBehind_cons] at h
    by_cases hc : c = ',' ∧ q = false
    · obtain ⟨rfl, rfl⟩ := hc
      obtain ⟨next, behind, hnext⟩ := List.exists_cons_of_ne_nil (cutAtCommas_ne_nil false r)
      rw [cutAtCommas, if_pos ⟨rfl, rfl⟩, hnext] at hcut
      cases hcut
      exact ⟨rfl, List.forall_mem_cons.2 (ih hnext h)⟩
    · obtain ⟨next, behind, hnext⟩ :=
        List.exists_cons_of_ne_nil (cutAtCommas_ne_nil (if c = '"' then !q else q) r)
      rw [cutAtCommas, if_neg hc, hnext] at hcut
      cases hcut
      obtain ⟨hfirst, hothers⟩ := ih hnext h
      exact ⟨hfirst, hothers⟩

theorem closed_of_mem_cutAtCommas {t piece : List Char} (h : quotedBehind false t = false)
    (hpiece : piece ∈ cutAtCommas false t) : quotedBehind false piece = false := by
  obtain ⟨first, rest, hcut⟩ := List.exists_cons_of_ne_nil (cutAtCommas_ne_nil false t)
  obtain ⟨hfirst, hothers⟩ := quotedBehind_of_cutAtCommas hcut h
  rw [hcut, List.mem_cons] at hpiece
  rcases hpiece with rfl | hpiece
  · exact hfirst
  · exact hothers piece hpiece

/-- Text that neither separates nor quotes is put into one piece, whatever it is. -/
theorem cutAtCommas_insert (q : Bool) (x y : List Char) : ∃ front l h back, ∀ w : List Char,
    (∀ c ∈ w, c ≠ ',' ∧ c ≠ '"') → cutAtCommas q (x ++ (w ++ y)) = front ++ (l ++ (w ++ h)) :: back := by
  induction x generalizing q with
  | nil =>
    obtain ⟨h, back, hcut⟩ := List.exists_cons_of_ne_nil (cutAtCommas_ne_nil q y)
    exact ⟨[], [], h, back, fun w hw => cutAtCommas_append (quotedAfter_plain hw q) hcut⟩
  | cons c r ih =>
    by_cases hc : c = ',' ∧ q = false
    · obtain ⟨front, l, h, back, hall⟩ := ih q
      refine ⟨[] :: front, l, h, back, fun w hw => ?_⟩
      rw [List.cons_append, cutAtCommas, if_pos hc, hall w hw, List.cons_append]
    · obtain ⟨front, l, h, back, hall⟩ := ih (if c = '"' then !q else q)
      cases front with
      | nil =>
        refine ⟨[], c :: l, h, back, fun w hw => ?_⟩
        rw [List.cons_append, cutAtCommas, if_neg hc, hall w hw]
        rfl
      | cons piece front =>
        refine ⟨(c :: piece) :: front, l, h, back, fun w hw => ?_⟩
        rw [List.cons_append, cutAtCommas, if_neg hc, hall w hw]
        rfl

/-- Arguments are the trimmed pieces, unless there is but white space. -/
theorem splitArguments_of_ne_nil {t : List Char} (h : splitArguments t ≠ []) :
    splitArguments t = (cutAtCommas false t).map Text.trim := by
  rw [splitArguments_eq] at h ⊢
  split at h
  · exact absurd rfl h
  · rfl

theorem splitArguments_of_ne {t : List Char} (h : (cutAtCommas false t).map Text.trim ≠ [[]]) :
    splitArguments t = (cutAtCommas false t).map Text.trim := by
  rw [splitArguments_eq]
  split
  · rename_i heq
    exact absurd heq h
  · rfl

end Script

end Restoration
