import Mathlib.Data.List.Basic
import Restoration.Proofs.Stage.Formats
import Restoration.Script.Restriction

/-!
# Spelling of statements

Scripts are read and searched as text, so it matters what the arguments of a call spell. Most are
`Quiet`: a `#` in them begins no comment, and neither of the texts stands in them that lines are
searched for. The others cite a path between quotes, and then the path has the last word:

    m ∈ marks  →  hasText (call f as) m  →  hasText (f ++ "(") m  or  hasText a m for some a ∈ as
    Cites p a  →  hasText a m = hasText p.text m
-/

namespace Restoration

open Statements

/-! ## Text in text -/

/-- What holds of all characters of a text is decided by these, and not by all characters there are. -/
instance (priority := high) decidableForallMemText {holds : Char → Prop} [DecidablePred holds]
    (text : List Char) : Decidable (∀ c ∈ text, holds c) :=
  List.decidableBAll holds text

theorem hasText_iff {s pattern : String} : hasText s pattern = true ↔ pattern.toList <:+: s.toList :=
  Text.occursIn_iff

namespace Text

variable {p a b : List Char} {c : Char}

/-- Where a character stands that a pattern can only end in, the pattern stands on one side. -/
theorem infix_break (hc : c ∉ p.dropLast) (h : p <:+: a ++ c :: b) : p <:+: a ++ [c] ∨ p <:+: b := by
  rw [List.append_cons, List.infix_append_iff] at h
  rcases h with h | h | ⟨front, back, rfl, hfront, hback⟩
  · exact .inl h
  · exact .inr h
  · rcases List.eq_nil_or_concat back with rfl | ⟨back, x, rfl⟩
    · rw [List.append_nil]
      exact .inl hfront.isInfix
    · rcases List.eq_nil_or_concat front with rfl | ⟨front, y, rfl⟩
      · exact .inr hback.isInfix
      · -- a pattern across the character would go on behind it
        have hy : y = c := by simpa using List.IsSuffix.getLast hfront (by simp)
        refine absurd ?_ hc
        rw [hy, List.concat_eq_append, List.concat_eq_append, ← List.append_assoc,
          List.dropLast_concat]
        simp

theorem infix_concat (hc : c ∉ p) (h : p <:+: a ++ [c]) : p <:+: a := by
  rcases List.infix_concat_iff.1 h with h | h
  · rcases List.eq_nil_or_concat p with rfl | ⟨p, x, rfl⟩
    · exact List.nil_infix
    · have hx : x = c := by simpa using List.IsSuffix.getLast h (by simp)
      simp [hx] at hc
  · exact h

theorem infix_intercalate {sep : List Char} {bs : List (List Char)} (h : a ∈ bs) :
    a <:+: sep.intercalate bs := by
  induction bs with
  | nil => cases h
  | cons b rest ih =>
    cases rest with
    | nil => simp [List.mem_singleton.1 h]
    | cons c rest =>
      rw [List.intercalate_cons_cons, List.append_assoc]
      rcases List.mem_cons.1 h with rfl | h
      · exact (List.prefix_append _ _).isInfix
      · exact (ih h).trans ((List.suffix_append _ _).trans (List.suffix_append _ _)).isInfix

theorem infix_append_cons (hc : c ∉ p) (h : p <:+: a ++ c :: b) : p <:+: a ∨ p <:+: b :=
  (infix_break (fun hmem => hc (List.dropLast_subset _ hmem)) h).imp_left (infix_concat hc)

end Text

/-! ## Marks -/

/-- The texts that lines are searched for. -/
def marks : List String := [Script.restrictionMark, Script.prefetchMark]

/-- What holds of the characters of a mark. -/
structure IsMark (m : String) : Prop where
  opening : '(' ∉ m.toList.dropLast
  plain : ∀ c ∈ [',', ')', '"', '|', '/'], c ∉ m.toList
  begins : m.toList.head? = some '#' ∨ m.toList.head? = some 'P'

theorem isMark_of_mem : ∀ m ∈ marks, IsMark m := by
  simp only [marks, List.forall_mem_cons]
  exact ⟨⟨by decide, by decide, by decide⟩, ⟨by decide, by decide, by decide⟩, by simp⟩

theorem hasText_of_not_mem {m s : String} (hm : IsMark m) (hhash : '#' ∉ s.toList)
    (hp : 'P' ∉ s.toList) : hasText s m = false := by
  rw [← Bool.not_eq_true, hasText_iff]
  intro h
  rcases hm.begins with hhead | hhead
  · exact hhash (h.subset (List.mem_of_mem_head? hhead))
  · exact hp (h.subset (List.mem_of_mem_head? hhead))

/-! ## Quotes -/

namespace Script

/-- Reads on from a plain or quoted point: `none` if a `#` stands outside quotes, and otherwise
whether the end is quoted. -/
def hashAfter (quoted : Bool) : List Char → Option Bool
  | [] => some quoted
  | c :: r =>
    if c = '#' ∧ quoted = false then none
    else hashAfter (if c = '"' then !quoted else quoted) r

theorem hashAfter_append (q : Bool) (a b : List Char) :
    hashAfter q (a ++ b) = (hashAfter q a).bind (hashAfter · b) := by
  induction a generalizing q with
  | nil => rfl
  | cons c r ih =>
    rw [List.cons_append, hashAfter, hashAfter]
    split
    · rfl
    · exact ih _

/-- Text without quotes leaves text plain or quoted, unless a `#` stands out in it. -/
theorem hashAfter_of_not_mem {a : List Char} (h : '"' ∉ a) {q : Bool} (hq : q = true ∨ '#' ∉ a) :
    hashAfter q a = some q := by
  induction a with
  | nil => rfl
  | cons c r ih =>
    rw [List.mem_cons, not_or] at h
    rw [List.mem_cons, not_or] at hq
    rw [hashAfter, if_neg, if_neg (Ne.symm h.1), ih h.2 (hq.imp_right And.right)]
    rintro ⟨rfl, rfl⟩
    rcases hq with hq | hq
    · cases hq
    · exact hq.1 rfl

end Script

/-! ## Arguments -/

/-- An argument that closes its quotes, begins no comment and ends no line. -/
structure Sound (a : String) : Prop where
  closed : Script.hashAfter false a.toList = some false
  unbroken : '\n' ∉ a.toList

/-- A sound argument that spells no mark. -/
structure Quiet (a : String) : Prop extends Sound a where
  unmarked : ∀ m ∈ marks, hasText a m = false

instance (a : String) : Decidable (Sound a) :=
  decidable_of_iff (Script.hashAfter false a.toList = some false ∧ '\n' ∉ a.toList)
    ⟨fun h => ⟨h.1, h.2⟩, fun h => ⟨h.closed, h.unbroken⟩⟩

instance (a : String) : Decidable (Quiet a) :=
  decidable_of_iff (Script.hashAfter false a.toList = some false ∧ '\n' ∉ a.toList ∧
    ∀ m ∈ marks, hasText a m = false)
    ⟨fun h => ⟨⟨h.1, h.2.1⟩, h.2.2⟩, fun h => ⟨h.closed, h.unbroken, h.unmarked⟩⟩

theorem Sound.quiet {a : String} (h : Sound a) (hhash : '#' ∉ a.toList) (hp : 'P' ∉ a.toList) :
    Quiet a :=
  { h with unmarked := fun m hm => hasText_of_not_mem (isMark_of_mem m hm) hhash hp }

/-- Does the character mean nothing to a reader of scripts? -/
def isQuiet (c : Char) : Bool := c != '"' && c != '#' && c != '\n' && c != 'P'

theorem isQuiet_iff {c : Char} : isQuiet c = true ↔ c ≠ '"' ∧ c ≠ '#' ∧ c ≠ '\n' ∧ c ≠ 'P' := by
  simp [isQuiet, and_assoc]

theorem quiet_of_chars {a : String} (h : ∀ c ∈ a.toList, isQuiet c = true) : Quiet a := by
  have hlacks : ∀ d, isQuiet d = false → d ∉ a.toList := fun d hd hmem => by
    rw [h d hmem] at hd
    cases hd
  refine Sound.quiet ⟨?_, hlacks '\n' rfl⟩ (hlacks '#' rfl) (hlacks 'P' rfl)
  exact Script.hashAfter_of_not_mem (hlacks '"' rfl) (.inr (hlacks '#' rfl))

theorem isQuiet_of_isNumeric {c : Char} (h : isNumeric c = true) : isQuiet c = true := by
  rw [isQuiet_iff]
  refine ⟨?_, ?_, ?_, ?_⟩ <;> rintro rfl <;> exact absurd h (by decide)

theorem not_mem_numeral_of_loud {c : Char} (h : isQuiet c = false) (n : Nat) :
    c ∉ (Numeral.text n).toList := fun hmem => by
  rw [isQuiet_of_isNumeric (isNumeric_of_mem_text hmem)] at h
  cases h

theorem quiet_numeral_behind {lead : String} (h : ∀ c ∈ lead.toList, isQuiet c = true) (n : Nat) :
    Quiet (lead ++ Numeral.text n) := by
  refine quiet_of_chars fun c hc => ?_
  rw [String.toList_append, List.mem_append] at hc
  exact hc.elim (h c) fun hn => isQuiet_of_isNumeric (isNumeric_of_mem_text hn)

theorem quiet_numeral (n : Nat) : Quiet (Numeral.text n) :=
  quiet_of_chars fun _ hc => isQuiet_of_isNumeric (isNumeric_of_mem_text hc)

theorem quiet_hundredths (n : Nat) : Quiet (Decimal.hundredths n) :=
  quiet_of_chars fun _ hc => isQuiet_of_isNumeric (isNumeric_of_mem_hundredths hc)

/-- What stands between quotes cannot begin a comment. -/
theorem sound_between {lead m tail : String} (hopened : Script.hashAfter false lead.toList = some true)
    (hclosed : Script.hashAfter true tail.toList = some false)
    (hunbroken : '\n' ∉ lead.toList ∧ '\n' ∉ tail.toList) (hquote : '"' ∉ m.toList)
    (hline : '\n' ∉ m.toList) : Sound (lead ++ m ++ tail) where
  closed := by
    rw [String.toList_append, String.toList_append, Script.hashAfter_append,
      Script.hashAfter_append, hopened, Option.bind_some,
      Script.hashAfter_of_not_mem hquote (.inl rfl), Option.bind_some, hclosed]
  unbroken := by simp [hunbroken, hline]

/-- Text that can stand between quotes on one line. -/
structure Quotable (s : String) : Prop where
  quote : '"' ∉ s.toList
  line : '\n' ∉ s.toList

instance (s : String) : Decidable (Quotable s) :=
  decidable_of_iff ('"' ∉ s.toList ∧ '\n' ∉ s.toList) ⟨fun h => ⟨h.1, h.2⟩, fun h => ⟨h.quote, h.line⟩⟩

/-- Texts that put what stands between them into quotes, and leave it apart. -/
structure Frames (lead tail : String) : Prop where
  opened : Script.hashAfter false lead.toList = some true
  closed : Script.hashAfter true tail.toList = some false
  unbroken : '\n' ∉ lead.toList ∧ '\n' ∉ tail.toList
  unmarked : ∀ m ∈ marks, hasText lead m = false ∧ hasText tail m = false
  apart : ∃ c d, c ∈ ['"', '|'] ∧ d ∈ ['"', '|'] ∧ lead.toList.getLast? = some c ∧
    tail.toList.head? = some d

/-- Quiet text at the end of the lead leaves it a lead. -/
theorem frames_behind {first middle tail : String} {c d : Char}
    (hopened : Script.hashAfter false first.toList = some true)
    (hclosed : Script.hashAfter true tail.toList = some false)
    (hlacks : ∀ x ∈ ['#', '\n', 'P'], x ∉ first.toList ∧ x ∉ tail.toList)
    (hmiddle : ∀ x ∈ middle.toList, isQuiet x = true)
    (hlast : middle.toList.getLast? = some c) (hfirst : tail.toList.head? = some d)
    (hc : c ∈ ['"', '|']) (hd : d ∈ ['"', '|']) : Frames (first ++ middle) tail := by
  have hloud : ∀ x ∈ ['#', '\n', 'P'], ¬ isQuiet x = true := by decide
  have hlead : ∀ x ∈ ['#', '\n', 'P'], x ∉ (first ++ middle).toList := by
    intro x hx hmem
    rw [String.toList_append, List.mem_append] at hmem
    exact hmem.elim (hlacks x hx).1 fun hmem => hloud x hx (hmiddle x hmem)
  refine ⟨?_, hclosed, ⟨hlead _ (by decide), (hlacks _ (by decide)).2⟩, fun m hm => ?_, c, d, hc, hd,
    ?_, hfirst⟩
  · have hquote : '"' ∉ middle.toList := fun hmem => absurd (hmiddle _ hmem) (by decide)
    rw [String.toList_append, Script.hashAfter_append, hopened, Option.bind_some,
      Script.hashAfter_of_not_mem hquote (.inl rfl)]
  · have hmark := isMark_of_mem m hm
    exact ⟨hasText_of_not_mem hmark (hlead _ (by decide)) (hlead _ (by decide)),
      hasText_of_not_mem hmark (hlacks _ (by decide)).2 (hlacks _ (by decide)).2⟩
  · rw [String.toList_append, List.getLast?_append, hlast, Option.some_or]

/-- The argument cites a path. -/
def Cites (p : Path) (a : String) : Prop :=
  ∃ lead tail, Frames lead tail ∧ a = lead ++ p.text ++ tail

theorem Cites.sound {p : Path} {a : String} (h : Cites p a) (hp : Quotable p.text) : Sound a := by
  obtain ⟨lead, tail, hframes, rfl⟩ := h
  exact sound_between hframes.opened hframes.closed hframes.unbroken hp.quote hp.line

/-- A mark stands in the argument exactly if it stands in the path. -/
theorem Cites.hasText_eq {p : Path} {a m : String} (h : Cites p a) (hm : m ∈ marks) :
    hasText a m = hasText p.text m := by
  obtain ⟨lead, tail, hframes, rfl⟩ := h
  obtain ⟨c, d, hc, hd, hlast, hfirst⟩ := hframes.apart
  obtain ⟨hlead, htail⟩ := hframes.unmarked m hm
  have hplain : ∀ x ∈ ['"', '|'], x ∉ m.toList := fun x hx =>
    (isMark_of_mem m hm).plain x (by revert x; decide)
  obtain ⟨front, hfront⟩ : ∃ front, lead.toList = front ++ [c] :=
    ⟨_, (List.dropLast_append_getLast? _ hlast).symm⟩
  obtain ⟨back, hback⟩ : ∃ back, tail.toList = d :: back := List.head?_eq_some_iff.1 hfirst
  rw [← Bool.not_eq_true, hasText_iff, hfront] at hlead
  rw [← Bool.not_eq_true, hasText_iff, hback] at htail
  rw [Bool.eq_iff_iff, hasText_iff, hasText_iff, String.toList_append, String.toList_append, hfront,
    hback]
  constructor
  · intro h
    rw [List.append_assoc, List.append_assoc, List.singleton_append] at h
    rcases Text.infix_append_cons (hplain c hc) h with h | h
    · exact absurd (h.trans (List.prefix_append _ _).isInfix) hlead
    · rcases Text.infix_append_cons (hplain d hd) h with h | h
      · exact h
      · exact absurd (h.trans (List.suffix_cons _ _).isInfix) htail
  · intro h
    exact h.trans ⟨_, _, rfl⟩

/-- A path between quotes is cited. -/
theorem cites_quoted (p : Path) : Cites p (quoted p.text) :=
  ⟨"\"", "\"", ⟨by decide, by decide, by decide, by decide, '"', '"', by decide⟩, rfl⟩

/-! ## Calls -/

section call

variable {f : String} {as : List String}

theorem hashAfter_call (hf : Sound f) (has : ∀ a ∈ as, Sound a) :
    Script.hashAfter false (call f as).toList = some false := by
  have hargs : Script.hashAfter false ([',', ' '].intercalate (as.map String.toList)) =
      some false := by
    induction as with
    | nil => rfl
    | cons a rest ih =>
      obtain ⟨ha, hrest⟩ := List.forall_mem_cons.1 has
      cases rest with
      | nil => simpa using ha.closed
      | cons b rest =>
        rw [List.map_cons, List.map_cons, List.intercalate_cons_cons, List.append_assoc,
          Script.hashAfter_append, ha.closed, Option.bind_some]
        exact ih hrest
  rw [toList_call, Script.hashAfter_append, hf.closed, Option.bind_some, ← List.singleton_append,
    Script.hashAfter_append]
  show (Script.hashAfter false (_ ++ [')'])) = _
  rw [Script.hashAfter_append, hargs]
  rfl

theorem unbroken_call (hf : Sound f) (has : ∀ a ∈ as, Sound a) :
    '\n' ∉ (call f as).toList := by
  have hargs : '\n' ∉ [',', ' '].intercalate (as.map String.toList) := by
    induction as with
    | nil => simp
    | cons a rest ih =>
      obtain ⟨ha, hrest⟩ := List.forall_mem_cons.1 has
      cases rest with
      | nil => simpa using ha.unbroken
      | cons b rest =>
        rw [List.map_cons, List.map_cons, List.intercalate_cons_cons]
        simpa [ha.unbroken] using ih hrest
  rw [toList_call]
  simpa [hargs] using hf.unbroken

/-- A mark in a call stands in its head or in one of its arguments. -/
theorem hasText_call {m : String} (hm : m ∈ marks) (h : hasText (call f as) m = true) :
    hasText (f ++ "(") m = true ∨ ∃ a ∈ as, hasText a m = true := by
  have hmark := isMark_of_mem m hm
  have hargs : ∀ bs : List String, m.toList <:+: [',', ' '].intercalate (bs.map String.toList) →
      ∃ a ∈ bs, hasText a m = true := by
    intro bs hbs
    induction bs with
    | nil =>
      rw [List.map_nil, List.intercalate_nil, List.infix_nil] at hbs
      have := hmark.begins
      simp [hbs] at this
    | cons a rest ih =>
      cases rest with
      | nil => exact ⟨a, List.mem_cons_self, hasText_iff.2 (by simpa using hbs)⟩
      | cons b rest =>
        rw [List.map_cons, List.map_cons, List.intercalate_cons_cons, List.append_assoc] at hbs
        rcases Text.infix_append_cons (hmark.plain ',' (by decide)) hbs with hbs | hbs
        · exact ⟨a, List.mem_cons_self, hasText_iff.2 hbs⟩
        · obtain ⟨c, hc, hcm⟩ := ih (by
            rcases List.infix_cons_iff.1 hbs with hbs | hbs
            · -- no mark begins with a blank
              obtain ⟨back, hback⟩ := hbs
              rcases hmark.begins with hhead | hhead <;>
                · obtain ⟨r, hr⟩ := List.head?_eq_some_iff.1 hhead
                  simp [hr] at hback
            · exact hbs)
          exact ⟨c, List.mem_cons_of_mem _ hc, hcm⟩
  rw [hasText_iff, toList_call] at h
  rcases Text.infix_break hmark.opening h with h | h
  · exact .inl (hasText_iff.2 (by simpa using h))
  · exact .inr (hargs as (Text.infix_concat (hmark.plain ')' (by decide)) h))

theorem hasText_call_of_mem {a m : String} (ha : a ∈ as) (h : hasText a m = true) :
    hasText (call f as) m = true := by
  rw [hasText_iff] at h ⊢
  have hargs : a.toList <:+: [',', ' '].intercalate (as.map String.toList) :=
    Text.infix_intercalate (List.mem_map_of_mem ha)
  rw [toList_call]
  exact h.trans (hargs.trans ⟨f.toList ++ ['('], [')'], by simp⟩)

end call

end Restoration
