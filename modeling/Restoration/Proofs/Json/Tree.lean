import Restoration.Json.Tree
import Restoration.Proofs.Json.Number
import Restoration.Proofs.Json.Quoted

/-!
# Trees come back

The text of a tree is read as this tree, and to its end, if every leaf and every key of the tree is
found whole where it stands:

    parse t.pretty = (t, some [])        for every whole t
-/

namespace Restoration.Json

variable {c : Char} {d depth fuel : Nat} {first : Bool} {j item value : Json} {items : List Json}
  {members : List (List Char × Json)} {key k l r t u w : List Char}

/-! ## Whole trees -/

/-- What may stand behind a value in the text of a tree. -/
def Follows (r : List Char) : Prop := ∀ c ∈ r.head?, c = ',' ∨ c = '\n'

/-- A string as it stands in a text, with its quotes. -/
def IsString (l : List Char) : Prop := ∃ k, l = '"' :: k ∧ ∀ r, Quoted.scan (k ++ r) = .ok (k, r)

/-- A tree without a break whose leaves are what they are said to be. -/
inductive Whole : Json → Prop
  | scalar {l : List Char} (h : ∀ r, Follows r → scanLeaf (l ++ r) = .ok (scalar l, r)) :
    Whole (scalar l)
  | quoted {l : List Char} (h : IsString l) : Whole (quoted l)
  | array {items : List Json} (h : ∀ item ∈ items, Whole item) : Whole (array items none)
  | object {members : List (List Char × Json)} (hkeys : ∀ m ∈ members, IsString m.1)
    (h : ∀ m ∈ members, Whole m.2) : Whole (object members none)

/-! ## White space -/

theorem skip_append (hw : ∀ c ∈ w, isSpace c = true) (t : List Char) : skip (w ++ t) = skip t :=
  List.dropWhile_append_of_pos hw

theorem skip_cons (hc : isSpace c = false) (t : List Char) : skip (c :: t) = c :: t :=
  List.dropWhile_cons_of_neg (by simp [hc])

theorem isSpace_newline (hc : c ∈ newline depth) : isSpace c = true := by
  rcases List.mem_cons.1 hc with rfl | hc
  · decide
  · rw [(List.mem_replicate.1 hc).2]
    decide

theorem skip_newline (depth : Nat) (t : List Char) : skip (newline depth ++ t) = skip t :=
  skip_append (fun _ => isSpace_newline) t

theorem takeValue_skip (h : skip t = skip u) : takeValue fuel t = takeValue fuel u := by
  cases fuel with
  | zero => rw [takeValue, takeValue]
  | succ fuel => rw [takeValue, takeValue, h]

theorem follows_newline (depth : Nat) (t : List Char) : Follows (newline depth ++ t) := by
  rintro c ⟨⟩
  exact .inr rfl

theorem follows_comma (t : List Char) : Follows (',' :: t) := by
  rintro c ⟨⟩
  exact .inl rfl

theorem Follows.stops (h : Follows r) : Number.Stops r := by
  intro c hc
  rcases h c hc with rfl | rfl <;> decide

/-! ## Leaves -/

/-- What starts a leaf starts nothing else. -/
theorem first_of_scanLeaf {p : Json × List Char} (h : scanLeaf (c :: t) = .ok p) :
    isSpace c = false ∧ c ≠ '[' ∧ c ≠ ']' ∧ c ≠ openBrace := by
  have hother : ¬ (word? c = none ∧ c ≠ '"' ∧ (c = '-' || Numeral.isDigit c) = false) := by
    rintro ⟨hword, hquote, hnumber⟩
    simp [scanLeaf, hword, hquote, hnumber] at h
  refine ⟨?_, ?_, ?_, ?_⟩
  · rw [← Bool.not_eq_true]
    intro hc
    simp only [isSpace, Bool.or_eq_true, decide_eq_true_eq] at hc
    rcases hc with ((rfl | rfl) | rfl) | rfl <;> exact hother (by decide)
  all_goals
    rintro rfl
    exact hother (by decide)

/-- A leaf is not empty. -/
theorem exists_cons_of_leaf (h : ∀ r, Follows r → scanLeaf (l ++ r) = .ok (scalar l, r)) :
    ∃ c u, l = c :: u := by
  cases l with
  | nil => cases h [] fun _ hc => nomatch hc
  | cons c u => exact ⟨c, u, rfl⟩

theorem scanLeaf_quoted (h : ∀ r, Quoted.scan (k ++ r) = .ok (k, r)) (r : List Char) :
    scanLeaf ('"' :: k ++ r) = .ok (quoted ('"' :: k), r) := by
  simp [scanLeaf, word?, h, Except.map]

theorem takeValue_leaf (hc : isSpace c = false) (hlist : c ≠ '[') (hobject : c ≠ openBrace)
    (h : scanLeaf (c :: t) = .ok (j, r)) : takeValue (fuel + 1) (c :: t) = (j, some r) := by
  simp [takeValue, skip_cons hc, hlist, hobject, h]

/-- A whole tree starts with a mark of its own. -/
theorem Whole.start (h : Whole j) (depth : Nat) :
    ∃ c u, prettyAt depth j = c :: u ∧ isSpace c = false ∧ c ≠ ']' := by
  cases h with
  | scalar h =>
    obtain ⟨c, u, rfl⟩ := exists_cons_of_leaf h
    obtain ⟨hspace, -, hbracket, -⟩ := first_of_scanLeaf (h [] fun _ hc => nomatch hc)
    exact ⟨c, u, by rw [prettyAt], hspace, hbracket⟩
  | quoted h =>
    obtain ⟨k, rfl, -⟩ := h
    exact ⟨'"', k, by rw [prettyAt], by decide, by decide⟩
  | @array items h =>
    cases items with
    | nil => exact ⟨_, _, by rw [prettyAt], by decide, by decide⟩
    | cons item items => exact ⟨'[', _, by rw [prettyAt]; rfl, by decide, by decide⟩
  | @object members hkeys h =>
    cases members with
    | nil => exact ⟨_, _, by rw [prettyAt], by decide, by decide⟩
    | cons m members => exact ⟨openBrace, _, by rw [prettyAt]; rfl, by decide, by decide⟩

/-! ## Lists and objects -/

/-- The text ahead of an item or a member. -/
def lead (first : Bool) (depth : Nat) : List Char := (if first then [] else [',']) ++ newline depth

theorem takeValue_list (h : takeItems fuel true t = (items, none, some r)) :
    takeValue (fuel + 1) ('[' :: t) = (array items none, some r) := by
  simp [takeValue, skip_cons (c := '[') (by decide), h]

theorem takeValue_object (h : takeMembers fuel true t = (members, none, some r)) :
    takeValue (fuel + 1) (openBrace :: t) = (object members none, some r) := by
  have hbrace : openBrace ≠ '[' := by decide
  rw [takeValue, skip_cons (by decide)]
  simp [hbrace, h]

theorem takeItems_end (depth : Nat) (r : List Char) :
    takeItems (fuel + 1) first (newline depth ++ ']' :: r) = ([], none, some r) := by
  simp [takeItems, skip_newline, skip_cons (c := ']') (by decide)]

theorem takeItems_step (first : Bool) (hitem : Whole item)
    (hvalue : takeValue fuel (prettyAt depth item ++ r) = (item, some r))
    (hrest : takeItems fuel false r = (items, none, some u)) :
    takeItems (fuel + 1) first (lead first depth ++ (prettyAt depth item ++ r)) =
      (item :: items, none, some u) := by
  obtain ⟨c, v, hstart, hspace, hbracket⟩ := hitem.start depth
  rw [hstart, List.cons_append] at hvalue ⊢
  cases first <;>
    simp [takeItems, lead, skip_newline, skip_cons (c := ',') (by decide), skip_cons hspace, hbracket,
      hvalue, hrest]

theorem takeMembers_end (depth : Nat) (r : List Char) :
    takeMembers (fuel + 1) first (newline depth ++ closeBrace :: r) = ([], none, some r) := by
  simp [takeMembers, skip_newline, skip_cons (c := closeBrace) (by decide)]

theorem takeMembers_step (first : Bool) (hkey : IsString key)
    (hvalue : takeValue fuel (prettyAt depth value ++ r) = (value, some r))
    (hrest : takeMembers fuel false r = (members, none, some u)) :
    takeMembers (fuel + 1) first
        (lead first depth ++ (key ++ ':' :: ' ' :: (prettyAt depth value ++ r))) =
      ((key, value) :: members, none, some u) := by
  obtain ⟨k, rfl, hkey⟩ := hkey
  have hbehind : takeValue fuel (' ' :: (prettyAt depth value ++ r)) = (value, some r) := by
    rw [← hvalue]
    exact takeValue_skip (List.dropWhile_cons_of_pos (by decide))
  cases first <;>
    simp [takeMembers, lead, skip_newline, skip_cons (c := ',') (by decide),
      skip_cons (c := '"') (by decide), skip_cons (c := ':') (by decide), closeBrace, hkey, hbehind,
      hrest]

/-! ## Whole texts -/

/-- The tree is taken from its text if there is fuel for every character. -/
def Taken (j : Json) : Prop := ∀ (fuel depth : Nat) (r : List Char), Follows r →
  (prettyAt depth j).length < fuel → takeValue fuel (prettyAt depth j ++ r) = (j, some r)

theorem follows_items (depth d : Nat) (items : List Json) (t : List Char) :
    Follows (prettyItems depth items ++ (newline d ++ t)) := by
  cases items with
  | nil => exact follows_newline d t
  | cons item items => exact follows_comma _

theorem follows_members (depth d : Nat) (members : List (List Char × Json)) (t : List Char) :
    Follows (prettyMembers depth members ++ (newline d ++ t)) := by
  cases members with
  | nil => exact follows_newline d t
  | cons m members => exact follows_comma _

theorem takeItems_prettyItems (depth d : Nat) (r : List Char)
    (h : ∀ item ∈ items, Whole item ∧ Taken item)
    (hfuel : (prettyItems depth items).length ≤ fuel) :
    takeItems (fuel + 1) false (prettyItems depth items ++ (newline d ++ ']' :: r)) =
      (items, none, some r) := by
  induction items generalizing fuel with
  | nil => exact takeItems_end d r
  | cons item items ih =>
    simp only [prettyItems, List.cons_append, List.length_cons, List.length_append] at hfuel
    obtain ⟨fuel, rfl⟩ := Nat.exists_eq_succ_of_ne_zero (n := fuel) (by omega)
    obtain ⟨hwhole, htaken⟩ := h item List.mem_cons_self
    have hitem := htaken (fuel + 1) depth _ (follows_items depth d items (']' :: r)) (by omega)
    have hrest := ih (fun i hi => h i (List.mem_cons_of_mem _ hi))
      (show (prettyItems depth items).length ≤ fuel by omega)
    simpa [prettyItems, lead] using takeItems_step false hwhole hitem hrest

theorem takeMembers_prettyMembers (depth d : Nat) (r : List Char)
    (h : ∀ m ∈ members, IsString m.1 ∧ Taken m.2)
    (hfuel : (prettyMembers depth members).length ≤ fuel) :
    takeMembers (fuel + 1) false (prettyMembers depth members ++ (newline d ++ closeBrace :: r)) =
      (members, none, some r) := by
  induction members generalizing fuel with
  | nil => exact takeMembers_end d r
  | cons m members ih =>
    simp only [prettyMembers, List.cons_append, List.length_cons, List.length_append] at hfuel
    obtain ⟨fuel, rfl⟩ := Nat.exists_eq_succ_of_ne_zero (n := fuel) (by omega)
    obtain ⟨hkey, htaken⟩ := h m List.mem_cons_self
    have hvalue := htaken (fuel + 1) depth _ (follows_members depth d members (closeBrace :: r))
      (by omega)
    have hrest := ih (fun m hm => h m (List.mem_cons_of_mem _ hm))
      (show (prettyMembers depth members).length ≤ fuel by omega)
    simpa [prettyMembers, lead] using takeMembers_step false hkey hvalue hrest

theorem taken_scalar (h : ∀ r, Follows r → scanLeaf (l ++ r) = .ok (scalar l, r)) :
    Taken (scalar l) := by
  intro fuel depth r hr hfuel
  obtain ⟨fuel, rfl⟩ := Nat.exists_eq_succ_of_ne_zero (Nat.ne_of_gt (Nat.zero_lt_of_lt hfuel))
  rw [prettyAt]
  have hleaf := h r hr
  obtain ⟨c, u, rfl⟩ := exists_cons_of_leaf h
  obtain ⟨hspace, hlist, -, hobject⟩ := first_of_scanLeaf hleaf
  exact takeValue_leaf hspace hlist hobject hleaf

theorem taken_quoted (h : IsString l) : Taken (quoted l) := by
  intro fuel depth r _ hfuel
  obtain ⟨fuel, rfl⟩ := Nat.exists_eq_succ_of_ne_zero (Nat.ne_of_gt (Nat.zero_lt_of_lt hfuel))
  obtain ⟨k, rfl, hk⟩ := h
  rw [prettyAt]
  exact takeValue_leaf (by decide) (by decide) (by decide) (scanLeaf_quoted hk r)

theorem taken_array (h : ∀ item ∈ items, Whole item ∧ Taken item) : Taken (array items none) := by
  intro fuel depth r _ hfuel
  cases items with
  | nil =>
    have hfuel : 2 < fuel := by simpa [prettyAt] using hfuel
    obtain ⟨fuel, rfl⟩ := Nat.exists_eq_add_of_le' (Nat.le_of_lt hfuel)
    rw [prettyAt]
    exact takeValue_list (by simp [takeItems, skip_cons (c := ']') (by decide)])
  | cons item items =>
    simp only [prettyAt, List.cons_append, List.length_cons, List.length_append, newline] at hfuel
    obtain ⟨fuel, rfl⟩ := Nat.exists_eq_add_of_le' (m := 3) (n := fuel) (by omega)
    obtain ⟨hwhole, htaken⟩ := h item List.mem_cons_self
    have hitem := htaken (fuel + 1) (depth + 1) _ (follows_items (depth + 1) depth items (']' :: r))
      (by omega)
    have hrest := takeItems_prettyItems (depth + 1) depth r
      (fun i hi => h i (List.mem_cons_of_mem _ hi))
      (show (prettyItems (depth + 1) items).length ≤ fuel by omega)
    have hall := takeValue_list (takeItems_step true hwhole hitem hrest)
    simpa [prettyAt, lead] using hall

theorem taken_object (h : ∀ m ∈ members, IsString m.1 ∧ Taken m.2) :
    Taken (object members none) := by
  intro fuel depth r _ hfuel
  cases members with
  | nil =>
    have hfuel : 2 < fuel := by simpa [prettyAt] using hfuel
    obtain ⟨fuel, rfl⟩ := Nat.exists_eq_add_of_le' (Nat.le_of_lt hfuel)
    rw [prettyAt]
    exact takeValue_object (by simp [takeMembers, skip_cons (c := closeBrace) (by decide)])
  | cons m members =>
    simp only [prettyAt, List.cons_append, List.length_cons, List.length_append, newline] at hfuel
    obtain ⟨fuel, rfl⟩ := Nat.exists_eq_add_of_le' (m := 3) (n := fuel) (by omega)
    obtain ⟨hkey, htaken⟩ := h m List.mem_cons_self
    have hvalue := htaken (fuel + 1) (depth + 1) _
      (follows_members (depth + 1) depth members (closeBrace :: r)) (by omega)
    have hrest := takeMembers_prettyMembers (depth + 1) depth r
      (fun m hm => h m (List.mem_cons_of_mem _ hm))
      (show (prettyMembers (depth + 1) members).length ≤ fuel by omega)
    have hall := takeValue_object (takeMembers_step true hkey hvalue hrest)
    simpa [prettyAt, lead] using hall

/-- **Every whole tree is taken from its text**, whatever follows. The induction is on the tree. -/
theorem Whole.taken (h : Whole j) : Taken j := by
  induction h with
  | scalar h => exact taken_scalar h
  | quoted h => exact taken_quoted h
  | array h ih => exact taken_array fun item hitem => ⟨h item hitem, ih item hitem⟩
  | object hkeys h ih => exact taken_object fun m hm => ⟨hkeys m hm, ih m hm⟩

theorem parse_pretty (h : Whole j) : parse j.pretty.toList = (j, some []) := by
  have hfuel : (prettyAt 0 j).length < (prettyAt 0 j).length + 1 := Nat.lt_succ_self _
  have := h.taken _ 0 [] (fun _ hc => nomatch hc) hfuel
  simpa [parse, pretty] using this

end Restoration.Json
