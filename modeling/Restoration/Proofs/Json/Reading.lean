import Restoration.Job.Record
import Restoration.Proofs.Json.Float
import Restoration.Proofs.Json.Tree

/-!
# Values come back

A tree that is built from a value is whole, and the value is read from it. So a record comes back if
each of its fields does, whatever the others are.

    Says j read a   →   readText read j.pretty = ok a
-/

namespace Restoration.Json

variable {α : Type} {a : α} {j : Json} {l : List Char} {read : Reader α} {rules : List Rule}
  {members : List (String × Json)}

/-- A whole tree that a value is read from. -/
structure Says (j : Json) (read : Reader α) (a : α) : Prop where
  whole : j.Whole
  reads : read j = .ok a

/-- A tree that also says that there is a value. -/
structure Gives (j : Json) (read : Reader α) (a : α) : Prop extends Says j read a where
  present : j.head.head? ≠ some 'n'

theorem Gives.map {β : Type} (h : Gives j read a) (f : α → β) :
    Gives j (fun j => (read j).map f) (f a) :=
  ⟨⟨h.whole, by rw [h.reads]; rfl⟩, h.present⟩

theorem Says.readText (h : Says j read a) : readText read j.pretty = .ok a := by
  rw [Json.readText, parse_pretty h.whole]
  simp only [h.reads, bind, Except.bind]
  rfl

/-- What is read from a text is read from the tree that it was written from. -/
theorem reads_of_readText (hj : j.Whole) (h : readText read j.pretty = .ok a) : read j = .ok a := by
  rw [Json.readText, parse_pretty hj] at h
  simp only [bind, Except.bind] at h
  split at h
  · cases h
  · rename_i b hb
    have : b = a := by simpa [skip, pure, Except.pure] using h
    rw [hb, this]

/-! ## Plain values -/

theorem start_of_head {c : Char} {r : List Char} (h : j.head = c :: r) : j.start = .ok (c, r) := by
  unfold start
  split
  · cases h
  · rw [h]

theorem Whole.start_ok (h : j.Whole) : ∃ c r, j.head = c :: r ∧ j.start = .ok (c, r) := by
  obtain ⟨c, r, hhead⟩ : ∃ c r, j.head = c :: r := by
    cases h with
    | scalar h => exact exists_cons_of_leaf h
    | quoted h =>
      obtain ⟨k, rfl, -⟩ := h
      exact ⟨'"', k, rfl⟩
    | array => exact ⟨'[', [], rfl⟩
    | object => exact ⟨openBrace, [], rfl⟩
  exact ⟨c, r, hhead, start_of_head hhead⟩

theorem whole_null : null.Whole :=
  .scalar fun r _ => by simp [scanLeaf, word?, scanWord, Except.map]

theorem gives_bool (b : Bool) : Gives (ofBool b) bool b where
  whole := .scalar fun r _ => by cases b <;> simp [scanLeaf, word?, scanWord, Except.map]
  reads := by cases b <;> rfl
  present := by cases b <;> decide

/-! ## Numbers -/

theorem Number.Spelled.head (h : Number.Spelled l) :
    ∃ c r, l = c :: r ∧ (c = '-' ∨ Numeral.isDigit c = true) := by
  cases h with
  | positive h =>
    obtain ⟨c, r, rfl, hc⟩ := h.head
    exact ⟨c, r, rfl, .inr hc⟩
  | @negative t h => exact ⟨'-', t, rfl, .inl rfl⟩

/-- A number that can be read is a leaf that is found whole. -/
theorem gives_number {n : Number} (h : Number.Spelled l) (hread : Number.read l = .ok n)
    (expected : String) : Gives (scalar l) (number expected) n := by
  obtain ⟨c, r, rfl, hc⟩ := h.head
  have hnumber : (c = '-' || Numeral.isDigit c) = true := by simpa using hc
  have hword : word? c = none := by
    unfold word?
    split
    case h_4 => rfl
    all_goals exact absurd hc (by decide)
  have hquote : c ≠ '"' := by
    rintro rfl
    exact absurd hc (by decide)
  refine ⟨⟨.scalar fun u hu => ?_, ?_⟩, ?_⟩
  · have hscan := Number.scan_of_read h hread hu.stops
    rw [List.cons_append] at hscan ⊢
    simp only [scanLeaf, hword, if_neg hquote, if_pos hnumber, hscan]
    rfl
  · simp only [number, start_of_head (j := scalar (c :: r)) rfl, bind, Except.bind, if_pos hnumber,
      hread]
  · rintro ⟨⟩
    cases hword

theorem gives_nat {n : Nat} {bound : Nat} (h : n < bound) (hbound : bound ≤ Numeral.word)
    (expected : String) : Gives (ofNat n) (natural expected bound) n := by
  have hnumber := gives_number (Number.spelled_digits n)
    (Number.read_digits (Nat.lt_of_lt_of_le h hbound)) expected
  refine ⟨⟨hnumber.whole, ?_⟩, hnumber.present⟩
  simp only [natural, ofNat, hnumber.reads, bind, Except.bind, if_pos h]

theorem gives_uint8 (n : UInt8) : Gives (ofUInt8 n) uint8 n := by
  have h := (gives_nat n.toNat_lt (show UInt8.size ≤ Numeral.word by decide) "u8").map Nat.toUInt8
  rwa [Nat.toUInt8, UInt8.ofNat_toNat] at h

theorem gives_uint32 (n : UInt32) : Gives (ofUInt32 n) uint32 n := by
  have h :=
    (gives_nat n.toNat_lt (show UInt32.size ≤ Numeral.word by decide) "u32").map Nat.toUInt32
  rwa [Nat.toUInt32, UInt32.ofNat_toNat] at h

theorem gives_count {n : Nat} (h : n < Numeral.word) : Gives (ofNat n) count n :=
  gives_nat h (Nat.le_refl _) "usize"

/-- The float has a text, and the text is read as this very float. It has none unless it is finite;
where it has one, it is read again but for its last bit, which may be missed. -/
def ReadsBack (x : Float) : Prop :=
  ∃ s, Decimal.filed? x = some s ∧ Number.read s.toList = .ok (.float x)

deriving instance DecidableEq for Number

theorem readsBack_iff {x : Float} : ReadsBack x ↔
    ((Decimal.filed? x).bind fun s => (Number.read s.toList).toOption) = some (.float x) := by
  rw [Option.bind_eq_some_iff, ReadsBack]
  refine exists_congr fun s => and_congr_right fun _ => ?_
  cases Number.read s.toList <;> simp [Except.toOption]

instance : DecidablePred ReadsBack := fun _ => decidable_of_iff _ readsBack_iff.symm

example : ReadsBack 29.97 ∧ ¬ ReadsBack (271.0 / 3.0) := by decide +kernel

/-- What a float comes back as, if it has a text. -/
def reread? (x : Float) : Option Float :=
  (Decimal.filed? x).bind fun s =>
    match Number.read s.toList with
    | .ok (.float y) => some y
    | _ => none

theorem reread?_eq_some {x y : Float} : reread? x = some y ↔
    ∃ s, Decimal.filed? x = some s ∧ Number.read s.toList = .ok (.float y) := by
  rw [reread?, Option.bind_eq_some_iff]
  refine exists_congr fun s => and_congr_right fun hs => ?_
  obtain ⟨z, hz⟩ := Number.read_filed hs
  simp [hz]

theorem readsBack_iff_reread {x : Float} : ReadsBack x ↔ reread? x = some x := reread?_eq_some.symm

/-- Exactly the finite floats come back as some float. -/
theorem isSome_reread? (x : Float) : (reread? x).isSome = true ↔ x.isFinite = true := by
  rw [← Decimal.isSome_filed?, Option.isSome_iff_exists, Option.isSome_iff_exists]
  constructor
  · rintro ⟨y, hy⟩
    obtain ⟨s, hs, -⟩ := reread?_eq_some.1 hy
    exact ⟨s, hs⟩
  · rintro ⟨s, hs⟩
    obtain ⟨y, hy⟩ := Number.read_filed hs
    exact ⟨y, reread?_eq_some.2 ⟨s, hs, hy⟩⟩

theorem gives_float {x y : Float} (h : reread? x = some y) : Gives (ofFloat x) float y := by
  obtain ⟨s, hs, hread⟩ := reread?_eq_some.1 h
  have hnumber := gives_number (Number.spelled_filed hs) hread "f64"
  have htree : ofFloat x = scalar s.toList := by rw [ofFloat, hs]
  rw [htree]
  refine ⟨⟨hnumber.whole, ?_⟩, hnumber.present⟩
  simp only [float, hnumber.reads, bind, Except.bind]
  rfl

/-- A float that does not come back is filed as nothing. -/
theorem ofFloat_of_lost {x : Float} (h : reread? x = none) : ofFloat x = null := by
  cases hs : Decimal.filed? x with
  | none => rw [ofFloat, hs]
  | some s =>
    obtain ⟨y, hy⟩ := Number.read_filed hs
    rw [reread?_eq_some.2 ⟨s, hs, hy⟩] at h
    cases h

/-! ## Strings and choices -/

theorem isString_encode (s : List Char) : IsString ('"' :: Quoted.encode s ++ ['"']) := by
  refine ⟨Quoted.encode s ++ ['"'], rfl, fun r => ?_⟩
  rw [List.append_assoc]
  exact Quoted.scan_encode s r

theorem start_ofString (s : String) :
    (ofString s).start = .ok ('"', Quoted.encode s.toList ++ ['"']) := start_of_head rfl

theorem present_ofString (s : String) : (ofString s).head.head? ≠ some 'n' := by
  rintro ⟨⟩

theorem gives_string (s expected : String) : Gives (ofString s) (stringAs expected) s where
  whole := .quoted (isString_encode s.toList)
  reads := by
    rw [stringAs, start_ofString]
    simp only [bind, Except.bind, if_true, Quoted.read_encode, Except.map, String.ofList_toList]
  present := present_ofString s

theorem gives_path (p : Path) : Gives (ofPath p) readPath p :=
  (gives_string p.text "path string").map Path.mk

theorem knownName_encode {known : List String} {name : String} (h : name ∈ known) :
    knownName known (Quoted.encode name.toList ++ ['"']) = .ok name := by
  rw [knownName, Quoted.read_encode]
  simp [bind, Except.bind, h, pure, Except.pure]

/-- A choice comes back if no two of its values have one name, nor is any of them left out. -/
theorem gives_choice [Choice α] (h : Choice.ofName? (Choice.name a) = some a) :
    Gives (ofChoice a) readChoice a where
  whole := .quoted (isString_encode _)
  reads := by
    have hname : Choice.name a ∈ Choice.names α := List.mem_map_of_mem (List.mem_of_find?_eq_some h)
    have hstart := start_ofString (Choice.name a)
    rw [ofString] at hstart
    simp only [readChoice, choice, ofChoice, ofString, hstart, bind, Except.bind, if_true,
      knownName_encode hname, namedChoice, h]
  present := present_ofString _

theorem whole_ofMembers (h : ∀ m ∈ members, m.2.Whole) : (ofMembers members).Whole := by
  refine .object ?_ ?_
  · intro m hm
    obtain ⟨m, -, rfl⟩ := List.mem_map.1 hm
    exact isString_encode m.1.toList
  · intro m hm
    obtain ⟨member, hmember, rfl⟩ := List.mem_map.1 hm
    exact h member hmember

theorem whole_of_ofMembers (h : (ofMembers members).Whole) : ∀ m ∈ members, m.2.Whole := by
  intro m hm
  cases h with
  | object _ hvalues => exact hvalues _ (List.mem_map_of_mem hm)

theorem present_ofMembers (members : List (String × Json)) :
    (ofMembers members).head.head? ≠ some 'n' := by
  rintro ⟨⟩

/-- A choice with a value under its name. -/
theorem gives_named {known : List String} {unnamed : String → Except Fault α}
    {valued : String → Reader α} {name : String} (hname : name ∈ known)
    (h : Says j (valued name) a) : Gives (ofMembers [(name, j)]) (choice known unnamed valued) a where
  whole := whole_ofMembers (by simpa using h.whole)
  reads := by
    simp only [choice, ofMembers, List.map_cons, List.map_nil, List.cons_append, List.drop_one,
      List.tail_cons, knownName_encode hname, h.reads, bind, Except.bind]
    rfl
  present := present_ofMembers _

/-! ## Values that may be missing -/

theorem Gives.says_some (h : Gives j read a) : Says j (optional read) (some a) := by
  obtain ⟨c, r, hhead, hstart⟩ := h.whole.start_ok
  have hc : c ≠ 'n' := by
    rintro rfl
    exact h.present (by rw [hhead]; rfl)
  refine ⟨h.whole, ?_⟩
  simp only [optional, hstart, bind, Except.bind, if_neg hc, h.reads]
  rfl

theorem says_option {write : α → Json} {o : Option α}
    (h : ∀ a ∈ o, Gives (write a) read a) : Says (ofOption write o) (optional read) o := by
  cases o with
  | none => exact ⟨whole_null, rfl⟩
  | some a => exact (h a rfl).says_some

/-- A float that may be missing is missing if it does not come back. -/
theorem says_float (o : Option Float) : Says (ofOption ofFloat o) (optional float) (o.bind reread?) := by
  cases o with
  | none => exact ⟨whole_null, rfl⟩
  | some x =>
    rw [Option.bind_some]
    cases hx : reread? x with
    | none =>
      rw [ofOption, ofFloat_of_lost hx]
      exact ⟨whole_null, rfl⟩
    | some y => exact (gives_float hx).says_some

/-! ## Records -/

/-- The members say what the fields of the rules ask for, in order. -/
inductive Covers : List Rule → List (String × Json) → Prop
  | nil : Covers [] []
  | cons {α : Type} (f : RecordField α) {a : α} {j : Json} {rules : List Rule}
    {members : List (String × Json)} (h : Says j f.read a) (hrest : Covers rules members) :
    Covers (f.rule :: rules) ((f.name, j) :: members)

namespace Covers

theorem names_eq (h : Covers rules members) : members.map Prod.fst = rules.map Rule.name := by
  induction h with
  | nil => rfl
  | cons f _ _ ih => rw [List.map_cons, List.map_cons, ih, RecordField.rule]

theorem whole (h : Covers rules members) : (ofMembers members).Whole := by
  refine whole_ofMembers ?_
  induction h with
  | nil => exact fun _ hm => nomatch hm
  | cons f hvalue _ ih => exact List.forall_mem_cons.2 ⟨hvalue.whole, ih⟩

/-- Each member meets its rule. -/
theorem meets (h : Covers rules members) :
    ∀ m ∈ members, ∃ rule ∈ rules, rule.name = m.1 ∧ rule.check m.2 = .ok () := by
  induction h with
  | nil => exact fun _ hm => nomatch hm
  | cons f hvalue _ ih =>
    refine List.forall_mem_cons.2 ⟨⟨f.rule, List.mem_cons_self, rfl, ?_⟩, fun m hm => ?_⟩
    · simp only [RecordField.rule, hvalue.reads]
      rfl
    · obtain ⟨rule, hrule, hmeets⟩ := ih m hm
      exact ⟨rule, List.mem_cons_of_mem _ hrule, hmeets⟩

end Covers

theorem find?_rule (hnodup : (rules.map Rule.name).Nodup) {rule : Rule} (h : rule ∈ rules) :
    rules.find? (·.name = rule.name) = some rule := by
  induction rules with
  | nil => cases h
  | cons first rules ih =>
    obtain ⟨hfirst, hrest⟩ := List.nodup_cons.1 hnodup
    rcases List.mem_cons.1 h with rfl | h
    · simp
    · have hne : first.name ≠ rule.name := fun heq => hfirst (heq ▸ List.mem_map_of_mem h)
      rw [List.find?_cons_of_neg (by simpa using hne), ih hrest h]

theorem lookup_member (hnodup : (members.map Prod.fst).Nodup) {name : String}
    (h : (name, j) ∈ members) : members.lookup name = some j := by
  induction members with
  | nil => cases h
  | cons m members ih =>
    obtain ⟨hm, hrest⟩ := List.nodup_cons.1 hnodup
    rcases List.mem_cons.1 h with rfl | h
    · exact List.lookup_cons_self
    · have hne : name ≠ m.1 := fun heq => hm (heq ▸ List.mem_map_of_mem h)
      rw [List.lookup_cons, beq_eq_false_iff_ne.2 hne]
      exact ih hrest h

/-- Members that meet their rules pass, if no name is there twice. -/
theorem checkMembers_ok (seen : Fields) (hnodup : (rules.map Rule.name).Nodup)
    (hnames : ((seen ++ members).map Prod.fst).Nodup)
    (h : ∀ m ∈ members, ∃ rule ∈ rules, rule.name = m.1 ∧ rule.check m.2 = .ok ()) :
    checkMembers rules seen
        (members.map fun (k, v) => ('"' :: Quoted.encode k.toList ++ ['"'], v)) =
      .ok (seen ++ members) := by
  induction members generalizing seen with
  | nil => simp [checkMembers]
  | cons m members ih =>
    obtain ⟨rule, hrule, hname, hcheck⟩ := h m List.mem_cons_self
    have hfound : rules.find? (·.name = m.1) = some rule := hname ▸ find?_rule hnodup hrule
    have hunseen : seen.lookup m.1 = none := by
      rw [List.map_append, List.nodup_append] at hnames
      refine List.lookup_eq_none_iff.2 fun s hs => bne_iff_ne.2 fun heq => ?_
      exact hnames.2.2 _ (List.mem_map_of_mem hs) _ (List.mem_map_of_mem List.mem_cons_self) heq.symm
    have hrest := ih (seen ++ [m]) (by simpa using hnames)
      fun m hm => h m (List.mem_cons_of_mem _ hm)
    simp only [List.map_cons, checkMembers, List.cons_append, List.drop_one, List.tail_cons,
      Quoted.read_encode, bind, Except.bind, String.ofList_toList, hfound, hunseen, hcheck]
    simpa using hrest

/-- A member that passes meets its rule, if it has one, and the others pass behind it. -/
theorem of_checkMembers_cons {seen fields : Fields} {name : String} {rest : List (List Char × Json)}
    (h : checkMembers rules seen (('"' :: Quoted.encode name.toList ++ ['"'], j) :: rest) = .ok fields) :
    (∀ rule, rules.find? (·.name = name) = some rule → rule.check j = .ok ()) ∧
      ∃ seen', checkMembers rules seen' rest = .ok fields := by
  simp only [checkMembers, List.cons_append, List.drop_one, List.tail_cons, Quoted.read_encode, bind,
    Except.bind, String.ofList_toList] at h
  cases hrule : rules.find? (·.name = name) with
  | none =>
    simp only [hrule] at h
    split at h
    · cases h
    · exact ⟨nofun, seen, h⟩
  | some rule =>
    simp only [hrule] at h
    split at h
    · cases h
    · split at h
      · cases h
      · rename_i hcheck
        refine ⟨fun rule' hrule' => ?_, _, h⟩
        cases hrule'
        exact hcheck

/-- Members that pass meet their rules. -/
theorem meets_of_checkMembers {seen fields : Fields}
    (h : checkMembers rules seen
      (members.map fun (k, v) => ('"' :: Quoted.encode k.toList ++ ['"'], v)) = .ok fields) :
    ∀ m ∈ members, ∀ rule, rules.find? (·.name = m.1) = some rule → rule.check m.2 = .ok () := by
  induction members generalizing seen with
  | nil => exact fun _ hm => nomatch hm
  | cons m members ih =>
    obtain ⟨hmeets, seen', hrest⟩ := of_checkMembers_cons h
    exact List.forall_mem_cons.2 ⟨hmeets, ih hrest⟩

/-- A record that is read has a value of every field that is written. -/
theorem exists_of_fieldsOf {expected : String} {fields : Fields} (f : RecordField α)
    (hnodup : (rules.map Rule.name).Nodup) (hf : f.rule ∈ rules) (hj : (f.name, j) ∈ members)
    (h : fieldsOf expected rules (ofMembers members) = .ok fields) : ∃ a, f.read j = .ok a := by
  simp only [fieldsOf, ofMembers, bind, Except.bind] at h
  split at h
  · cases h
  · have hcheck := meets_of_checkMembers ‹_› _ hj f.rule (find?_rule hnodup hf)
    simp only [RecordField.rule] at hcheck
    cases hread : f.read j with
    | ok a => exact ⟨a, rfl⟩
    | error fault =>
      rw [hread] at hcheck
      cases hcheck

/-- The members of a record with these rules, no two of which have one name. -/
structure IsRecord (rules : List Rule) (members : List (String × Json)) : Prop where
  covers : Covers rules members
  nodup : (rules.map Rule.name).Nodup

namespace IsRecord

theorem nodup_members (h : IsRecord rules members) : (members.map Prod.fst).Nodup :=
  h.covers.names_eq ▸ h.nodup

/-- **A record is checked** if every field of it says what is asked for. -/
theorem checked (h : IsRecord rules members) (expected : String) :
    fieldsOf expected rules (ofMembers members) = .ok members := by
  have hnone : rules.find? (fun rule => !rule.omittedByName && (members.lookup rule.name).isNone) =
      none := by
    rw [List.find?_eq_none]
    intro rule hrule
    have hname : rule.name ∈ members.map Prod.fst := h.covers.names_eq ▸ List.mem_map_of_mem hrule
    obtain ⟨m, hm, hname⟩ := List.mem_map.1 hname
    rw [← hname, lookup_member h.nodup_members hm]
    simp
  have hchecked := checkMembers_ok [] h.nodup h.nodup_members h.covers.meets
  rw [List.nil_append] at hchecked
  simp only [fieldsOf, ofMembers, hchecked, bind, Except.bind, hnone]

/-- The value of a field is that of its member. -/
theorem get (h : IsRecord rules members) (f : RecordField α) (i : Nat)
    (hmember : members[i]? = some (f.name, j)) (hvalue : Says j f.read a) :
    f.get members = .ok a := by
  rw [RecordField.get, lookup_member h.nodup_members (List.mem_of_getElem? hmember)]
  exact hvalue.reads

theorem gives (h : IsRecord rules members) (hreads : read (ofMembers members) = .ok a) :
    Gives (ofMembers members) read a where
  whole := h.covers.whole
  reads := hreads
  present := present_ofMembers members

end IsRecord

end Restoration.Json
