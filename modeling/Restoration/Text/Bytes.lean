/-!
# Bytes of a text

A place in a text is counted in bytes of UTF-8, so it is known from the text ahead of it.

    slice (a ++ (m ++ b)) (byteSize a) (byteSize (a ++ m)) = m
-/

namespace Restoration.Text

/-! ## Algorithm -/

/-- How many bytes the text takes. -/
def byteSize : List Char → Nat
  | [] => 0
  | c :: r => c.utf8Size + byteSize r

/-- The characters that end within the first `n` bytes. -/
def takeBytes (n : Nat) : List Char → List Char
  | [] => []
  | c :: r => if c.utf8Size ≤ n then c :: takeBytes (n - c.utf8Size) r else []

/-- The characters behind those that end within the first `n` bytes. -/
def dropBytes (n : Nat) : List Char → List Char
  | [] => []
  | c :: r => if c.utf8Size ≤ n then dropBytes (n - c.utf8Size) r else c :: r

/-- The text from byte `start` on and up to byte `stop`. -/
def slice (t : List Char) (start stop : Nat) : List Char :=
  takeBytes (stop - start) (dropBytes start t)

/-! ## Lemmas -/

variable {a b t : List Char}

@[simp] theorem byteSize_nil : byteSize [] = 0 := rfl

@[simp] theorem byteSize_cons (c : Char) (r : List Char) :
    byteSize (c :: r) = c.utf8Size + byteSize r := rfl

@[simp] theorem byteSize_append (a b : List Char) :
    byteSize (a ++ b) = byteSize a + byteSize b := by
  induction a with
  | nil => exact (Nat.zero_add _).symm
  | cons c r ih => rw [List.cons_append, byteSize_cons, ih, byteSize_cons, Nat.add_assoc]

theorem dropBytes_zero (t : List Char) : dropBytes 0 t = t := by
  cases t with
  | nil => rfl
  | cons c r => rw [dropBytes, if_neg (Nat.not_le.2 c.utf8Size_pos)]

theorem takeBytes_zero (t : List Char) : takeBytes 0 t = [] := by
  cases t with
  | nil => rfl
  | cons c r => rw [takeBytes, if_neg (Nat.not_le.2 c.utf8Size_pos)]

theorem takeBytes_append (a b : List Char) : takeBytes (byteSize a) (a ++ b) = a := by
  induction a with
  | nil => exact takeBytes_zero b
  | cons c r ih =>
    rw [List.cons_append, byteSize_cons, takeBytes, if_pos (Nat.le_add_right _ _),
      Nat.add_sub_cancel_left, ih]

theorem dropBytes_append (a b : List Char) : dropBytes (byteSize a) (a ++ b) = b := by
  induction a with
  | nil => exact dropBytes_zero b
  | cons c r ih =>
    rw [List.cons_append, byteSize_cons, dropBytes, if_pos (Nat.le_add_right _ _),
      Nat.add_sub_cancel_left, ih]

theorem slice_append (a m b : List Char) :
    slice (a ++ (m ++ b)) (byteSize a) (byteSize (a ++ m)) = m := by
  rw [slice, dropBytes_append, byteSize_append, Nat.add_sub_cancel_left, takeBytes_append]

theorem takeBytes_append_dropBytes (n : Nat) (t : List Char) : takeBytes n t ++ dropBytes n t = t := by
  induction t generalizing n with
  | nil => rfl
  | cons c r ih =>
    rw [takeBytes, dropBytes]
    split
    · rw [List.cons_append, ih]
    · rfl

theorem takeBytes_subset (n : Nat) (t : List Char) : takeBytes n t ⊆ t := fun c hc => by
  rw [← takeBytes_append_dropBytes n t]
  exact List.mem_append_left _ hc

theorem dropBytes_subset (n : Nat) (t : List Char) : dropBytes n t ⊆ t := fun c hc => by
  rw [← takeBytes_append_dropBytes n t]
  exact List.mem_append_right _ hc

/-- Beginnings of one text are told apart by how many bytes they take. -/
theorem eq_of_byteSize_eq (ha : a <+: t) (hb : b <+: t) (h : byteSize a = byteSize b) : a = b := by
  obtain ⟨x, rfl⟩ := ha
  obtain ⟨y, hy⟩ := hb
  rw [← takeBytes_append a x, h, ← hy, takeBytes_append]

end Restoration.Text
