/-!
# Permits

A fixed number of permits bounds how many encoders run at the same time. Permits are numbered in
the order in which they are taken.

    free + held.length     never changes
-/

namespace Restoration

/-- Permits of which some are held. -/
structure Permits where
  free : Nat
  /-- The numbers of the permits that are held. -/
  held : List Nat := []
  /-- How many permits were ever taken. -/
  taken : Nat := 0
  deriving DecidableEq, Repr

namespace Permits

/-- Takes a permit, if one is free. -/
def acquire? (p : Permits) : Option (Nat × Permits) :=
  match p.free with
  | 0 => none
  | n + 1 => some (p.taken, ⟨n, p.taken :: p.held, p.taken + 1⟩)

/-- Gives a permit back. Says whether it was held at all. -/
def release (p : Permits) (number : Nat) : Bool × Permits :=
  if number ∈ p.held then (true, { p with free := p.free + 1, held := p.held.erase number })
  else (false, p)

/-! ## Lemmas -/

theorem acquire?_total {p q : Permits} {n : Nat} (h : p.acquire? = some (n, q)) :
    q.free + q.held.length = p.free + p.held.length := by
  unfold acquire? at h
  split at h
  · simp at h
  · next m hm =>
    obtain ⟨rfl, rfl⟩ := h
    simp [hm]
    omega

theorem release_total (p : Permits) (n : Nat) :
    (p.release n).2.free + (p.release n).2.held.length = p.free + p.held.length := by
  unfold release
  split
  · next hn =>
    have := List.length_pos_of_mem hn
    simp [List.length_erase_of_mem hn]
    omega
  · rfl

theorem acquire?_held {p q : Permits} {n : Nat} (h : p.acquire? = some (n, q)) :
    q.held = n :: p.held := by
  unfold acquire? at h
  split at h
  · cases h
  · cases h
    rfl

theorem release_held (p : Permits) (n : Nat) : (p.release n).2.held = p.held.erase n := by
  unfold release
  split
  · rfl
  · next hn => exact (List.erase_of_not_mem hn).symm

/-- Of the permits that are held, exactly the released one is given back. -/
theorem held_release {p : Permits} {n : Nat} {l : List Nat} (h : p.held.Perm (n :: l)) :
    (p.release n).2.held.Perm l := by
  rw [release_held]
  have herase := h.erase n
  rwa [List.erase_cons_head] at herase

end Permits

end Restoration
