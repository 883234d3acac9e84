import Restoration.Proofs.Frames.Layout

/-!
# The order in which fragments are listed

A directory lists its files in any order, so fragments come to a layout as they please. Sorting keeps
the fragments that start together in the order in which they are listed, and that is all it keeps:

    sorted fs = sorted gs    iff    startingAt n fs = startingAt n gs    for every frame n

If no two fragments start together, nothing of the listing is left in the layout.
-/

namespace Restoration

namespace Layout

variable {fragments others : List Fragment}

/-- The fragments that start at frame `n`, in the order in which they are listed. -/
def startingAt (n : Nat) (fragments : List Fragment) : List Fragment :=
  fragments.filter (·.start = n)

theorem startingAt_cons (n : Nat) (f : Fragment) (fragments : List Fragment) :
    startingAt n (f :: fragments) =
      if f.start = n then f :: startingAt n fragments else startingAt n fragments := by
  simp [startingAt, List.filter_cons]

theorem mem_startingAt {n : Nat} {f : Fragment} :
    f ∈ startingAt n fragments ↔ f ∈ fragments ∧ f.start = n := by
  simp [startingAt]

theorem perm_startingAt (h : fragments.Perm others) (n : Nat) :
    (startingAt n fragments).Perm (startingAt n others) := h.filter _

theorem startingAt_startingAt (n : Nat) (fragments : List Fragment) :
    startingAt n (startingAt n fragments) = startingAt n fragments :=
  List.filter_eq_self.2 fun _ h => decide_eq_true (mem_startingAt.1 h).2

/-! ## Sorted lists -/

/-- Sorting is stable. -/
theorem startingAt_sorted (n : Nat) (fragments : List Fragment) :
    startingAt n (sorted fragments) = startingAt n fragments := by
  have hties : (startingAt n fragments).Pairwise fun f g => decide (f.start ≤ g.start) = true := by
    refine List.pairwise_iff_forall_sublist.2 fun {f g} hfg => decide_eq_true ?_
    have hf := mem_startingAt.1 (hfg.subset List.mem_cons_self)
    have hg := mem_startingAt.1 (hfg.subset (List.mem_cons_of_mem f List.mem_cons_self))
    omega
  have hkept : (startingAt n fragments).Sublist (sorted fragments) :=
    List.sublist_mergeSort start_le_trans start_le_total hties List.filter_sublist
  have hsub : (startingAt n (startingAt n fragments)).Sublist (startingAt n (sorted fragments)) :=
    hkept.filter _
  rw [startingAt_startingAt] at hsub
  exact (hsub.eq_of_length (perm_startingAt (sorted_perm fragments) n).length_eq.symm).symm

/-- A first fragment of one sorted list starts no later than one of the other, if both have the same
fragments at every frame. -/
theorem start_le_of_startingAt {f g : Fragment} {fs gs : List Fragment}
    (hfs : (f :: fs).Pairwise fun f g => f.start ≤ g.start)
    (hsame : ∀ n, startingAt n (f :: fs) = startingAt n (g :: gs)) : f.start ≤ g.start := by
  have hg : g ∈ startingAt g.start (g :: gs) := mem_startingAt.2 ⟨List.mem_cons_self, rfl⟩
  rw [← hsame] at hg
  rcases List.mem_cons.1 (mem_startingAt.1 hg).1 with rfl | hmem
  · exact Nat.le_refl _
  · exact List.rel_of_pairwise_cons hfs hmem

/-- A sorted list is told by its fragments at each frame. -/
theorem eq_of_startingAt {fs gs : List Fragment}
    (hfs : fs.Pairwise fun f g => f.start ≤ g.start)
    (hgs : gs.Pairwise fun f g => f.start ≤ g.start)
    (hsame : ∀ n, startingAt n fs = startingAt n gs) : fs = gs := by
  induction fs generalizing gs with
  | nil =>
    refine (List.eq_nil_iff_forall_not_mem.2 fun g hg => ?_).symm
    have hg' : g ∈ startingAt g.start gs := mem_startingAt.2 ⟨hg, rfl⟩
    rw [← hsame] at hg'
    cases hg'
  | cons f fs ih =>
    cases gs with
    | nil =>
      have hf := hsame f.start
      rw [startingAt_cons, if_pos rfl] at hf
      cases hf
    | cons g gs =>
      have hstart : g.start = f.start := Nat.le_antisymm
        (start_le_of_startingAt hgs fun n => (hsame n).symm) (start_le_of_startingAt hfs hsame)
      have hhead := hsame f.start
      rw [startingAt_cons, startingAt_cons, if_pos rfl, if_pos hstart] at hhead
      obtain ⟨rfl, -⟩ := List.cons.inj hhead
      refine congrArg _ (ih hfs.of_cons hgs.of_cons fun n => ?_)
      have htail := hsame n
      rw [startingAt_cons, startingAt_cons] at htail
      split at htail
      · exact List.tail_eq_of_cons_eq htail
      · exact htail

/-- Two listings come out alike if the fragments that start together are listed alike. -/
theorem sorted_eq_iff :
    sorted fragments = sorted others ↔ ∀ n, startingAt n fragments = startingAt n others := by
  constructor
  · intro h n
    rw [← startingAt_sorted n fragments, h, startingAt_sorted]
  · intro h
    refine eq_of_startingAt (sorted_pairwise _) (sorted_pairwise _) fun n => ?_
    rw [startingAt_sorted, startingAt_sorted, h]

/-! ## Listings of the same fragments -/

/-- Where no two fragments start together, at most one starts at each frame. -/
theorem length_startingAt_le (hstarts : fragments.Pairwise fun f g => f.start ≠ g.start) (n : Nat) :
    (startingAt n fragments).length ≤ 1 := by
  have hnone : (startingAt n fragments).Pairwise fun f g => f.start ≠ g.start := hstarts.filter _
  match h : startingAt n fragments with
  | [] | [_] => simp
  | f :: g :: rest =>
    have hf := (mem_startingAt.1 (h ▸ List.mem_cons_self : f ∈ startingAt n fragments)).2
    have hg := (mem_startingAt.1
      (h ▸ List.mem_cons_of_mem f List.mem_cons_self : g ∈ startingAt n fragments)).2
    rw [h] at hnone
    exact absurd (hf.trans hg.symm) (List.rel_of_pairwise_cons hnone List.mem_cons_self)

theorem sorted_eq_of_perm (hperm : fragments.Perm others)
    (hstarts : fragments.Pairwise fun f g => f.start ≠ g.start) :
    sorted fragments = sorted others := by
  refine sorted_eq_iff.2 fun n => ?_
  have hn := perm_startingAt hperm n
  match h : startingAt n fragments, length_startingAt_le hstarts n with
  | [], _ => exact (List.nil_perm.1 (h ▸ hn)).symm
  | [f], _ => exact (List.singleton_perm.1 (h ▸ hn))

/-- **Laid again**, the accepted fragments make the same layout in whatever order they come. -/
theorem ofFragments_accepted_again (total : Nat)
    (h : others.Perm (ofFragments fragments total).accepted) :
    ofFragments others total = { ofFragments fragments total with rejected := [] } := by
  have hrising := accepted_starts_rising fragments total
  have hlisted : sorted (ofFragments fragments total).accepted = sorted others :=
    sorted_eq_of_perm h.symm (hrising.imp Nat.ne_of_lt)
  have hsorted : sorted (ofFragments fragments total).accepted =
      (ofFragments fragments total).accepted :=
    List.mergeSort_of_pairwise (hrising.imp fun h => decide_eq_true (Nat.le_of_lt h))
  rw [ofFragments, ← hlisted, hsorted]
  exact layFrom_layFrom_accepted total (sorted fragments) 0

/-- **The order of a listing does not show** in a layout of fragments that start at different frames,
be it exact or computed in words: which are accepted, which of those that overlap are rejected, what
is done and what is left. -/
theorem layout_of_any_listing (total : Nat) (hperm : fragments.Perm others)
    (hstarts : fragments.Pairwise fun f g => f.start ≠ g.start) :
    ofFragments fragments total = ofFragments others total ∧
      ofFragments? fragments total = ofFragments? others total := by
  have hsorted := sorted_eq_of_perm hperm hstarts
  exact ⟨congrArg (layFrom total 0) hsorted, congrArg (layFrom? total 0) hsorted⟩

/-- Listed last or in between, the fragment at frame 2 loses against the one at frame 0. -/
theorem layout_of_any_listing_overlapping :
    let fragments : List Fragment := [⟨⟨"c"⟩, 6, 9⟩, ⟨⟨"a"⟩, 0, 3⟩, ⟨⟨"b"⟩, 2, 3⟩]
    let others : List Fragment := [⟨⟨"a"⟩, 0, 3⟩, ⟨⟨"b"⟩, 2, 3⟩, ⟨⟨"c"⟩, 6, 9⟩]
    fragments.Perm others ∧ (fragments.Pairwise fun f g => f.start ≠ g.start) ∧
      ofFragments fragments 10 = ofFragments others 10 ∧
      ofFragments? fragments 10 = some {
        done := [⟨0, 2⟩, ⟨6, 9⟩], left := [⟨3, 5⟩]
        accepted := [⟨⟨"a"⟩, 0, 3⟩, ⟨⟨"c"⟩, 6, 9⟩], rejected := [⟨⟨"b"⟩, 2, 3⟩] } := by
  intro fragments others
  have hperm : fragments.Perm others := by decide
  have hstarts : fragments.Pairwise fun f g => f.start ≠ g.start := by decide
  have hsame := layout_of_any_listing 10 hperm hstarts
  have hsorted : sorted others = others := List.mergeSort_of_pairwise (by decide)
  refine ⟨hperm, hstarts, hsame.1, ?_⟩
  rw [hsame.2, ofFragments?, hsorted]
  decide

end Layout

end Restoration
