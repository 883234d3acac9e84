import Restoration.Proofs.FileTree.Regular
import Restoration.Proofs.Frames.Resumption
import Restoration.Proofs.Survey.Again

/-!
# What a survey leaves covered

The fragments that a survey leaves in the job's directory are those that it has laid. So they cover
the frames that its layout takes for done, and no others:

    Covers job t' measures m   ↔   ∃ r ∈ done, r.holds m        for frames m of the source
-/

namespace Restoration

open FileTree Work

theorem FileTree.WellNamed.properNames {t : FileTree} (h : t.WellNamed) : t.ProperNames :=
  fun _ n hthere => (h.places _ hthere n (by simp)).slash

namespace Survey

variable {τ : Type} {tools : Toolbox τ} {job : Job} {d d₃ : Desk τ} {t t' : FileTree} {n : String}
  {q : Place} {listing : Listing} {counts : List (Except ToolFault Nat)} {total : Nat} {m : Nat}

/-- Something in the job's directory is taken for a fragment with that frame: it has the first frame
in its name, and the number of its frames was measured. -/
def Covers (job : Job) (t : FileTree) (measures : List ToolCall) (m : Nat) : Prop :=
  ∃ n q s r, Entry job t n q ∧ job.classify n = .start s ∧
    .measured (job.directory.join ⟨n⟩) r ∈ measures ∧ s ≤ m ∧ m < s + r.toOption.getD 0

/-- The calls that measured what was listed. -/
def measuresOf (listing : Listing) (counts : List (Except ToolFault Nat)) : List ToolCall :=
  ((listing.candidates.map Prod.fst).zip counts).map fun c => .measured c.1 c.2

theorem mem_measuresOf {media : Path} {r : Except ToolFault Nat} :
    .measured media r ∈ measuresOf listing counts ↔
      ∃ s, ((media, s), r) ∈ listing.candidates.zip counts := by
  rw [measuresOf, List.zip_map_left, List.map_map, List.mem_map]
  constructor
  · rintro ⟨⟨⟨media', s⟩, r'⟩, hmem, heq⟩
    cases heq
    exact ⟨s, hmem⟩
  · rintro ⟨s, hmem⟩
    exact ⟨_, hmem, rfl⟩

namespace Finds

variable {answer : Except ToolFault Nat} (htools : tools.Orderly) (hregular : d.files.Regular)
  (h : Finds tools job d answer listing counts d₃)

include htools hregular h

/-- A candidate with the same path has the name and the first frame of the entry. -/
theorem candidate_eq {s s' : Nat} (hn : job.classify n = .start s)
    (hmem : (job.directory.join ⟨n⟩, s') ∈ listing.candidates) : s' = s := by
  obtain ⟨n', q, -, hn', hpath, -⟩ :=
    (h.mem_candidates_iff htools.toTidy hregular.named.properNames).1 hmem
  obtain rfl := join_inj_of_classify (by simp [hn]) (by simp [hn']) hpath
  rw [hn] at hn'
  cases hn'
  rfl

variable (hdeletes : Deletes (listing.corrupt ++ rejects listing counts total) d₃.files t')

include hdeletes

/-- What is laid is there, with its frames measured. -/
theorem there_of_laid {f : Fragment}
    (hf : f ∈ (Layout.ofFragments (weighed listing.candidates counts) total).accepted) :
    ∃ n q r, Entry job t' n q ∧ job.classify n = .start f.start ∧
      f.path = job.directory.join ⟨n⟩ ∧
      .measured (job.directory.join ⟨n⟩) r ∈ measuresOf listing counts ∧
      f.frames = r.toOption.getD 0 := by
  have hnames := hregular.named.properNames
  have hweighed : f ∈ weighed listing.candidates counts :=
    (Layout.ofFragments_perm _ total).mem_iff.1 (List.mem_append_left _ hf)
  obtain ⟨⟨⟨p, s⟩, r⟩, hmem, rfl⟩ := List.mem_map.1 hweighed
  obtain ⟨n, q, hentry, hn, rfl, -⟩ :=
    (h.mem_candidates_iff htools.toTidy hnames).1 (List.of_mem_zip hmem).1
  have hlaid : job.directory.join ⟨n⟩ ∈ accepts listing counts total :=
    List.mem_map_of_mem (f := Fragment.path) hf
  exact ⟨n, q, r, (h.entry_iff htools hregular.distinct hnames hdeletes (by simp [hn])).2
    ⟨hentry, hlaid⟩, hn, rfl, mem_measuresOf.2 ⟨s, hmem⟩, rfl⟩

/-- What is there is laid. -/
theorem laid_of_there {s : Nat} {r : Except ToolFault Nat} (hentry : Entry job t' n q)
    (hn : job.classify n = .start s)
    (hr : .measured (job.directory.join ⟨n⟩) r ∈ measuresOf listing counts) :
    ⟨job.directory.join ⟨n⟩, s, r.toOption.getD 0⟩ ∈
      (Layout.ofFragments (weighed listing.candidates counts) total).accepted := by
  obtain ⟨s', hmem⟩ := mem_measuresOf.1 hr
  obtain rfl := h.candidate_eq htools hregular hn (List.of_mem_zip hmem).1
  obtain ⟨-, hlaid⟩ := (h.entry_iff htools hregular.distinct hregular.named.properNames hdeletes
    (by simp [hn])).1 hentry
  obtain ⟨g, hg, hpath⟩ := List.mem_map.1 hlaid
  -- no file was measured twice
  have hnodup : ((weighed listing.candidates counts).map Fragment.path).Nodup :=
    h.map_path_weighed ▸ h.nodup_paths htools hregular.distinct
  have hweighed : g ∈ weighed listing.candidates counts :=
    (Layout.ofFragments_perm _ total).mem_iff.1 (List.mem_append_left _ hg)
  have heq := List.inj_on_of_nodup_map hnodup hweighed (List.mem_map.2 ⟨_, hmem, rfl⟩) hpath
  rwa [heq] at hg

/-- Whatever is taken for a fragment after the survey has frames in the source. -/
theorem sound_of_there (hentry : Entry job t' n q) (hn : job.classify n ≠ .foreign) : ∃ s r,
    job.classify n = .start s ∧
      .measured (job.directory.join ⟨n⟩) r ∈ measuresOf listing counts ∧ s < total ∧
      0 < r.toOption.getD 0 := by
  obtain ⟨-, hlaid⟩ := (h.entry_iff htools hregular.distinct hregular.named.properNames hdeletes
    hn).1 hentry
  obtain ⟨f, hf, hpath⟩ := List.mem_map.1 hlaid
  obtain ⟨n', q', r, -, hn', hpath', hr, hframes⟩ := h.there_of_laid htools hregular hdeletes hf
  obtain rfl := join_inj_of_classify hn (by simp [hn']) (hpath.symm.trans hpath')
  obtain ⟨hpos, hstart⟩ := Layout.ofFragments_accepted _ total f hf
  exact ⟨f.start, r, hn', hr, hstart, hframes ▸ hpos⟩

/-- **The files that are left cover what the layout takes for done.** -/
theorem covers_iff (hm : m < total) : Covers job t' (measuresOf listing counts) m ↔
    ∃ r ∈ (Layout.ofFragments (weighed listing.candidates counts) total).done, r.holds m := by
  rw [Layout.ofFragments_done_eq]
  constructor
  · rintro ⟨n, q, s, r, hentry, hn, hr, hfirst, hlast⟩
    refine ⟨_, List.mem_map_of_mem (h.laid_of_there htools hregular hdeletes hentry hn hr), hfirst,
      ?_⟩
    simp only [Fragment.range]
    omega
  · rintro ⟨range, hrange, hholds⟩
    obtain ⟨f, hf, rfl⟩ := List.mem_map.1 hrange
    obtain ⟨hpos, -⟩ := Layout.ofFragments_accepted _ total f hf
    obtain ⟨n, q, r, hentry, hn, -, hr, hframes⟩ := h.there_of_laid htools hregular hdeletes hf
    refine ⟨n, q, f.start, r, hentry, hn, hr, hholds.1, ?_⟩
    have hlast := hholds.2
    simp only [Fragment.range] at hlast
    omega

end Finds

end Survey

end Restoration
