import Restoration.Proofs.Encoding.Joining
import Restoration.Proofs.Job.Filing
import Restoration.Proofs.Job.Owned
import Restoration.Proofs.Survey.Ends

/-!
# Work in a job's directory

Whatever is done for a job in its directory touches only files under names that the job owns, and
its delivery. So do the steps ahead of the joining of fragments:

    job.Tends D job.Owns t t'   →   t'.node? q = some (.file s x)  ↔  t.node? q = some (.file s x)

for each place `q` that is not `D ++ [n]` for a name `n` that the job owns.
-/

namespace Restoration

open FileTree Work

variable {τ : Type} {tools : Toolbox τ} {o : EncodingOptions} {job : Job} {D : Place}
  {t t' t'' : FileTree} {changed : Place → Prop} {n : String}

/-- Tidy tools that write only what they are given also where they run the stabilizer's first pass or
join fragments: the log of the one, and the finished file, which is there once it is joined. -/
structure Toolbox.Modest (tools : Toolbox τ) (job : Job) : Prop extends tools.Tidy where
  runScript : ∀ o d, SameBut (d.files.resolve (job.path .motionLog) = .ok ·) d.files
    (tools.runScript (job.path .motionScript).forEngine o d).2.files
  join : ∀ concatList output j d, SameBut (d.files.resolve output = .ok ·) d.files
    (tools.join concatList output j d).2.files
  joined : ∀ {concatList output j d d'}, tools.join concatList output j d = (.ok (), d') →
    ∃ s, d'.files.readText output = .ok s

theorem Toolbox.Modest.alike {k : Job} (h : tools.Modest k) (hk : k.Alike job) :
    tools.Modest job where
  toTidy := h.toTidy
  runScript o d := by
    have := h.runScript o d
    rwa [hk.path, hk.path] at this
  join := h.join
  joined := h.joined

namespace Job

/-! ## Work in a job's directory -/

/-- The place of one of the names, in the directory `D`. -/
def Under (D : Place) (names : String → Prop) (q : Place) : Prop := ∃ n, names n ∧ q = D ++ [n]

/-- If `D` is the job's directory, at most files under some names in it are touched. -/
def Tends (job : Job) (D : Place) (names : String → Prop) (t t' : FileTree) : Prop :=
  t.WellNamed → t.look job.directory = .ok (D, .folder) →
    SameFilesBut (Under D names) t t' ∧ t'.WellNamed

namespace Tends

variable {names more : String → Prop}

theorem refl (job : Job) (D : Place) (names : String → Prop) (t : FileTree) :
    job.Tends D names t t := fun hnamed _ => ⟨.refl _ t, hnamed⟩

theorem trans (h : job.Tends D names t t') (h' : job.Tends D names t' t'') :
    job.Tends D names t t'' := by
  intro hnamed hD
  obtain ⟨hsame, hnamed'⟩ := h hnamed hD
  obtain ⟨hsame', hnamed''⟩ := h' hnamed' (hsame.look_folder hD)
  exact ⟨hsame.trans hsame', hnamed''⟩

theorem mono (h : job.Tends D names t t') (hsub : ∀ n, names n → more n) :
    job.Tends D more t t' := by
  intro hnamed hD
  obtain ⟨hsame, hnamed'⟩ := h hnamed hD
  exact ⟨hsame.mono fun q ⟨n, hn, hq⟩ => ⟨n, hsub n hn, hq⟩, hnamed'⟩

theorem of_sameBut (h : SameBut changed t t') (hchanged : t.WellNamed → ∀ q, changed q →
    ∃ n, names n ∧ IsName n ∧ t.resolve (job.directory.join ⟨n⟩) = .ok q) :
    job.Tends D names t t' := by
  intro hnamed hD
  refine ⟨(SameFilesBut.of_sameBut h).mono fun q hq => ?_, hnamed.of_sameBut h fun q hq => ?_⟩
  · obtain ⟨n, hn, hname, hplace⟩ := hchanged hnamed q hq
    exact ⟨n, hn, place_of_resolve_join hD hname hplace⟩
  · obtain ⟨n, -, -, hplace⟩ := hchanged hnamed q hq
    exact ⟨_, hplace⟩

theorem of_files (h : SameBut changed t t')
    (hchanged : ∀ q, changed q → ∃ f, names (job.fileName f) ∧ t.resolve (job.path f) = .ok q) :
    job.Tends D names t t' := by
  refine .of_sameBut h fun _ q hq => ?_
  obtain ⟨f, hf, hplace⟩ := hchanged q hq
  exact ⟨_, hf, job.isName_fileName f, hplace⟩

theorem of_file {f : JobFile} (h : SameBut (t.resolve (job.path f) = .ok ·) t t') :
    job.Tends D (· = job.fileName f) t t' :=
  .of_files h fun _ hq => ⟨f, rfl, hq⟩

theorem write {f : JobFile} {s : String} (h : t.write (job.path f) s = .ok t') :
    job.Tends D (· = job.fileName f) t t' :=
  .of_file (sameBut_write h)

theorem alike {k : Job} (hk : k.Alike job) (h : k.Tends D names t t') : job.Tends D names t t' :=
  fun hnamed hD => h hnamed (hk.directory.symm ▸ hD)

theorem store {k : Job} (hk : k.Alike job) (h : k.store t = .ok t') :
    job.Tends D (· = job.fileName .record) t t' := by
  obtain ⟨u, hsame, hnamed, hwrite⟩ := writeMaking_ok (storeAt_ok_iff.1 h)
  have hmade : job.Tends D (· = job.fileName .record) t u :=
    fun ht _ => ⟨hsame.mono fun _ => False.elim, hnamed ht⟩
  rw [hk.path] at hwrite
  exact hmade.trans (.write hwrite)

/-- What is done to a file of the job other than its delivery. -/
theorem owned {f : JobFile} (hf : f ≠ .delivery) (h : job.Tends D (· = job.fileName f) t t') :
    job.Tends D job.Owns t t' :=
  h.mono fun _ hn => hn ▸ owns_fileName hf

theorem removeAll {ps : List Path} (h : ∀ p ∈ ps, ∃ n, names n ∧ IsName n ∧
    p = job.directory.join ⟨n⟩) : job.Tends D names t (t.removeAll ps) := by
  have hsame : SameBut (fun q => ∃ p ∈ ps, t.resolve p = .ok q) t (t.removeAll ps) :=
    sameBut_removeAll t ps fun p hp q hq => ⟨p, hp, hq⟩
  refine .of_sameBut hsame ?_
  rintro - q ⟨p, hp, hq⟩
  obtain ⟨n, hn, hname, rfl⟩ := h p hp
  exact ⟨n, hn, hname, hq⟩

end Tends

theorem steady_tends (job : Job) (D : Place) (names : String → Prop) :
    Steady fun d d' : Desk τ => job.Tends D names d.files d'.files where
  refl d := .refl job D names d.files
  trans := .trans

/-- Names in the job's directory that are taken for fragments. -/
theorem owns_of_mem_names (hnamed : t.WellNamed) (hn : n ∈ t.names D)
    (hfragment : job.classify n ≠ .foreign) : job.Owns n ∧ IsName n := by
  have howns : job.Owns n := .inr (.inr hfragment)
  have hnameable : Nameable n := by
    refine hnamed.places _ ((mem_names t D n).1 hn) n ?_
    simp
  exact ⟨howns, howns.isName hnameable⟩

end Job

namespace Survey

variable {total : Nat} {fragments : List Fragment} {d d' : Desk τ}

theorem tends_count (htidy : tools.Tidy) {d₁ d₂ : Desk τ} {r : Except ToolFault Nat}
    (hprepared : prepareProbe job d = (.ok (), d₁))
    (hcounted : tools.scriptFrames (job.path .frameCountScript) (job.path .frameCount) d₁ = (r, d₂)) :
    job.Tends D job.Owns d.files d₂.files := by
  have hcount : count tools job d = (.ok r, d₂) := by
    rw [count, bind_run, hprepared]
    dsimp only
    rw [outcome_run, hcounted]
  refine .of_files ((ahead_count htidy job).apply hcount).same ?_
  rintro q ⟨f, hf, hq⟩
  refine ⟨f, Job.owns_fileName ?_, hq⟩
  rintro rfl
  simp [writtenFiles] at hf

/-- The fragments that a survey finds lie under names that the job owns. -/
theorem Course.owned (htidy : tools.Tidy) (h : Course tools job total fragments d d')
    (hnamed : d.files.WellNamed) (hD : d.files.look job.directory = .ok (D, .folder)) :
    ∀ f ∈ fragments, ∃ n, job.Owns n ∧ IsName n ∧ f.path = job.directory.join ⟨n⟩ := by
  intro f hf
  cases h with
  | intro hprepared hcounted hlisted hprobed huncancelled hcleared hpaired _ hthinned =>
    obtain ⟨D', -, rfl⟩ := listFragments_ok hlisted
    obtain ⟨n, hn, hstart, hpath, -⟩ := candidate_of_fragment hprobed hpaired hf
    have hnamed₂ := (tends_count htidy hprepared hcounted hnamed hD).2
    have hfragment : job.classify n ≠ .foreign := by simp [hstart]
    obtain ⟨howns, hname⟩ := Job.owns_of_mem_names hnamed₂ hn hfragment
    exact ⟨n, howns, hname, hpath⟩

theorem tends_course (htidy : tools.Tidy) (h : Course tools job total fragments d d') :
    job.Tends D job.Owns d.files d'.files := by
  intro hnamed hD
  have howned := h.owned htidy hnamed hD
  cases h with
  | @intro d₁ d₂ d₃ d₄ _ listing _ hprepared hcounted hlisted hprobed huncancelled hcleared hpaired _
      hthinned =>
    have hahead : job.Tends D job.Owns d.files d₂.files := tends_count htidy hprepared hcounted
    have hmeasured := sameBut_measureAll htidy (listing.candidates.map Prod.fst) d₂
    rw [hprobed] at hmeasured
    obtain ⟨D', -, rfl⟩ := listFragments_ok hlisted
    have hnamed₂ := (hahead hnamed hD).2
    have hcorrupt : job.Tends D job.Owns d₃.files d₄.files := by
      refine .of_sameBut (delete_ok hcleared).2.same ?_
      rintro - q ⟨p, hp, hq⟩
      obtain ⟨n, hn, rfl, huseless⟩ := mem_corrupt.1 hp
      have hfragment : job.classify n ≠ .foreign := by
        rcases huseless with hn | ⟨⟨s, hn⟩, -⟩ <;> simp [hn]
      obtain ⟨howns, hname⟩ := Job.owns_of_mem_names hnamed₂ hn hfragment
      exact ⟨n, howns, hname, hq⟩
    have hrejected : job.Tends D job.Owns d₄.files d'.files := by
      refine .of_sameBut (delete_ok hthinned).2.same ?_
      rintro - q ⟨p, hp, hq⟩
      obtain ⟨f, hf, rfl⟩ := List.mem_map.1 hp
      have hmem : f ∈ fragments :=
        (Layout.ofFragments_perm fragments total).mem_iff.1 (List.mem_append_right _ hf)
      obtain ⟨n, howns, hname, hpath⟩ := howned f hmem
      exact ⟨n, howns, hname, hpath ▸ hq⟩
    have hfound : job.Tends D job.Owns d.files d₃.files :=
      hahead.trans (.of_sameBut hmeasured fun _ _ => False.elim)
    exact (hfound.trans (hcorrupt.trans hrejected)) hnamed hD

end Survey

namespace Encoding

variable {b b' : Bench τ} {p : Progress}

/-! ## Steps of an encoding -/

theorem tends_prepareScripts (hmodest : tools.Modest job) :
    Always (fun d d' : Desk τ => job.Tends D job.Owns d.files d'.files)
      (prepareScripts tools o job) := by
  refine always_prepareScripts (job.steady_tends D _) job (fun f hf s d t h => ?_) fun d => ?_
  · refine (Job.Tends.write h).owned ?_
    rcases hf with rfl | rfl <;> simp
  · exact (Job.Tends.of_file (hmodest.runScript _ d)).owned (by simp)

theorem tends_encodeChunks (htidy : tools.Tidy) {n : Nat}
    (h : encodeChunks tools o p b = (.ok n, b')) :
    b.job.Tends D b.job.Owns b.desk.files b'.desk.files := by
  obtain ⟨base, rs, d, hencodes, -, -, hdesk⟩ := encodeChunks_ok h
  have hsame := hencodes.sameBut htidy
  have hchunks : b.job.Tends D b.job.Owns b.desk.files d.files := by
    refine .of_files hsame ?_
    rintro q ⟨c, -, hq | hq⟩
    · refine ⟨_, Job.owns_fileName ?_, hq⟩
      split <;> simp
    · exact ⟨_, Job.owns_fileName (by simp), hq⟩
  rw [hdesk]
  refine hchunks.trans (.removeAll fun p hp => ?_)
  obtain ⟨c, -, rfl⟩ := List.mem_map.1 hp
  exact ⟨_, Job.owns_fileName (by simp), b.job.isName_fileName _, rfl⟩

theorem tends_encoded (htidy : tools.Tidy) {n : Nat}
    (h : (if p.left.isEmpty then pure 0 else encodeChunks tools o p) b = (.ok n, b')) :
    b.job.Tends D b.job.Owns b.desk.files b'.desk.files ∧
      ∃ processes, b'.job = { b.job with processes := processes } := by
  split at h
  · cases h
    exact ⟨.refl _ _ _ _, _, rfl⟩
  · obtain ⟨base, rs, d, -, -, hjob, -⟩ := encodeChunks_ok h
    exact ⟨tends_encodeChunks htidy h, _, hjob⟩

end Encoding

end Restoration
