import Restoration.Proofs.Encoding.Tending

/-!
# Clearing up behind a job

Once the fragments are joined, all files under names that the job owns are removed:

    Owns n   →   no file D ++ [n] is left
    any other file is as it was
-/

namespace Restoration

open FileTree Work

variable {τ : Type} {tools : Toolbox τ} {o : EncodingOptions} {job : Job} {D : Place}
  {t t' t'' : FileTree} {n : String}

namespace Job

/-! ## What is removed at last -/

/-- Nothing is left under the names that the job owns, and all other files but those that were made
are as they were. -/
structure Cleared (job : Job) (D : Place) (made : Place → Prop) (t t' : FileTree) : Prop where
  directory : t'.look job.directory = .ok (D, .folder)
  gone : ∀ n, job.Owns n → ∀ s x, t'.node? (D ++ [n]) ≠ some (.file s x)
  others : ∀ q, ¬ Under D job.Owns q → ¬ made q → ∀ s x,
    t'.node? q = some (.file s x) ↔ t.node? q = some (.file s x)
  /-- So are the files of jobs with another index, wherever they are. -/
  neighbours : ∀ (k : Job) (n : String), k.index ≠ job.index → k.Claims n → ∀ folder s x,
    t'.node? (folder ++ [n]) = some (.file s x) ↔ t.node? (folder ++ [n]) = some (.file s x)

theorem resolve_owned (hnamed : t.WellNamed) (hD : t.look job.directory = .ok (D, .folder))
    (howns : job.Owns n) (hthere : t.node? (D ++ [n]) ≠ none) :
    IsName n ∧ t.resolve (job.directory.join ⟨n⟩) = .ok (D ++ [n]) ∧
      asksForFolder (job.directory.join ⟨n⟩) = false := by
  have hnameable : Nameable n := hnamed.places _ hthere n (by simp)
  have hname := howns.isName hnameable
  obtain ⟨hplace, hfolder⟩ := look_folder_iff.1 hD
  refine ⟨hname, ?_, asksForFolder_join (text_ne_empty_of_resolve hplace) hname⟩
  rw [resolve_join hplace hname, step_name hfolder hname, if_neg (Nat.not_le.2 hnameable.short)]

/-- Removing all that the job owns, and nothing else. -/
theorem removeAll_owned {ps : List Path}
    (honly : ∀ p ∈ ps, ∀ q, t.resolve p = .ok q → Under D job.Owns q)
    (hall : ∀ n, job.Owns n → ∀ s x, t.node? (D ++ [n]) = some (.file s x) →
      ∃ p ∈ ps, t.resolve p = .ok (D ++ [n]) ∧ asksForFolder p = false) :
    SameFilesBut (Under D job.Owns) t (t.removeAll ps) ∧
      ∀ n, job.Owns n → ∀ s x, (t.removeAll ps).node? (D ++ [n]) ≠ some (.file s x) := by
  have hsame := sameBut_removeAll t ps honly
  refine ⟨.of_sameBut hsame, fun n howns s x hfile => ?_⟩
  cases hnode : t.node? (D ++ [n]) with
  | none =>
    rw [removeAll_none t ps hnode] at hfile
    cases hfile
  | some node =>
    cases node with
    | folder =>
      rw [(hsame.folder_iff _).2 hnode] at hfile
      cases hfile
    | file s' x' =>
      obtain ⟨p, hp, hplace, hasks⟩ := hall n howns s' x' hnode
      rw [removeAll_file t hp hasks hplace (by simp [hnode])] at hfile
      cases hfile

theorem intermediates_eq (hD : t.look job.directory = .ok (D, .folder)) (fragments : List Path) :
    Encoding.intermediates t job fragments = ownFiles.dropLast.map job.path ++ fragments ++
      ((t.names D).filter job.isChunkScript).map fun n => job.directory.join ⟨n⟩ := by
  rw [Encoding.intermediates, list_of_look hD]
  rfl

/-- The intermediate files and the record of a job are all that it owns, if all its fragments are
among them. -/
theorem removeAll_intermediates {fragments : List Path} {record : Path} (hnamed : t.WellNamed)
    (hD : t.look job.directory = .ok (D, .folder))
    (howned : ∀ p ∈ fragments, ∃ n, job.Owns n ∧ IsName n ∧ p = job.directory.join ⟨n⟩)
    (hall : ∀ n, IsName n → job.classify n ≠ .foreign → ∀ s x,
      t.node? (D ++ [n]) = some (.file s x) → job.directory.join ⟨n⟩ ∈ fragments)
    (hrecord : t.resolve record = .ok (D ++ [job.fileName .record]))
    (hasks : asksForFolder record = false) :
    SameFilesBut (Under D job.Owns) t
        (t.removeAll (Encoding.intermediates t job fragments ++ [record])) ∧
      ∀ n, job.Owns n → ∀ s x,
        (t.removeAll (Encoding.intermediates t job fragments ++ [record])).node? (D ++ [n]) ≠
          some (.file s x) := by
  rw [intermediates_eq hD]
  refine removeAll_owned (fun p hp q hq => ?_) fun n howns s x hfile => ?_
  · rcases List.mem_append.1 hp with hp | hp
    · obtain ⟨n, howns, hname, rfl⟩ : ∃ n, job.Owns n ∧ IsName n ∧ p = job.directory.join ⟨n⟩ := by
        rcases List.mem_append.1 hp with hp | hp
        · rcases List.mem_append.1 hp with hp | hp
          · obtain ⟨f, hf, rfl⟩ := List.mem_map.1 hp
            have hne : f ≠ .delivery := by
              rintro rfl
              simp [ownFiles] at hf
            exact ⟨_, owns_fileName hne, job.isName_fileName f, rfl⟩
          · exact howned p hp
        · obtain ⟨n, hn, rfl⟩ := List.mem_map.1 hp
          obtain ⟨hn, hscript⟩ := List.mem_filter.1 hn
          have howns : job.Owns n := .inr (.inl hscript)
          exact ⟨n, howns, (resolve_owned hnamed hD howns ((mem_names t D n).1 hn)).1, rfl⟩
      exact ⟨n, howns, place_of_resolve_join hD hname hq⟩
    · obtain rfl := List.mem_singleton.1 hp
      cases hrecord.symm.trans hq
      exact ⟨_, owns_fileName (by simp), rfl⟩
  · have hthere : t.node? (D ++ [n]) ≠ none := by simp [hfile]
    obtain ⟨hname, hplace, hjoin⟩ := resolve_owned hnamed hD howns hthere
    rcases howns with ⟨f, hf, rfl⟩ | hscript | hfragment
    · have hsplit : ownFiles = ownFiles.dropLast ++ [.record] := rfl
      rw [hsplit, List.mem_append, List.mem_singleton] at hf
      rcases hf with hf | rfl
      · refine ⟨job.path f, ?_, hplace, hjoin⟩
        simp only [List.mem_append, List.mem_map]
        exact .inl (.inl (.inl ⟨f, hf, rfl⟩))
      · exact ⟨record, by simp, hrecord, hasks⟩
    · refine ⟨_, ?_, hplace, hjoin⟩
      simp only [List.mem_append, List.mem_map, List.mem_filter]
      exact .inl (.inr ⟨n, ⟨(mem_names t D n).2 hthere, hscript⟩, rfl⟩)
    · refine ⟨_, ?_, hplace, hjoin⟩
      simp only [List.mem_append]
      exact .inl (.inl (.inr (hall n hname hfragment s x hfile)))

namespace Cleared

variable {made : Place → Prop}

theorem alike {k : Job} (hk : k.Alike job) (h : k.Cleared D made t t') : job.Cleared D made t t' where
  directory := hk.directory ▸ h.directory
  gone := hk.owns ▸ h.gone
  others := hk.owns ▸ h.others
  neighbours i n hindex := h.neighbours i n (hk.index ▸ hindex)

/-- Earlier work on what the job owns makes no difference. -/
theorem of_earlier (hsame : SameFilesBut (Under D job.Owns) t t') (h : job.Cleared D made t' t'') :
    job.Cleared D made t t'' where
  directory := h.directory
  gone := h.gone
  others q howns hmade s x := (h.others q howns hmade s x).trans (hsame.file_iff q howns s x)
  neighbours k n hindex hk folder s x := by
    refine (h.neighbours k n hindex hk folder s x).trans (hsame.file_iff _ ?_ s x)
    rintro ⟨n', howns, heq⟩
    obtain ⟨-, hn⟩ := List.append_inj' heq rfl
    cases hn
    exact hindex (index_of_claims hk (.inl howns))

end Cleared

/-- What was made lies where the delivery does. -/
theorem cleared_of_gone {made : Place → Prop} (hD : t'.look job.directory = .ok (D, .folder))
    (hgone : ∀ n, job.Owns n → ∀ s x, t'.node? (D ++ [n]) ≠ some (.file s x))
    (hsame : SameFilesBut (fun q => Under D job.Owns q ∨ made q) t t')
    (hmade : ∀ q, made q → q = D ++ [job.fileName .delivery]) : job.Cleared D made t t' where
  directory := hD
  gone := hgone
  others q hmine hq := hsame.file_iff q (not_or.2 ⟨hmine, hq⟩)
  neighbours k n hindex hk folder := by
    refine hsame.file_iff _ ?_
    rintro (⟨n', howns, heq⟩ | hq)
    · obtain ⟨-, hn⟩ := List.append_inj' heq rfl
      cases hn
      exact hindex (index_of_claims hk (.inl howns))
    · obtain ⟨-, hn⟩ := List.append_inj' (hmade _ hq) rfl
      exact hindex (index_of_claims hk (.inr (List.singleton_inj.1 hn)))

end Job

namespace Encoding

variable {d d' : Desk τ} {b b' : Bench τ} {p : Progress}

/-! ## Encoding a job -/

/-- The steps of joining fragments and clearing up. -/
theorem finish_ok {output : Path} (hkeep : o.keepIntermediates = false)
    (h : finish tools o p b = (.ok output, b')) : ∃ t₁ d₂ t₃,
      b.desk.files.write (b.job.path .concatList) (ConcatList.text p.fragments) = .ok t₁ ∧
      tools.join (b.job.path .concatList) (b.job.path .delivery) b.job
        { b.desk with files := t₁ } = (.ok (), d₂) ∧
      ({ b.job with status := .success } : Job).store d₂.files = .ok t₃ ∧
      b'.desk.files =
        t₃.removeAll (intermediates t₃ b.job p.fragments ++ [b.job.path .record]) := by
  obtain ⟨job, b₁, hjob, h⟩ := bind_ok h
  cases hjob
  obtain ⟨⟨⟩, b₂, hlist, h⟩ := bind_ok h
  obtain ⟨hlist, hjob₂⟩ := onDesk_ok hlist
  obtain ⟨t₁, hwrite, hdesk₂⟩ := change_ok hlist
  obtain ⟨⟨⟩, b₃, hjoin, h⟩ := bind_ok h
  obtain ⟨hjoin, hjob₃⟩ := onDesk_ok hjoin
  have hjoined := named_ok hjoin
  rw [hdesk₂] at hjoined
  obtain ⟨⟨⟩, b₄, hsave, h⟩ := bind_ok h
  have hstore := saveAs_store hsave
  rw [(saveAs_ok hsave).1, hjob₃, hjob₂] at hstore
  rw [hkeep] at h
  obtain ⟨⟨⟩, b₅, hremove, h⟩ := bind_ok h
  cases hremove
  cases h
  refine ⟨t₁, b₃.desk, b₄.desk.files, hwrite, hjoined, hstore, ?_⟩
  simp only [removeIntermediates, removeAll, List.foldl_append]

/-- What is written once the last survey is made. -/
def finishFiles : List JobFile := [.concatList, .delivery, .record]

/-- The list, the finished file and the record are written, and are there when clearing starts. -/
theorem written_of_finish {output : Path} (hmodest : tools.Modest b.job)
    (hkeep : o.keepIntermediates = false) (h : finish tools o p b = (.ok output, b'))
    (hnamed : b.desk.files.WellNamed)
    (hD : b.desk.files.look b.job.directory = .ok (D, .folder)) : ∃ t,
      SameFilesBut (Job.Under D fun n => ∃ f ∈ finishFiles, n = b.job.fileName f) b.desk.files t ∧
      t.WellNamed ∧ (∃ s x, t.node? (D ++ [b.job.fileName .delivery]) = some (.file s x)) ∧
      (∃ s, t.readText (b.job.path .record) = .ok s) ∧
      b'.desk.files = t.removeAll (intermediates t b.job p.fragments ++ [b.job.path .record]) := by
  obtain ⟨t₁, d₂, t₃, hwrite, hjoin, hstore, hfiles⟩ := finish_ok hkeep h
  have hlisted : b.job.Tends D (· = b.job.fileName .concatList) b.desk.files t₁ := .write hwrite
  have hjoined : b.job.Tends D (· = b.job.fileName .delivery) t₁ d₂.files := by
    have := hmodest.join (b.job.path .concatList) (b.job.path .delivery) b.job
      { b.desk with files := t₁ }
    rw [hjoin] at this
    exact .of_file this
  have halike : ({ b.job with status := .success } : Job).Alike b.job := ⟨rfl, rfl, rfl⟩
  have hstored : b.job.Tends D (· = b.job.fileName .record) d₂.files t₃ := .store halike hstore
  have hfinish {f : JobFile} (hf : f ∈ finishFiles) (n : String) (hn : n = b.job.fileName f) :
      ∃ f ∈ finishFiles, n = b.job.fileName f := ⟨f, hf, hn⟩
  obtain ⟨hsame₂, hnamed₂⟩ :=
    ((hlisted.mono (hfinish (by decide))).trans (hjoined.mono (hfinish (by decide)))) hnamed hD
  have hD₂ := hsame₂.look_folder hD
  obtain ⟨hsame₃, hnamed₃⟩ := hstored hnamed₂ hD₂
  refine ⟨t₃, ?_, hnamed₃, ?_, ?_, hfiles⟩
  · exact hsame₂.trans (hsame₃.mono fun q ⟨n, hn, hq⟩ => ⟨n, hfinish (by decide) n hn, hq⟩)
  · obtain ⟨s, hs⟩ := hmodest.joined hjoin
    obtain ⟨place, x, hplace, hnode, -⟩ := readText_ok hs
    obtain rfl := Job.place_of_path hD₂ hplace
    refine ⟨s, x, (hsame₃.file_iff _ ?_ s x).2 hnode⟩
    rintro ⟨-, rfl, heq⟩
    have hname : b.job.fileName .delivery = b.job.fileName .record := by simpa using heq
    exact absurd (Job.fileName_inj hname).2 (by simp)
  · exact ⟨_, halike.path .record ▸ Job.readText_of_storeAt hstore⟩

/-- **Behind the last survey**, the list and the finished file are written, and all is removed that
the job owns. -/
theorem cleared_of_finish {output : Path} (hmodest : tools.Modest b.job)
    (hkeep : o.keepIntermediates = false) (h : finish tools o p b = (.ok output, b'))
    (hnamed : b.desk.files.WellNamed)
    (hD : b.desk.files.look b.job.directory = .ok (D, .folder))
    (howned : ∀ f ∈ p.fragments, ∃ n, b.job.Owns n ∧ IsName n ∧ f = b.job.directory.join ⟨n⟩)
    (hall : ∀ n, IsName n → b.job.classify n ≠ .foreign → b.desk.files.node? (D ++ [n]) ≠ none →
      b.job.directory.join ⟨n⟩ ∈ p.fragments) :
    b.job.Cleared D (· = D ++ [b.job.fileName .delivery]) b.desk.files b'.desk.files ∧
      ∃ s x, b'.desk.files.node? (D ++ [b.job.fileName .delivery]) = some (.file s x) := by
  obtain ⟨t, hsame, hnamed', ⟨s, x, hdelivery⟩, ⟨_, hrecord⟩, hfiles⟩ :=
    written_of_finish hmodest hkeep h hnamed hD
  have hD' := hsame.look_folder hD
  -- nothing that was written is taken for a fragment
  have hleft : ∀ n, IsName n → b.job.classify n ≠ .foreign → ∀ s x,
      t.node? (D ++ [n]) = some (.file s x) → b.job.directory.join ⟨n⟩ ∈ p.fragments := by
    intro n hname hfragment s x hfile
    refine hall n hname hfragment ?_
    rw [hsame.file_iff] at hfile
    · simp [hfile]
    · rintro ⟨-, ⟨f, hf, rfl⟩, heq⟩
      obtain rfl : n = b.job.fileName f := by simpa using heq
      refine hfragment (b.job.classify_fileName fun m => ?_)
      rintro rfl
      simp [finishFiles] at hf
  obtain ⟨place, -, hplace, -, hasks⟩ := readText_ok hrecord
  obtain rfl := Job.place_of_path hD' hplace
  obtain ⟨hsame', hgone⟩ := Job.removeAll_intermediates hnamed' hD' howned hleft hplace hasks
  rw [← hfiles] at hsame' hgone
  refine ⟨Job.cleared_of_gone (hsame'.look_folder hD') hgone ?_ fun q hq => hq, s, x, ?_⟩
  · refine (hsame.mono ?_).trans (hsame'.mono fun q => .inl)
    rintro q ⟨-, ⟨f, -, rfl⟩, rfl⟩
    by_cases hf : f = .delivery
    · exact .inr (hf ▸ rfl)
    · exact .inl ⟨_, Job.owns_fileName hf, rfl⟩
  · rw [hsame'.file_iff]
    · exact hdelivery
    · rintro ⟨n, howns, heq⟩
      obtain rfl : b.job.fileName .delivery = n := by simpa using heq
      exact b.job.not_owns_delivery howns

/-- A finished job leaves its delivery, and nothing else that is its own. -/
theorem cleared_of_run {output : Path} {frames : Nat} (hmodest : tools.Modest b.job)
    (hkeep : o.keepIntermediates = false) (hnamed : b.desk.files.WellNamed)
    (h : run tools o b = (.ok (.complete output frames), b')) :
    ∃ D, b.job.Cleared D (· = D ++ [b.job.fileName .delivery]) b.desk.files b'.desk.files ∧
      ∃ s x, b'.desk.files.node? (D ++ [b.job.fileName .delivery]) = some (.file s x) := by
  have hany : Steady fun _ _ : τ => True := ⟨fun _ => trivial, fun _ _ => trivial⟩
  rcases run_cases hany (fun _ _ _ => trivial) (fun _ _ _ _ _ => trivial) (fun _ _ _ => trivial)
    (fun _ _ => trivial) h with hhalts | hconcludes
  · exact absurd rfl (hhalts.ne_complete output frames)
  cases hconcludes with
  | @intro job d₀ d₁ d₂ d₄ b₃ p₁ p₂ failures rf running filed made prepared first known encoded second
      waved complete finished reported =>
    have htidy := hmodest.toTidy
    have hjob : b.job.Alike job := by
      subst running
      exact ⟨rfl, rfl, rfl⟩
    obtain ⟨total₁, fragments₁, hfirst, -, -⟩ := Survey.survey_ok first known
    obtain ⟨t, hmade, hstored⟩ := made
    obtain ⟨hsame, hnamed₀, hlook⟩ := makeFolders_ok hmade
    obtain ⟨D, hD⟩ := hlook hfirst.text_ne_empty
    -- up to the second survey
    have hopened : job.Tends D job.Owns t d₀.files :=
      (Job.Tends.store (.refl job) hstored).owned (by simp)
    have hprepared : job.Tends D job.Owns d₀.files d₁.files :=
      (tends_prepareScripts (hmodest.alike hjob)).apply prepared
    have hsurveyed : job.Tends D job.Owns d₁.files d₂.files := Survey.tends_course htidy hfirst
    obtain ⟨hencoded, processes, hjob₃⟩ := tends_encoded htidy encoded
    have hearlier : job.Tends D job.Owns t b₃.desk.files :=
      ((hopened.trans hprepared).trans hsurveyed).trans hencoded
    obtain ⟨hsame₃, hnamed₃⟩ := hearlier (hnamed₀ hnamed) hD
    have hD₃ := hsame₃.look_folder hD
    -- the second survey
    have hjob₃ : job.Alike b₃.job := hjob₃ ▸ ⟨rfl, rfl, rfl⟩
    rw [hjob₃.directory] at hD₃
    have hknown : 0 < p₂.totalFrames := by
      simp only [Progress.isComplete, Bool.and_eq_true, decide_eq_true_eq] at complete
      exact complete.1
    obtain ⟨total, fragments, hsecond, -, rfl⟩ := Survey.survey_ok second hknown
    obtain ⟨hsame₄, hnamed₄⟩ := Survey.tends_course htidy hsecond hnamed₃ hD₃
    have hD₄ := hsame₄.look_folder hD₃
    have howned := hsecond.owned htidy hnamed₃ hD₃
    -- behind it
    cases rf with
    | error fault => cases reported
    | ok output' =>
      generalize hjob₅ : ({ b₃.job with resumePosition := _ } : Job) = job₅ at finished
      have hjob₅ : b₃.job.Alike job₅ := hjob₅ ▸ ⟨rfl, rfl, rfl⟩
      have hjob₅' : job₅.Alike b.job := ((hjob.trans hjob₃).trans hjob₅).symm
      have haccepted : ∀ f ∈ (Layout.ofFragments fragments total).accepted.map (·.path),
          ∃ n, job₅.Owns n ∧ IsName n ∧ f = job₅.directory.join ⟨n⟩ := by
        intro f hf
        obtain ⟨g, hg, rfl⟩ := List.mem_map.1 hf
        obtain ⟨n, hn, hname, hpath⟩ := howned g
          ((Layout.ofFragments_perm fragments total).mem_iff.1 (List.mem_append_left _ hg))
        exact ⟨n, hjob₅.owns ▸ hn, hname, by rw [hpath, hjob₅.directory]⟩
      have hleft : ∀ n, IsName n → job₅.classify n ≠ .foreign → d₄.files.node? (D ++ [n]) ≠ none →
          job₅.directory.join ⟨n⟩ ∈ (Layout.ofFragments fragments total).accepted.map (·.path) := by
        intro n hname hn hthere
        rw [← hjob₅.classify] at hn
        obtain ⟨f, hf, hpath, -⟩ := hsecond.remains htidy hD₄ hname hn hthere
        exact List.mem_map.2 ⟨f, hf, by rw [hpath, hjob₅.directory]⟩
      obtain ⟨hcleared, s, x, hdelivery⟩ := cleared_of_finish (b := ⟨job₅, d₄.looked⟩)
        (hmodest.alike hjob₅'.symm) hkeep finished hnamed₄ (hjob₅.directory ▸ hD₄) haccepted hleft
      rw [hjob₅'.fileName] at hcleared hdelivery
      refine ⟨D, ?_, s, x, hdelivery⟩
      rw [← (hjob.trans hjob₃).owns] at hsame₄
      rw [← hjob.owns] at hsame₃
      exact .of_earlier (hsame.mono fun _ => False.elim)
        (.of_earlier hsame₃ (.of_earlier hsame₄ (hcleared.alike hjob₅')))

end Encoding

end Restoration
