import Restoration.Proofs.Graph.Spelling
import Restoration.Proofs.Script.Reading
import Restoration.Proofs.Script.Restriction

/-!
# Restricting a job's script

The restricting line is found by its text, and so is the prefetch that it stands ahead of. In the
script of a job only paths can spell either text, so restrictions come and go cleanly exactly if no
path does:

    s.Restricts e.threads r ↔ ¬ j.spells e restrictionMark ∧ (e.threads ≤ 1 → ¬ j.spells e prefetchMark)
-/

namespace Restoration

open Statements

/-! ## Lines -/

section spelled

variable {fs : List String} {file : Option Path} {comment : Option String} {l : Line} {m : String}

/-- A mark in a term and its comment stands in one of them. -/
theorem hasText_commented {f : String} {as : List String} {c : String} (hm : m ∈ marks)
    (h : (Line.termWithComment (call f as) c).contains m = true) :
    hasText (call f as) m = true ∨ hasText (Line.commentMark ++ c) m = true := by
  obtain ⟨front, hfront⟩ : ∃ front, (call f as).toList = front ++ [')'] :=
    ⟨_, (List.dropLast_append_getLast? _ (getLast?_call f as)).symm⟩
  rw [Line.contains, hasText_iff, Line.text, String.append_assoc, String.toList_append, hfront,
    List.append_assoc] at h
  rcases Text.infix_append_cons ((isMark_of_mem m hm).plain ')' (by decide)) h with h | h
  · rw [hasText_iff, hfront]
    exact .inl (h.trans (List.prefix_append _ _).isInfix)
  · exact .inr (hasText_iff.2 h)

/-- A mark in a line of a stage stands in the path that the stage names. -/
theorem Line.Spells.hasText_file (h : l.Spells fs file comment) (hm : m ∈ marks)
    (hfs : ∀ f ∈ fs, hasText (f ++ "(") m = false)
    (hcomment : ∀ c ∈ comment, hasText (Line.commentMark ++ c) m = false)
    (hl : l.contains m = true) : ∃ p ∈ file, hasText p.text m = true := by
  have hcall : ∀ {f as}, f ∈ fs → (∀ a ∈ as, Harmless file a) → hasText (call f as) m = true →
      ∃ p ∈ file, hasText p.text m = true := by
    intro f as hf has hcall
    rcases hasText_call hm hcall with hfunction | ⟨a, ha, hargument⟩
    · rw [hfs f hf] at hfunction
      cases hfunction
    · rcases has a ha with hquiet | ⟨p, hp, hcites⟩
      · rw [hquiet.unmarked m hm] at hargument
        cases hargument
      · exact ⟨p, hp, (hcites.hasText_eq hm).symm.trans hargument⟩
  cases h with
  | term hf has => exact hcall hf has hl
  | commented hf has hc =>
    rcases hasText_commented hm hl with hl | hl
    · exact hcall hf has hl
    · rw [hcomment _ hc] at hl
      cases hl

end spelled

theorem unmarked_functions : ∀ m ∈ marks, ∀ f ∈ loadingFunctions ++ plainFunctions,
    hasText (f ++ "(") m = false := by
  decide +kernel

theorem unmarked_preview : ∀ m ∈ marks, hasText (Line.commentMark ++ previewMark) m = false := by
  decide +kernel

theorem unmarked_loadables : ∀ d ∈ loadables, Path.isAbsolute d.path = false ∧
    ∀ m ∈ marks, hasText d.path.text m = false := by
  decide +kernel

theorem quiet_details : ∀ d ∈ loadables, ∀ a ∈ d.details, Quiet a := by
  decide +kernel

/-- A dependency of a stage spells a mark exactly if the directory does that it is looked up in. -/
theorem contains_loadable {directory : Path} {d : Dependency} (hd : d ∈ loadables) {m : String}
    (hm : m ∈ marks) :
    (Line.dependency (d.rootedAt directory)).contains m = hasText directory.text m := by
  obtain ⟨habsolute, hquiet⟩ := unmarked_loadables d hd
  have hpath : hasText (directory.join d.path).text m = hasText directory.text m :=
    hasText_join hm habsolute (hquiet m hm)
  have htext : (Line.dependency (d.rootedAt directory)).text =
      call d.function (quoted (directory.join d.path).text :: d.details) := by
    rw [Line.text, Dependency.text_eq_call]
    cases d <;> rfl
  rw [Line.contains, htext, ← hpath, Bool.eq_iff_iff]
  constructor
  · intro h
    rcases hasText_call hm h with hfunction | ⟨a, ha, hargument⟩
    · rw [unmarked_functions m hm _ (List.mem_append_left _ d.function_mem)] at hfunction
      cases hfunction
    · rcases List.mem_cons.1 ha with rfl | ha
      · exact ((cites_quoted _).hasText_eq hm).symm.trans hargument
      · rw [(quiet_details d hd a ha).unmarked m hm] at hargument
        cases hargument
  · intro h
    exact hasText_call_of_mem List.mem_cons_self (((cites_quoted _).hasText_eq hm).trans h)

/-! ## Prefetching -/

theorem prefetchLine_contains (threads : Nat) :
    (prefetchLine threads).contains Script.prefetchMark = true ∧
      (prefetchLine threads).contains Script.restrictionMark = false := by
  constructor
  · rw [prefetchLine, Line.contains, hasText_iff, Line.text, toList_call, List.append_cons]
    exact (List.prefix_append _ _).isInfix
  · rw [← Bool.not_eq_true]
    intro h
    have hm : Script.restrictionMark ∈ marks := by decide
    rcases hasText_call hm h with hfunction | ⟨a, ha, hargument⟩
    · exact absurd hfunction (by decide +kernel)
    · rw [List.mem_singleton.1 ha, (quiet_numeral threads).unmarked _ hm] at hargument
      cases hargument

/-! ## Jobs -/

/-- The end of a script that is made for so many threads. -/
def Script.prefetching (threads : Nat) : List Line :=
  if 1 < threads then [prefetchLine threads] else []

theorem Script.eq_of_mem_prefetching {threads : Nat} {l : Line} (h : l ∈ prefetching threads) :
    l = prefetchLine threads := by
  unfold prefetching at h
  split at h
  · exact List.mem_singleton.1 h
  · cases h

/-- The script can be restricted to a range of frames, by one line ahead of its prefetch or at its
end, and there is nothing else to lift before or behind. -/
structure Script.Restricts (s : Script) (threads : Nat) (r : FrameRange) : Prop where
  unmarked : s.restrictions = 0
  whole : s.unrestrict = s
  placed : ∃ front, s.lines = front ++ prefetching threads ∧
    (s.restrict r).lines = front ++ restrictingLine r :: prefetching threads
  marked : (s.restrict r).restrictions = 1
  lifted : (s.restrict r).unrestrict = s

namespace Job

open Restoration.Graph Script

variable {j : Job} {e : Engine} {s : Script} {m : String}

/-- The stages of a plan but for prefetching. -/
def ahead (j : Job) (e : Engine) : List Stage :=
  j.front e ++ .output :: if e.preview then [.preview] else []

theorem stages_eq_ahead (j : Job) (e : Engine) :
    j.stages e = j.ahead e ++ if 1 < e.threads then [.prefetch e.threads] else [] := by
  rw [stages_eq, ahead, back, List.append_assoc, List.cons_append]

/-- Does a path that the job's script cites spell this text? -/
def spells (j : Job) (e : Engine) (m : String) : Bool :=
  hasText j.source.text m || hasText e.pluginDirectory.text m ||
    (j.stabilization.isSome && hasText j.directory.text m)

theorem marked_of_mem_cut? {preview : Bool} {cut : FrameCut} (h : cut ∈ j.cut? preview) :
    cut.marked = false := by
  unfold cut? at h
  split at h
  · dsimp only at h
    split at h <;> cases h
    rfl
  · cases h

/-- The stages ahead of prefetching that name a file or write a comment; the others do neither. -/
theorem mem_ahead {stage : Stage} (h : stage ∈ j.ahead e) :
    (∃ rate, stage = .source j.source rate) ∨
      (∃ o, j.stabilization = some o ∧ stage = .deshake (j.deshaking .stabilize o)) ∨
      stage = .preview ∨
      stage.file? = none ∧ stage.comment? = none ∧ ∀ n, stage ≠ .prefetch n := by
  simp only [ahead, front, List.mem_append, List.mem_cons] at h
  rcases h with ((h | h) | h) | rfl | h
  · simp only [opening, List.mem_append, List.mem_singleton, Option.mem_toList,
      Option.map_eq_some_iff] at h
    rcases h with (rfl | ⟨rate, -, rfl⟩) | ⟨cut, hcut, rfl⟩
    · exact .inl ⟨_, rfl⟩
    · exact .inr (.inr (.inr ⟨rfl, rfl, by simp⟩))
    · have hunmarked : (Stage.trim cut).comment? = none := by
        rw [Stage.comment?, marked_of_mem_cut? hcut]
        rfl
      exact .inr (.inr (.inr ⟨rfl, hunmarked, by simp⟩))
  · rcases mem_picture h with ⟨_, rfl⟩ | ⟨_, -, rfl⟩ | ⟨-, rfl⟩ | h | ⟨_, rfl⟩
    · exact .inr (.inr (.inr ⟨rfl, rfl, by simp⟩))
    · exact .inr (.inr (.inr ⟨rfl, rfl, by simp⟩))
    · exact .inr (.inr (.inr ⟨rfl, rfl, by simp⟩))
    · rcases mem_enlarging h with ⟨-, _, rfl⟩ | h
      · exact .inr (.inr (.inr ⟨rfl, rfl, by simp [doubling]⟩))
      · rcases mem_motion h with ⟨_, -, rfl⟩ | ⟨o, ho, rfl⟩ | ⟨_, -, rfl⟩
        · exact .inr (.inr (.inr ⟨rfl, rfl, by simp⟩))
        · exact .inr (.inl ⟨o, ho, rfl⟩)
        · exact .inr (.inr (.inr ⟨rfl, rfl, by simp⟩))
    · exact .inr (.inr (.inr ⟨rfl, rfl, by simp⟩))
  · rw [mem_correction h]
    exact .inr (.inr (.inr ⟨rfl, rfl, by simp⟩))
  · exact .inr (.inr (.inr ⟨rfl, rfl, by simp⟩))
  · split at h
    · exact .inr (.inr (.inl (List.mem_singleton.1 h)))
    · cases h

/-- Only a path can make a line ahead of prefetching spell a mark. -/
theorem spells_of_contains (h : j.render e (j.ahead e) = .ok s) (hm : m ∈ marks) :
    ∀ l ∈ s.lines, l.contains m = true → j.spells e m = true := by
  have hplain : ∀ f ∈ plainFunctions, hasText (f ++ "(") m = false := fun f hf =>
    unmarked_functions m hm f (List.mem_append_right _ hf)
  refine forall_mem_rendered (fun d hd hl => ?_) (fun l hspells hl => ?_)
    (fun stage hstage l hspells hl => ?_) h
  · have hdirectory := (contains_loadable hd hm).symm.trans hl
    simp [spells, show hasText e.pluginDirectory.text m = true from hdirectory]
  · obtain ⟨p, hp, -⟩ := hspells.hasText_file hm
      (fun f hf => hplain f (by simp [plainFunctions, hf])) (by simp) hl
    cases hp
  · have hfunctions : ∀ {stage : Stage}, (∀ n, stage ≠ .prefetch n) →
        ∀ f ∈ stage.functions, hasText (f ++ "(") m = false := fun {stage} hprefetch f hf =>
      hplain f (stage.functions_plain.resolve_right (fun h => h.elim hprefetch) hf)
    rcases mem_ahead hstage with ⟨rate, rfl⟩ | ⟨o, ho, rfl⟩ | rfl | ⟨hfile, hcomment, hprefetch⟩
    · obtain ⟨p, hp, htext⟩ := hspells.hasText_file hm (hfunctions (by simp))
        (by simp [Stage.comment?]) hl
      cases hp
      simp [spells, show hasText j.source.text m = true from htext]
    · obtain ⟨p, hp, htext⟩ := hspells.hasText_file hm (hfunctions (by simp))
        (by simp [Stage.comment?]) hl
      cases hp
      have hlog := (hasText_path hm .motionLog).symm.trans htext
      simp [spells, ho, hlog]
    · obtain ⟨p, hp, -⟩ := hspells.hasText_file hm (hfunctions (by simp))
        (by rintro c ⟨⟩; exact unmarked_preview m hm) hl
      cases hp
    · obtain ⟨p, hp, -⟩ := hspells.hasText_file hm (hfunctions hprefetch) (by simp [hcomment]) hl
      rw [hfile] at hp
      cases hp

theorem ahead_eq_source (j : Job) (e : Engine) :
    ∃ rate rest, j.ahead e = .source j.source rate :: rest :=
  ⟨_, _, rfl⟩

theorem deshake_mem_ahead {o : Stabilization} (h : j.stabilization = some o) :
    .deshake (j.deshaking .stabilize o) ∈ j.ahead e := by
  have hmotion : .deshake (j.deshaking .stabilize o) ∈ j.motion e := by simp [motion, h]
  have henlarging : .deshake (j.deshaking .stabilize o) ∈ j.enlarging e := by
    unfold enlarging
    split <;> simp [hmotion]
  simp [ahead, front, picture, henlarging]

/-- Every path that spells a mark is cited in some line. -/
theorem exists_contains (h : j.render e (j.ahead e) = .ok s) (hm : m ∈ marks)
    (hspells : j.spells e m = true) : ∃ l ∈ s.lines, l.contains m = true := by
  obtain ⟨rate, rest, hahead⟩ := ahead_eq_source j e
  simp only [spells, Bool.or_eq_true, Bool.and_eq_true] at hspells
  rcases hspells with (hsource | hplugins) | ⟨hsome, hdirectory⟩
  · obtain ⟨fed, st, hst, hlines⟩ := mem_render_of_mem h (hahead ▸ List.mem_cons_self)
    cases hst
    refine ⟨_, hlines _ (List.mem_singleton.2 rfl) rfl, ?_⟩
    exact hasText_call_of_mem (List.mem_append_left _ List.mem_cons_self)
      (((cites_quoted j.source.forEngine).hasText_eq hm).trans hsource)
  · rw [hahead] at h
    exact ⟨_, mem_render_source h, (contains_loadable (by decide) hm).trans hplugins⟩
  · obtain ⟨o, ho⟩ := Option.isSome_iff_exists.1 hsome
    obtain ⟨fed, st, hst, hlines⟩ := mem_render_of_mem h (deshake_mem_ahead ho)
    cases hst
    refine ⟨_, hlines (.term (call "Deshaker" [(j.deshaking .stabilize o).settingsText]))
      (by simp [Deshaking.statements]) rfl, ?_⟩
    refine hasText_call_of_mem (List.mem_singleton.2 rfl) ?_
    rw [(Deshaking.cites_settingsText _).hasText_eq hm]
    exact (hasText_path hm .motionLog).trans hdirectory

theorem spells_eq_false_iff (h : j.render e (j.ahead e) = .ok s) (hm : m ∈ marks) :
    j.spells e m = false ↔ ∀ l ∈ s.lines, l.contains m = false := by
  constructor
  · intro hspells l hl
    rw [← Bool.not_eq_true]
    intro hcontains
    rw [spells_of_contains h hm l hl hcontains] at hspells
    cases hspells
  · intro hlines
    rw [← Bool.not_eq_true]
    intro hspells
    obtain ⟨l, hl, hcontains⟩ := exists_contains h hm hspells
    rw [hlines l hl] at hcontains
    cases hcontains

/-- The script of a job ends in its prefetch, if it has one. -/
theorem render_of_compile_ahead (h : j.compile e = .ok s) :
    ∃ t, j.render e (j.ahead e) = .ok t ∧ s.lines = t.lines ++ prefetching e.threads := by
  have hrender := render_of_compile h
  rw [stages_eq_ahead] at hrender
  unfold prefetching
  split at hrender
  · rename_i hthreads
    rw [if_pos hthreads]
    exact render_prefetch hrender
  · rename_i hthreads
    rw [if_neg hthreads, List.append_nil] at *
    exact ⟨s, hrender, by simp⟩

/-- **Restrictions come and go cleanly exactly if no path spells a mark.** A path with the text that
gives restricting lines away has its line removed together with them. A path with the text of a
prefetch is harmless where the script ends in a true one; elsewhere the cut is put ahead of the line
that cites the path. -/
theorem restricts_iff (h : j.compile e = .ok s) (r : FrameRange) : s.Restricts e.threads r ↔
    j.spells e restrictionMark = false ∧ (e.threads ≤ 1 → j.spells e prefetchMark = false) := by
  obtain ⟨t, ht, hlines⟩ := render_of_compile_ahead h
  rw [spells_eq_false_iff ht (by decide), spells_eq_false_iff ht (by decide)]
  constructor
  · intro hs
    have hunmarked := unrestrict_eq_self_iff.1 hs.whole
    refine ⟨fun l hl => hunmarked l (by simp [hlines, hl]), fun hthreads => ?_⟩
    obtain ⟨front, hfront, hplaced⟩ := hs.placed
    have hend : prefetching e.threads = [] := if_neg (by omega)
    rw [hend, List.append_nil] at hlines hfront
    rw [hend, restrict, hs.whole, ← hfront] at hplaced
    rw [← hlines]
    refine forall_of_insertBeforeLast (fun hmem => ?_) hplaced
    have hmarked := hunmarked _ hmem
    rw [contains_restrictingLine] at hmarked
    cases hmarked
  · rintro ⟨hrestriction, hprefetch⟩
    have hunmarked : ∀ l ∈ s.lines, l.contains restrictionMark = false := by
      intro l hl
      rw [hlines, List.mem_append] at hl
      rcases hl with hl | hl
      · exact hrestriction l hl
      · rw [eq_of_mem_prefetching hl]
        exact (prefetchLine_contains _).2
    have hwhole : s.unrestrict = s := unrestrict_eq_self_iff.2 hunmarked
    refine ⟨hwhole ▸ restrictions_unrestrict s, hwhole, ⟨t.lines, hlines, ?_⟩,
      restrictions_restrict s r, (unrestrict_restrict s r).trans hwhole⟩
    rw [restrict, hwhole]
    by_cases hthreads : 1 < e.threads
    · have hend : prefetching e.threads = [prefetchLine e.threads] := if_pos hthreads
      have hs : s = ⟨t.lines ++ [prefetchLine e.threads]⟩ := congrArg Script.mk (hend ▸ hlines)
      rw [hs, hend]
      exact insertBeforeLast_of_last (prefetchLine_contains _).1 _
    · have hend : prefetching e.threads = [] := if_neg hthreads
      rw [hend, List.append_nil] at hlines
      rw [hend, ← hlines]
      exact insertBeforeLast_of_forall (hlines ▸ hprefetch (by omega)) _

theorem restricts_iff_prefetching :
    ∃ s, Job.compile
        { source := ⟨"/media/segment # 1.mkv"⟩, directory := ⟨"/jobs"⟩, index := 1,
          stabilization := some {} } { threads := 4 } = .ok s ∧ s.Restricts 4 ⟨300, 499⟩ := by
  obtain ⟨s, hs⟩ := (compile_ok_iff
    { source := ⟨"/media/segment # 1.mkv"⟩, directory := ⟨"/jobs"⟩, index := 1,
      stabilization := some {} } { threads := 4 }).2 rfl
  exact ⟨s, hs, (restricts_iff hs ⟨300, 499⟩).2 ⟨by decide +kernel, by decide⟩⟩

/-- A source is taken away for its name, and another is cut ahead of the line that opens it. -/
theorem paths_mislead_restriction :
    (∃ s, Job.compile { source := ⟨"/media/# segment.mkv"⟩, directory := ⟨"/jobs"⟩, index := 1 } {} =
        .ok s ∧ s.restrictions = 1 ∧
      s.unrestrict.lines = [.dependency (.loadPlugin ⟨"plugins/LSMASHSource.dll"⟩)]) ∧
    ∃ s, Job.compile { source := ⟨"/media/Prefetch(1).mkv"⟩, directory := ⟨"/jobs"⟩, index := 1 } {} =
        .ok s ∧
      (s.restrict ⟨0, 9⟩).lines = [.dependency (.loadPlugin ⟨"plugins/LSMASHSource.dll"⟩),
        restrictingLine ⟨0, 9⟩, sourceLine ⟨"/media/Prefetch(1).mkv"⟩ none] := by
  refine ⟨⟨_, rfl, ?_, ?_⟩, ⟨_, rfl, ?_⟩⟩
  · decide +kernel
  · decide +kernel
  · rfl

end Job

end Restoration
