import Restoration.Proofs.CommandLine.Act
import Restoration.Proofs.Encoding.Clearing
import Restoration.Proofs.Job.Record

/-!
# Cleaning up

A job that is given up is cleared away like one that is finished, by its record. Its delivery stays:

    clean o c   →   no file under a name that the job owns, and any other file as it was
-/

namespace Restoration

open FileTree Work

variable {job : Job} {D : Place}

namespace CommandLine

/-! ## Cleaning up -/

namespace Act

theorem clean_run {o : Options} {c : Console} {names : List String}
    (hload : Job.load c.desk.files (file o) = .ok job)
    (hlist : c.desk.files.list job.directory = .ok names) :
    clean o c =
      let fragments := (names.filter fun n => job.classify n ≠ .foreign).map fun n =>
        job.directory.join ⟨n⟩
      let cleared := (Encoding.removeIntermediates job fragments c.desk.files).removeHeld (file o)
      require (.removal (file o)) cleared.1 { c with desk := { c.desk with files := cleared.2 } } := by
  simp only [clean, loadJob, bind_run, files_run, hload, require_ok, hlist, setFiles_run]

end Act

/-- Cleaning up leaves nothing that is the job's own, and its delivery as it is. -/
theorem cleared_of_clean {o : Options} {c : Console} (hnamed : c.desk.files.WellNamed)
    (hload : Job.load c.desk.files (Act.file o) = .ok job)
    (hD : c.desk.files.look job.directory = .ok (D, .folder))
    (hrecord : c.desk.files.resolve (Act.file o) = .ok (D ++ [job.fileName .record])) :
    (Act.clean o c).1 = .ok () ∧
      job.Cleared D (fun _ => False) c.desk.files (Act.clean o c).2.desk.files := by
  rw [Act.clean_run hload (list_of_look hD)]
  dsimp only
  obtain ⟨s, hs⟩ : ∃ s, c.desk.files.readText (Act.file o) = .ok s := by
    rw [Job.load] at hload
    split at hload
    · cases hload
    · exact ⟨_, ‹_›⟩
  obtain ⟨place, x, hplace, hnode, hasks⟩ := readText_ok hs
  have howned : ∀ p ∈ ((c.desk.files.names D).filter fun n => job.classify n ≠ .foreign).map
      fun n => job.directory.join ⟨n⟩, ∃ n, job.Owns n ∧ IsName n ∧ p = job.directory.join ⟨n⟩ := by
    intro p hp
    obtain ⟨n, hn, rfl⟩ := List.mem_map.1 hp
    obtain ⟨hn, hfragment⟩ := List.mem_filter.1 hn
    obtain ⟨howns, hname⟩ := Job.owns_of_mem_names hnamed hn (by simpa using hfragment)
    exact ⟨n, howns, hname, rfl⟩
  have hall : ∀ n, IsName n → job.classify n ≠ .foreign → ∀ s x,
      c.desk.files.node? (D ++ [n]) = some (.file s x) → job.directory.join ⟨n⟩ ∈
        ((c.desk.files.names D).filter fun n => job.classify n ≠ .foreign).map
          fun n => job.directory.join ⟨n⟩ := by
    intro n _ hfragment s x hfile
    refine List.mem_map_of_mem (List.mem_filter.2 ⟨?_, by simpa using hfragment⟩)
    exact (mem_names _ D n).2 (by simp [hfile])
  obtain ⟨hsame, hgone⟩ := Job.removeAll_intermediates hnamed hD howned hall hrecord hasks
  generalize ((c.desk.files.names D).filter fun n => job.classify n ≠ .foreign).map
    (fun n => job.directory.join ⟨n⟩) = fragments at hsame hgone ⊢
  have hothers : SameBut (fun _ => True) c.desk.files
      (Encoding.removeIntermediates job fragments c.desk.files) :=
    sameBut_removeAll _ _ fun _ _ _ _ => trivial
  have hremoved : ((Encoding.removeIntermediates job fragments c.desk.files).removeHeld
      (Act.file o)).1 = .ok () := by
    cases hr : ((Encoding.removeIntermediates job fragments c.desk.files).removeHeld
      (Act.file o)).1 with
    | ok u => rfl
    | error cause =>
      -- only a folder cannot be removed, and the record is none
      have hfolder := stuck_of_removeHeld hr place ((hothers.resolve_iff _ _).2 hplace) hasks
      rw [hothers.folder_iff, hnode] at hfolder
      cases hfolder
  rw [hremoved, Act.require_ok]
  have hfiles : c.desk.files.removeAll (Encoding.intermediates c.desk.files job fragments ++
      [Act.file o]) = ((Encoding.removeIntermediates job fragments c.desk.files).removeHeld
        (Act.file o)).2 := by
    rw [removeAll, List.foldl_append]
    rfl
  rw [hfiles] at hsame hgone
  exact ⟨rfl, Job.cleared_of_gone (hsame.look_folder hD) hgone (hsame.mono fun _ => .inl)
    fun _ => False.elim⟩

end CommandLine

/-- **A job clears up behind itself**, once it is finished and whenever it is cleaned up by its own
record: nothing is left under the names that it owns, and no other file but the delivery is touched,
least of all one of another job. -/
theorem clears_own_files :
    (∀ (τ : Type) (tools : Toolbox τ) (o : EncodingOptions) (b b' : Bench τ) (output : Path)
        (frames : Nat),
      tools.Modest b.job → o.keepIntermediates = false → b.desk.files.WellNamed →
      Encoding.run tools o b = (.ok (.complete output frames), b') →
      ∃ D, b.job.Cleared D (· = D ++ [b.job.fileName .delivery]) b.desk.files b'.desk.files ∧
        ∃ s x, b'.desk.files.node? (D ++ [b.job.fileName .delivery]) = some (.file s x)) ∧
    ∀ (o : CommandLine.Options) (c : CommandLine.Console) (job : Job) (D : Place),
      c.desk.files.WellNamed → Job.load c.desk.files (CommandLine.Act.file o) = .ok job →
      c.desk.files.look job.directory = .ok (D, .folder) →
      c.desk.files.resolve (CommandLine.Act.file o) = .ok (D ++ [job.fileName .record]) →
      (CommandLine.Act.clean o c).1 = .ok () ∧
        job.Cleared D (fun _ => False) c.desk.files (CommandLine.Act.clean o c).2.desk.files :=
  ⟨fun _ _ _ _ _ _ _ hmodest hkeep hnamed h => Encoding.cleared_of_run hmodest hkeep hnamed h,
    fun _ _ _ _ hnamed hload hD hrecord => CommandLine.cleared_of_clean hnamed hload hD hrecord⟩

/-! ## A neighbour whose index starts alike -/

namespace Encoding

/-- Tools that find two frames in everything, and write some text wherever a file is due. -/
def joiningTools : Toolbox Unit := { twoFrameTools with
  join _ output _ := Work.change (fun t => t.write output "frames") fun _ => .cancelled "ffmpeg" }

theorem modest_joiningTools (job : Job) : joiningTools.Modest job where
  toTidy := { tidy_twoFrameTools with }
  runScript _ d := .refl _ d.files
  join concatList output j d := by
    show SameBut _ d.files (Work.change (fun t => t.write output "frames") _ d).2.files
    rw [change_run]
    split
    · exact sameBut_write ‹_›
    · exact .refl _ d.files
  joined h := by
    obtain ⟨t, hwrite, rfl⟩ := change_ok (f := fun t => t.write _ "frames") h
    exact ⟨_, readText_of_write hwrite⟩

/-- The first job has its script, and a fragment whose name tells no start. The twelfth has a fragment
too, and its delivery. -/
def crowdedBench : Bench Unit :=
  { freshBench with desk := { freshBench.desk with files := { nodes := [
    (["jobs"], .folder), (["jobs", "Job1_Script.avs"], .file "" false),
    (["jobs", "Job1_Output_x.mkv"], .file "" false),
    (["jobs", "Job12_Output_0.mkv"], .file "" false),
    (["jobs", "Job12_Final.mkv"], .file "" false)] } } }

theorem wellNamed_crowdedBench : crowdedBench.desk.files.WellNamed :=
  .of_nodes (by decide +kernel) (by decide +kernel)

theorem run_crowdedBench : (run joiningTools {} crowdedBench).1 =
    .ok (.complete ⟨"/jobs/Job1_Final.mkv"⟩ 2) := by
  have hreport : (run joiningTools {} crowdedBench).1.toOption =
      some (.complete ⟨"/jobs/Job1_Final.mkv"⟩ 2) := by decide +kernel
  revert hreport
  cases (run joiningTools {} crowdedBench).1 <;> simp [Except.toOption]

end Encoding

namespace CommandLine

/-- A console at which the first job of the bench is filed beside what lies there. -/
def crowdedConsole : Console where
  desk := {
    files := { nodes := Encoding.crowdedBench.desk.files.nodes ++
      [(["jobs", "Job1_Settings.json"], .file Encoding.crowdedBench.job.recordText false)] }
    tools := () }

/-- The request to clean it up. -/
def cleaning : Options := { files := [⟨"/jobs/Job1_Settings.json"⟩] }

theorem wellNamed_crowdedConsole : crowdedConsole.desk.files.WellNamed :=
  .of_nodes (by decide +kernel) (by decide +kernel)

theorem load_crowdedConsole : Job.load crowdedConsole.desk.files (Act.file cleaning) =
    .ok Encoding.crowdedBench.job := by
  have hfilable : Encoding.crowdedBench.job.Filable :=
    ⟨by decide, by decide, fun _ hx => nomatch hx⟩
  have hread : crowdedConsole.desk.files.readText (Act.file cleaning) =
      .ok Encoding.crowdedBench.job.recordText := rfl
  rw [Job.load, hread]
  simp only [Job.ofText_recordText hfilable]
  rfl

end CommandLine

open Encoding CommandLine in
theorem clears_own_files_crowded :
    (∃ D, crowdedBench.job.Cleared D (· = D ++ [crowdedBench.job.fileName .delivery])
      crowdedBench.desk.files (run joiningTools {} crowdedBench).2.desk.files) ∧
    (Act.clean cleaning crowdedConsole).1 = .ok () ∧
      crowdedBench.job.Cleared ["jobs"] (fun _ => False) crowdedConsole.desk.files
        (Act.clean cleaning crowdedConsole).2.desk.files := by
  obtain ⟨hrun, hclean⟩ := clears_own_files
  constructor
  · obtain ⟨D, hcleared, -⟩ := hrun Unit joiningTools {} crowdedBench _ _ _
      (modest_joiningTools _) rfl wellNamed_crowdedBench (Prod.ext run_crowdedBench rfl)
    exact ⟨D, hcleared⟩
  · have hrecord : crowdedBench.job.fileName .record = "Job1_Settings.json" := by decide +kernel
    refine hclean cleaning crowdedConsole crowdedBench.job ["jobs"] wellNamed_crowdedConsole
      load_crowdedConsole rfl ?_
    rw [hrecord]
    rfl

end Restoration
