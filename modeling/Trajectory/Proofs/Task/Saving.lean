import Trajectory.Proofs.Solver.Saving
import Trajectory.Task.Solving

namespace Trajectory

namespace Task

open Session (Action Publish Result answer)

section Solving

variable {α μ : Type} [Scalar α] [Numeral α]

/-- A task is solved if it can be applied, its run returns points and these are saved, if there is a file to
save them to. -/
theorem solve_eq_ok_iff {publish : Publish α μ} {fuel : Nat} {t : Task α} {points : List (Point α)}
    {w v : World (Session.protocol α μ)} : t.solve publish fuel w = .ok (.ok points) v ↔
      ∃ applied ran, t.apply publish w = .ok (.ok ()) applied ∧
        Session.run publish fuel t.adaptive applied = .ok (.ok points) ran ∧
          match t.csv? with
          | none => v = ran
          | some file => Session.save file ran = .ok (.ok ()) v := by
  constructor
  · intro h
    obtain ⟨result, applied, happly, h⟩ := Act.bind_eq_ok_iff.mp h
    cases result with
    | error e => cases h
    | ok _ =>
      obtain ⟨result, ran, hrun, h⟩ := Act.bind_eq_ok_iff.mp h
      cases result with
      | error e => cases h
      | ok found =>
        cases hfile : t.csv? with
        | none =>
          simp only [hfile] at h
          cases h
          exact ⟨applied, v, happly, hrun, rfl⟩
        | some file =>
          simp only [hfile] at h
          obtain ⟨saved, after, hsave, h⟩ := Act.bind_eq_ok_iff.mp h
          cases saved with
          | error e => cases h
          | ok _ =>
            cases h
            exact ⟨applied, ran, happly, hrun, hsave⟩
  · rintro ⟨applied, ran, happly, hrun, hlast⟩
    refine (Act.bind_of_ok happly).trans ((Act.bind_of_ok hrun).trans ?_)
    cases hfile : t.csv? with
    | none =>
      simp only [hfile] at hlast ⊢
      rw [hlast]
      rfl
    | some file =>
      simp only [hfile] at hlast ⊢
      exact (Act.bind_of_ok hlast).trans rfl

open Session (filesIn LogsTo savedLine)

end Solving

section Example

open Session (returned? eq_ok_of_returned newWorld filesIn LogsTo)

/-- A task that runs over the standard range in fixed steps. -/
def climb : Task Fraction :=
  { equations := ["y' = 1"], conditions := .ofList [("y", Scalar.one)], adaptive := false }

def climbFile : String := "points.csv"

def climbTree : FileTree := { working := ⟨["work", "tmp"]⟩ }

def climbPlace : Location := ⟨climbTree.working, climbFile⟩

theorem namesOf_eq (path : String) : Path.namesOf path =
    ((path.toList.splitOnP fun c => c == '/').map String.ofList).filter fun name => !name.isEmpty := by
  have hsplit := String.toList_split_bool (s := path) (p := fun c => c == '/')
  rw [Path.namesOf, ← hsplit]
  rfl

theorem target_climbFile : climbTree.target climbFile = .ok climbPlace := by
  have hnul : climbFile.contains '\x00' = false := by
    rw [String.contains_char_eq]
    decide +kernel
  have hnames : Path.namesOf climbFile = [climbFile] := by
    rw [namesOf_eq]
    decide +kernel
  have hpath : Path.ofText climbFile = .ok ⟨false, [climbFile], false⟩ := by
    rw [Path.ofText, hnul, hnames]
    decide +kernel
  have hfree : climbTree.directory? climbTree.working climbFile = none := by
    simp only [FileTree.directory?, FileTree.isDirectory, FileTree.usualDirectories, FileTree.links,
      Device.directory, Device.process, Device.openFiles, Directory.ofText, namesOf_eq, List.map]
    decide +kernel
  have hfollow : climbTree.follow climbTree.working [climbFile] = .ok (.inr climbPlace) := by
    rw [FileTree.follow, hfree]
    rfl
  have hlocate : climbTree.locate ⟨false, [climbFile], false⟩ = .ok climbPlace :=
    bind_eq_ok.mpr ⟨_, hfollow, rfl⟩
  have hname : Path.checkName climbFile = .ok () := by decide +kernel
  refine bind_eq_ok.mpr ⟨_, hpath, bind_eq_ok.mpr ⟨_, hlocate, ?_⟩⟩
  exact bind_eq_ok.mpr ⟨(), hname, rfl⟩

theorem hasRoom_climbFile {files : FileTree} (h : files.working = climbTree.working) :
    files.HasRoom climbFile := by
  have hdevice : Device.at? climbPlace = none := by
    simp only [Device.at?, Device.all, Device.directory, Device.openFiles, Directory.ofText, namesOf_eq]
    decide +kernel
  have htakes : FileTree.takesFile climbPlace = true := by
    simp only [FileTree.takesFile, Directory.ofText, namesOf_eq]
    decide +kernel
  exact FileTree.hasRoom_of_target (FileTree.target_eq_ok h target_climbFile) hdevice htakes

end Example

end Task

end Trajectory
