import Unbundle.Proofs.Disk.Alike
import Unbundle.Proofs.Output.Offers

/-!
Writing to two outputs on disks that are alike. Main statement: what is written by a path that keeps
to places where both disks have a file or none has the same outcome on both.
-/

namespace Unbundle

open Disk Unbundle.Path

namespace Output

variable {differ : Difference} {policy : OverwritePolicy} {root : Bytes}

/-- Two outputs that know the same files, on one device with disks that are alike. -/
structure Alike (differ : Difference) (output other : Output) : Prop where
  disk : Disk.Alike differ output.disk other.disk
  index : other.index = output.index
  device : other.device = output.device

private theorem put_alike {disk other : Disk} {target : Bytes}
    (alike : Disk.Alike differ disk other)
    (keeps : disk.Keeps differ target) (content : Bytes) :
    (put other target content).1 = (put disk target content).1 ∧
      Disk.Alike differ (put disk target content).2 (put other target content).2 := by
  have parent : (makeParent other target).1 = (makeParent disk target).1 ∧
      Disk.Alike differ (makeParent disk target).2 (makeParent other target).2 := by
    rw [makeParent, makeParent]
    by_cases top : Path.parent target = []
    · rw [if_pos top, if_pos top]
      exact ⟨rfl, alike⟩
    · rw [if_neg top, if_neg top]
      exact alike.makeDirectories keeps.parent
  have current := (makeParent_sameOutside disk target).1
  rw [put, put]
  generalize makeParent disk target = result, makeParent other target = result'
    at parent current ⊢
  obtain ⟨problem, middle⟩ := result
  obtain ⟨problem', middle'⟩ := result'
  obtain ⟨rfl, alike⟩ : problem' = problem ∧ Disk.Alike differ middle middle' := parent
  cases problem' with
  | some problem => exact ⟨rfl, alike⟩
  | none =>
    have written := alike.write (keeps.congr current) content
    dsimp only
    generalize middle.write target content = result, middle'.write target content = result'
      at written ⊢
    cases written with
    | error problem => exact ⟨rfl, alike⟩
    | ok after => exact ⟨rfl, after⟩

namespace Alike

variable {output other : Output} {path : Bytes}

theorem record (alike : Alike differ output other) (path : Bytes) (print : Fingerprint) :
    Alike differ (output.record path print) (other.record path print) :=
  ⟨alike.disk, congrArg (·.insert path print) alike.index, alike.device⟩

theorem store (alike : Alike differ output other) {target : Bytes}
    (keeps : output.disk.Keeps differ target) (content : Bytes) :
    (other.store target content).1 = (output.store target content).1 ∧
      Disk.Alike differ (output.store target content).2 (other.store target content).2 := by
  have stored := put_alike alike.disk keeps (output.device.taken target content)
  rw [Output.store, Output.store, alike.device]
  generalize put output.disk target (output.device.taken target content) = result,
    put other.disk target (output.device.taken target content) = result' at stored ⊢
  obtain ⟨done, disk⟩ := result
  obtain ⟨done', disk'⟩ := result'
  obtain ⟨rfl, after⟩ : done' = done ∧ Disk.Alike differ disk disk' := stored
  cases done' with
  | error failure => exact ⟨rfl, after⟩
  | ok whole =>
    dsimp only
    split <;> exact ⟨rfl, after⟩

theorem write (alike : Alike differ output other)
    (keeps : output.disk.Keeps differ (below root path)) (policy : OverwritePolicy)
    (content : Bytes) :
    (other.write policy root path content).1 = (output.write policy root path content).1 ∧
      Alike differ (output.write policy root path content).2
        (other.write policy root path content).2 := by
  have kept : other.isKept policy (below root path) = output.isKept policy (below root path) := by
    rw [isKept, isKept, alike.disk.presence_eq keeps]
  have stored := alike.store keeps content
  rw [Output.write, Output.write, alike.index]
  cases output.index[path]? with
  | some print =>
    dsimp only
    by_cases agrees : print.agrees (.ofContent content) = true
    · rw [if_pos agrees, if_pos agrees]
      exact ⟨rfl, alike⟩
    · rw [if_neg agrees, if_neg agrees]
      exact ⟨rfl, alike⟩
  | none =>
    dsimp only
    rw [kept]
    cases output.isKept policy (below root path) with
    | error problem => exact ⟨rfl, alike⟩
    | ok keeping =>
      cases keeping with
      | true => exact ⟨rfl, alike.record path _⟩
      | false =>
        dsimp only
        generalize output.store (below root path) content = result,
          other.store (below root path) content = result' at stored ⊢
        obtain ⟨done, disk⟩ := result
        obtain ⟨done', disk'⟩ := result'
        obtain ⟨rfl, after⟩ : done' = done ∧ Disk.Alike differ disk disk' := stored
        have still : Alike differ { output with disk }
            { disk := disk', index := output.index, device := other.device } :=
          ⟨after, rfl, alike.device⟩
        cases done' with
        | error failure => exact ⟨rfl, still⟩
        | ok stored => exact ⟨rfl, still.record path _⟩

end Alike

end Output

end Unbundle
