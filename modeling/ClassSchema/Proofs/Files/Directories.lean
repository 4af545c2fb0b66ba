import ClassSchema.Files.Tree
import ClassSchema.Proofs.OrderedMaps

/-!
# Making directories

Where a directory is made nothing was before, so making directories leaves the files as
they are, also where it fails halfway.

## Main results

* `FileTree.files_put_directory`: a new directory changes no file.
* `FileTree.KeepsFiles.ensureDirectories`: making a directory and its parents keeps all
  files.
-/

namespace ClassSchema

namespace FileTree

/-- A directory where nothing was changes no file. -/
theorem files_put_directory {tree : FileTree} {location : Location}
    (h : tree.node location = none) : (tree.put location .directory).files = tree.files := by
  cases location with
  | nil => cases h
  | cons name rest =>
      have hEntries : (tree.put (name :: rest) .directory).entries =
          tree.entries ++ [(name :: rest, .directory)] :=
        OrderedMap.put_of_notMem (OrderedMap.notMem_keys_of_get?_eq_none h) _
      unfold files
      rw [hEntries, List.filterMap_append]
      exact List.append_nil _

theorem files_makeDirectory {tree new : FileTree} {path : String}
    (h : tree.makeDirectory path = .ok new) : new.files = tree.files := by
  obtain ⟨-, h⟩ := attempt_eq_ok_iff.mp h
  simp only [bind, Except.bind, makeIn] at h
  split at h
  · cases h
  · split at h
    · cases h
    · split at h
      · cases h
      · next hNone => rw [← Except.ok.inj h, files_put_directory hNone]

/-- The tree in which a step ended. -/
def behind {α : Type} : EStateM.Result FileError FileTree α → FileTree
  | .ok _ tree => tree
  | .error _ tree => tree

/-- A step that leaves the files as they are, however it ends. -/
def KeepsFiles {α : Type} (step : EStateM FileError FileTree α) : Prop :=
  ∀ tree, (behind (step tree)).files = tree.files

namespace KeepsFiles

variable {α β : Type}

theorem pure (value : α) : KeepsFiles (Pure.pure value) := fun _ => rfl

/-- Two steps, one behind the other. -/
theorem bind {first : EStateM FileError FileTree α} {next : α → EStateM FileError FileTree β}
    (hFirst : KeepsFiles first) (hNext : ∀ value, KeepsFiles (next value)) :
    KeepsFiles (first >>= next) := by
  intro tree
  have kept := hFirst tree
  simp only [Bind.bind, EStateM.bind]
  cases hResult : first tree with
  | error e after =>
      rw [hResult] at kept
      exact kept
  | ok value after =>
      rw [hResult] at kept
      exact (hNext value after).trans kept

theorem forM {items : List α} {step : α → EStateM FileError FileTree PUnit}
    (h : ∀ item, KeepsFiles (step item)) : KeepsFiles (items.forM step) := by
  induction items with
  | nil => exact pure _
  | cons item rest ih => exact bind (h item) fun _ => ih

theorem ensureDirectory (path : String) : KeepsFiles (ensureDirectory path) := by
  intro tree
  unfold FileTree.ensureDirectory
  cases hMake : tree.makeDirectory path with
  | ok new => exact files_makeDirectory hMake
  | error e =>
      dsimp only
      split <;> rfl

theorem ensureParent (path : String) : KeepsFiles (ensureParent path) := by
  intro tree
  have kept := ensureDirectory path tree
  unfold FileTree.ensureParent
  split
  · next hResult =>
      rw [hResult] at kept
      exact kept
  · exact kept

/-- **Making a directory keeps all files**, and so does making the parents that it lacks. -/
theorem ensureDirectories (path : String) : KeepsFiles (ensureDirectories path) := by
  intro tree
  unfold FileTree.ensureDirectories
  dsimp only
  split
  · exact ensureDirectory path tree
  · refine bind (ensureParent _) (fun _ => bind (forM fun _ => ensureParent _) fun _ => ?_) tree
    split
    · exact ensureDirectory path
    · exact pure _

end KeepsFiles

end FileTree

end ClassSchema
