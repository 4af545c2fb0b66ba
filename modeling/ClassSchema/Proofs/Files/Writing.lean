import ClassSchema.Files.Tree
import ClassSchema.Proofs.Text.Parts

/-!
# Files beside a written one

A write changes what stands at one location.  Two names in one directory stand for
two locations, so a file keeps its bytes while another one of its directory is
written.

## Main results

* `Path.exists_names_join`: the names of a path in a directory.
* `FileTree.read_of_write_beside`: a file is left alone by a write beside it.
-/

namespace ClassSchema

namespace Path

/-- The names of a path in a directory are some that only depend on the directory, and the name
in it. -/
theorem exists_names_join (directory : String) :
    ∃ parents, ∀ name : String, '/' ∉ name.toList →
      names (join directory name) = parents ++ [name] := by
  by_cases hEnd : directory.toList.getLast? = some '/' ∨ directory = ""
  · rcases hEnd with hSlash | rfl
    · obtain ⟨inner, hInner⟩ := List.getLast?_eq_some_iff.mp hSlash
      refine ⟨(Separated.split '/' inner).map String.ofList, fun name hName => ?_⟩
      have relative : isAbsolute name = false := by
        simpa [isAbsolute] using fun hHead => hName (List.mem_of_head? hHead)
      simp [names, join, relative, hInner, List.append_assoc, Separated.split_append,
        Separated.split_eq_singleton hName]
    · refine ⟨[], fun name hName => ?_⟩
      have relative : isAbsolute name = false := by
        simpa [isAbsolute] using fun hHead => hName (List.mem_of_head? hHead)
      simp [names, join, relative, Separated.split_eq_singleton hName]
  · refine ⟨names directory, fun name hName => ?_⟩
    have relative : isAbsolute name = false := by
      simpa [isAbsolute] using fun hHead => hName (List.mem_of_head? hHead)
    obtain ⟨hLast, hEmpty⟩ := not_or.mp hEnd
    simp [names, join, relative, hLast, hEmpty, Separated.split_append,
      Separated.split_eq_singleton hName]

/-- A path in a directory starts where the directory does. -/
theorem isAbsolute_join (directory : String) {name : String} (h : '/' ∉ name.toList) :
    isAbsolute (join directory name) = isAbsolute directory := by
  have relative : isAbsolute name = false := by
    simpa [isAbsolute] using fun hHead => h (List.mem_of_head? hHead)
  by_cases hEmpty : directory = ""
  · subst hEmpty
    have hJoin : join "" name = name := by simp [join, relative]
    rw [hJoin, relative]
    rfl
  · have hHead (rest : String) : isAbsolute (directory ++ rest) = isAbsolute directory := by
      have hNe : directory.toList ≠ [] := by simpa using hEmpty
      simp [isAbsolute, List.head?_append, List.head?_eq_some_head hNe]
    unfold join
    split
    · simp_all
    · split
      · exact hHead name
      · rw [String.append_assoc, hHead]

end Path

namespace FileTree

/-- A name that moves neither on the spot nor back. -/
def IsPlain (name : String) : Prop := name ≠ "" ∧ name ≠ "." ∧ name ≠ ".."

/-- A plain name in a directory stands for the location behind it. -/
theorem eq_of_child {tree : FileTree} {location next : Location} {name : String}
    (plain : IsPlain name) (h : tree.child location name = .ok next) :
    next = location ++ [name] := by
  obtain ⟨hEmpty, hDot, hBack⟩ := plain
  unfold child at h
  split at h
  · cases h
  · cases h
  · simp only [hEmpty, hDot, hBack, or_self, if_false] at h
    split at h
    · cases h
    · exact (Except.ok.inj h).symm

/-- A write puts a file at the location that the last name stands for. -/
theorem exists_of_write {tree new : FileTree} {path name : String} {parents : List String}
    {content : List Nat} (hNames : Path.names path = parents ++ [name])
    (h : tree.write path content = .ok new) :
    ∃ directory location, tree.follow (tree.start path) parents = .ok directory ∧
      tree.child directory name = .ok location ∧ tree.node location ≠ some .directory ∧
      new = tree.put location (.file content) := by
  obtain ⟨-, h⟩ := attempt_eq_ok_iff.mp h
  simp only [hNames, List.dropLast_concat, List.getLast_concat] at h
  cases hFollow : tree.follow (tree.start path) parents with
  | error problem => rw [hFollow] at h; cases h
  | ok directory =>
      rw [hFollow] at h
      simp only [bind, Except.bind, writeIn] at h
      cases hChild : tree.child directory name with
      | error problem => rw [hChild] at h; cases h
      | ok location =>
          simp only [hChild] at h
          split at h
          · cases h
          · next hNode =>
              exact ⟨directory, location, rfl, hChild, hNode, (Except.ok.inj h).symm⟩

/-- What can be read is a file at the location of the path. -/
theorem read_eq_ok_iff {tree : FileTree} {path : String} {content : List Nat} :
    tree.read path = .ok content ↔ refusal path = none ∧
      ∃ location, tree.locate path = .ok location ∧ tree.node location = some (.file content) := by
  constructor
  · intro h
    unfold read at h
    split at h
    · next found hFind =>
        obtain rfl : found = content := Except.ok.inj h
        obtain ⟨hPath, hNode⟩ := attempt_eq_ok_iff.mp hFind
        cases hLocate : tree.locate path with
        | error problem => rw [hLocate] at hNode; cases hNode
        | ok location =>
            simp only [hLocate, bind, Except.bind] at hNode
            split at hNode
            · next hSome => exact ⟨hPath, location, rfl, hSome.trans (by simpa using hNode)⟩
            · cases hNode
    · cases h
    · cases h
  · rintro ⟨hPath, location, hLocate, hNode⟩
    have hFind : tree.find path = .ok (.file content) := by
      refine attempt_eq_ok_iff.mpr ⟨hPath, ?_⟩
      simp only [hLocate, bind, Except.bind, hNode]
    simp only [read, hFind]

/-- What leads somewhere through a directory leads through it to what its last name stands for. -/
theorem exists_of_locate {tree : FileTree} {path name : String} {parents : List String}
    {location : Location} (hNames : Path.names path = parents ++ [name])
    (h : tree.locate path = .ok location) :
    ∃ directory, tree.follow (tree.start path) parents = .ok directory ∧
      tree.child directory name = .ok location := by
  simp only [locate, follow, hNames, List.foldlM_append] at h
  cases hFollow : tree.follow (tree.start path) parents with
  | error problem =>
      simp only [follow] at hFollow
      rw [hFollow] at h
      cases h
  | ok directory =>
      refine ⟨directory, rfl, ?_⟩
      simp only [follow] at hFollow
      simp only [hFollow, bind, Except.bind, List.foldlM_cons, List.foldlM_nil, enter] at h
      cases hChild : tree.child directory name with
      | error problem => simp [hChild] at h
      | ok next =>
          simp only [hChild] at h
          cases hNode : tree.node next with
          | none => simp [hNode] at h
          | some found => simpa [hNode, pure, Except.pure] using h

/-- **A file is left alone by a write beside it.** -/
theorem read_of_write_beside {tree new : FileTree} {directory name other : String}
    {content known : List Nat} (plain : IsPlain name) (plainOther : IsPlain other)
    (hName : '/' ∉ name.toList) (hOther : '/' ∉ other.toList) (hNe : name ≠ other)
    (hWrite : tree.write (Path.join directory name) content = .ok new)
    (hRead : tree.read (Path.join directory other) = .ok known) :
    new.read (Path.join directory other) = .ok known := by
  obtain ⟨parents, hNames⟩ := Path.exists_names_join directory
  obtain ⟨place, written, hFollow, hChild, hNode, rfl⟩ := exists_of_write (hNames name hName) hWrite
  obtain ⟨hPath, location, hLocate, hKnown⟩ := read_eq_ok_iff.mp hRead
  obtain ⟨placeOther, hFollowOther, hChildOther⟩ :=
    exists_of_locate (hNames other hOther) hLocate
  have hStart : tree.start (Path.join directory name) = tree.start (Path.join directory other) := by
    simp only [start, Path.isAbsolute_join directory hName, Path.isAbsolute_join directory hOther]
  have hPlace : place = placeOther := by
    rw [hStart, hFollowOther] at hFollow
    exact (Except.ok.inj hFollow).symm
  have hApart : written ≠ location := by
    rw [eq_of_child plain hChild, eq_of_child plainOther hChildOther, hPlace]
    simpa using hNe
  have notRoot : written ≠ [] := by
    rintro rfl
    exact hNode rfl
  have hLocateNew : (tree.put written (.file content)).locate (Path.join directory other) =
      .ok location := (extends_put content hNode).follow hLocate
  refine read_eq_ok_iff.mpr ⟨hPath, location, hLocateNew, ?_⟩
  rw [node_put tree notRoot, if_neg hApart, hKnown]

end FileTree

end ClassSchema
