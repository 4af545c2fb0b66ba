import ClassSchema.Proofs.Java.DeclaredNames
import ClassSchema.Proofs.Java.SourceOrder
import ClassSchema.Proofs.Text.Parts
import Mathlib.Data.List.Forall2
import Mathlib.Data.List.Induction

/-!
# What is registered

Registering a source makes one entry for each declaration in it, however deep, and the
entries stand in the order in which the declarations begin.

An entry keeps numbers where a declaration is meant, its own one and those of the
declarations around it and inside it.  `Denotes` says that numbers stand for the
declarations that they should.

## Main results

* `registeredFrom_follows`: what the entry of a declaration holds.
* `registeredFrom_wired`, `filesFrom_denotes`: what the numbers stand for.
* `get?_foldl_enter_iff`: a name leads to the last declaration that has it.
-/

namespace ClassSchema.Java

/-! ## Declarations where they occur -/

mutual

/-- The ways from a declaration to itself and to the declarations in it, each of them before the
ways to what is inside of it. -/
def TypeDecl.paths : TypeDecl → List (List TypeDecl)
  | ⟨kind, name, typeParams, modifiers, fields, enumConstants, types⟩ =>
      let decl : TypeDecl := ⟨kind, name, typeParams, modifiers, fields, enumConstants, types⟩
      [decl] :: (TypeDecl.allPaths types).map (decl :: ·)

/-- The ways to declarations and to the declarations in them. -/
def TypeDecl.allPaths : List TypeDecl → List (List TypeDecl)
  | [] => []
  | decl :: rest => decl.paths ++ TypeDecl.allPaths rest

end

mutual

/-- What is on the ways through a declaration declares nothing that is not in it. -/
theorem TypeDecl.names_subset {path : List TypeDecl} {inner : TypeDecl} :
    (decl : TypeDecl) → path ∈ decl.paths → inner ∈ path → inner.names ⊆ decl.names
  | ⟨kind, name, typeParams, modifiers, fields, enumConstants, types⟩, mem, hInner => by
      simp only [TypeDecl.paths, List.mem_cons, List.mem_map] at mem
      rcases mem with rfl | ⟨behind, hBehind, rfl⟩
      · rw [List.mem_singleton.mp hInner]
        exact List.Subset.refl _
      · rcases List.mem_cons.mp hInner with rfl | hInner
        · exact List.Subset.refl _
        · rw [TypeDecl.names]
          exact List.subset_cons_of_subset _ (TypeDecl.names_subset_all types hBehind hInner)

theorem TypeDecl.names_subset_all {path : List TypeDecl} {inner : TypeDecl} :
    (decls : List TypeDecl) → path ∈ TypeDecl.allPaths decls → inner ∈ path →
      inner.names ⊆ TypeDecl.allNames decls
  | decl :: rest, mem, hInner => by
      rw [TypeDecl.allPaths, List.mem_append] at mem
      rw [TypeDecl.allNames]
      rcases mem with mem | mem
      · exact List.subset_append_of_subset_left _ (TypeDecl.names_subset decl mem hInner)
      · exact List.subset_append_of_subset_right _ (TypeDecl.names_subset_all rest mem hInner)

end

/-- A declaration at its place in a source. -/
structure Occurrence where
  /-- The source. -/
  source : SourceFile
  /-- The declarations around it, the outermost first, and itself. -/
  path : List TypeDecl

/-- The package, if there is one. -/
def SourceFile.packageNames (source : SourceFile) : List String :=
  if source.package = "" then [] else [source.package]

theorem SourceFile.intercalate_packageNames (source : SourceFile) :
    ".".intercalate source.packageNames = source.package := by
  unfold packageNames
  split
  · next hEmpty => simp [hEmpty]
  · simp

namespace Occurrence

/-- The package, if there is one, and the names on the way. -/
def names (occurrence : Occurrence) : List String :=
  occurrence.source.packageNames ++ occurrence.path.map (·.name)

/-- The package and the names on the way with dots between them. -/
def qualifiedName (occurrence : Occurrence) : String := ".".intercalate occurrence.names

end Occurrence

/-- The declarations in a source, each before those inside it. -/
def SourceFile.occurrences (source : SourceFile) : List Occurrence :=
  (TypeDecl.allPaths source.types).map (⟨source, ·⟩)

/-- What the declarations on the way to one in a source declare, the source declares. -/
theorem SourceFile.names_subset {source : SourceFile} {occurrence : Occurrence}
    (mem : occurrence ∈ source.occurrences) {decl : TypeDecl} (hDecl : decl ∈ occurrence.path) :
    decl.names ⊆ source.names := by
  obtain ⟨path, hPath, rfl⟩ := List.mem_map.mp mem
  exact TypeDecl.names_subset_all source.types hPath hDecl

/-- The declarations on the way to one in a source are named there. -/
theorem SourceFile.name_mem_names {source : SourceFile} {occurrence : Occurrence}
    (mem : occurrence ∈ source.occurrences) {decl : TypeDecl} (hDecl : decl ∈ occurrence.path) :
    decl.name ∈ source.names := by
  refine SourceFile.names_subset mem hDecl ?_
  rw [TypeDecl.names_eq]
  exact List.mem_cons_self

/-! ## Numbers that stand for declarations -/

/-- Entries stand one after the other, the first of them under a number. -/
def Sits (at? : Nat → Option Registered) (number : Nat) (entries : List Registered) : Prop :=
  ∀ index registered, entries[index]? = some registered → at? (number + index) = some registered

theorem Sits.of_cons {at? : Nat → Option Registered} {number : Nat} {first : Registered}
    {rest : List Registered} (h : Sits at? number (first :: rest)) :
    at? number = some first ∧ Sits at? (number + 1) rest := by
  refine ⟨h 0 first rfl, fun index registered hFound => ?_⟩
  have hAt := h (index + 1) registered hFound
  rwa [← Nat.add_assoc, Nat.add_right_comm] at hAt

theorem Sits.of_append {at? : Nat → Option Registered} {number : Nat}
    {front back : List Registered} (h : Sits at? number (front ++ back)) :
    Sits at? number front ∧ Sits at? (number + front.length) back := by
  refine ⟨fun index registered hFound => ?_, fun index registered hFound => ?_⟩
  · have hLess := (List.getElem?_eq_some_iff.mp hFound).1
    exact h index registered (by rw [List.getElem?_append_left hLess, hFound])
  · have hAt := h (front.length + index) registered (by
      rw [List.getElem?_append_right (Nat.le_add_right _ _), Nat.add_sub_cancel_left, hFound])
    rwa [← Nat.add_assoc] at hAt

/-- A number stands for a declaration in a file with the declarations of a chain around it. -/
def StandsFor (at? : Nat → Option Registered) (file : Nat) (chain : List Nat) (decl : TypeDecl)
    (number : Nat) : Prop :=
  ∃ registered, at? number = some registered ∧ registered.declaration = decl ∧
    registered.file = file ∧ registered.chain = chain ++ [number]

/-- Numbers stand for declarations, one for each. -/
def Denotes (at? : Nat → Option Registered) (file : Nat) (chain : List Nat)
    (decls : List TypeDecl) (numbers : List Nat) : Prop :=
  List.Forall₂ (StandsFor at? file chain) decls numbers

/-- What the entry of a declaration holds that is reached by a path, behind the names and the
declarations around. -/
structure Follows (at? : Nat → Option Registered) (file : Nat) (names : List String)
    (around path : List TypeDecl) (registered : Registered) : Prop where
  /-- The declaration itself. -/
  declaration : path.getLast? = some registered.declaration
  /-- The file. -/
  file : registered.file = file
  /-- The numbers of the declarations on the way. -/
  chain : registered.chain.map (fun number => (at? number).map (·.declaration)) =
    (around ++ path).map some
  /-- The class under the qualified name, with everything but its fields. -/
  entity : registered.entity =
    entityOf (".".intercalate (names ++ path.map (·.name))) registered.declaration

/-- One declaration more is on the way than is around. -/
theorem Follows.of_inside {at? : Nat → Option Registered} {file : Nat} {names : List String}
    {around path : List TypeDecl} {decl : TypeDecl} {registered : Registered}
    (h : Follows at? file (names ++ [decl.name]) (around ++ [decl]) path registered) :
    Follows at? file names around (decl :: path) registered where
  declaration := by
    rw [List.getLast?_cons, h.declaration]
    rfl
  file := h.file
  chain := by
    rw [h.chain, List.append_assoc, List.singleton_append]
  entity := by
    rw [h.entity, List.append_assoc, List.singleton_append, List.map_cons]

/-- A name behind others, dots between them. -/
theorem qualify_intercalate {names : List String} {name : String}
    (h : names ≠ [] → ".".intercalate names ≠ "") :
    Dotted.qualify (".".intercalate names) name = ".".intercalate (names ++ [name]) := by
  by_cases hNil : names = []
  · subst hNil
    simp [Dotted.qualify]
  · rw [Dotted.qualify, if_neg (h hNil), String.intercalate_append_of_ne_nil hNil (by simp),
      String.intercalate_singleton]

theorem intercalate_concat_ne_empty (names : List String) {name : String} (h : name ≠ "") :
    ".".intercalate (names ++ [name]) ≠ "" := by
  by_cases hNil : names = []
  · subst hNil
    simpa using h
  · rw [String.intercalate_append_of_ne_nil hNil (by simp), String.intercalate_singleton]
    intro hEmpty
    simp [h] at hEmpty

section Static

variable {at? : Nat → Option Registered} (file : Nat)

mutual

/-- **What is registered for a declaration** and for those in it. -/
theorem register_follows {names : List String} {around : List TypeDecl} {chain : List Nat}
    {number : Nat}
    (hChain : chain.map (fun number => (at? number).map (·.declaration)) = around.map some)
    (hNames : names ≠ [] → ".".intercalate names ≠ "") :
    (decl : TypeDecl) → (∀ name ∈ decl.names, name ≠ "") →
      Sits at? number (register file (".".intercalate names) chain number decl) →
      List.Forall₂ (Follows at? file names around) decl.paths
        (register file (".".intercalate names) chain number decl)
  | ⟨kind, name, typeParams, modifiers, fields, enumConstants, types⟩, named, sits => by
      have hName : name ≠ "" := named name (by simp [TypeDecl.names])
      have hQualified : Dotted.qualify (".".intercalate names) name =
          ".".intercalate (names ++ [name]) := qualify_intercalate hNames
      simp only [register, TypeDecl.paths, hQualified] at sits ⊢
      obtain ⟨hFirst, hRest⟩ := sits.of_cons
      have hInner : (chain ++ [number]).map (fun number => (at? number).map (·.declaration)) =
          (around ++ [(⟨kind, name, typeParams, modifiers, fields, enumConstants, types⟩ :
            TypeDecl)]).map some := by
        simp [hChain, hFirst]
      refine .cons ⟨rfl, rfl, hInner, rfl⟩ (List.forall₂_map_left_iff.mpr ?_)
      exact (registerAll_follows hInner (fun _ => intercalate_concat_ne_empty names hName) types
        (fun other mem => named other (by simp [TypeDecl.names, mem])) hRest).imp
          fun _ _ => Follows.of_inside

theorem registerAll_follows {names : List String} {around : List TypeDecl} {chain : List Nat}
    {number : Nat}
    (hChain : chain.map (fun number => (at? number).map (·.declaration)) = around.map some)
    (hNames : names ≠ [] → ".".intercalate names ≠ "") :
    (decls : List TypeDecl) → (∀ name ∈ TypeDecl.allNames decls, name ≠ "") →
      Sits at? number (registerAll file (".".intercalate names) chain number decls) →
      List.Forall₂ (Follows at? file names around) (TypeDecl.allPaths decls)
        (registerAll file (".".intercalate names) chain number decls)
  | [], _, _ => .nil
  | decl :: rest, named, sits => by
      simp only [registerAll, TypeDecl.allPaths] at sits ⊢
      obtain ⟨hFirst, hRest⟩ := sits.of_append
      rw [register_length] at hRest
      exact List.rel_append
        (register_follows hChain hNames decl
          (fun name mem => named name (by simp [TypeDecl.allNames, mem])) hFirst)
        (registerAll_follows hChain hNames rest
          (fun name mem => named name (by simp [TypeDecl.allNames, mem])) hRest)

end

/-- The first entry of a declaration is its own. -/
theorem standsFor_of_sits {parent : String} {chain : List Nat} {number : Nat} {decl : TypeDecl}
    (h : Sits at? number (register file parent chain number decl)) :
    StandsFor at? file chain decl number := by
  cases decl
  exact ⟨_, h.of_cons.1, rfl, rfl, rfl⟩

/-- The numbers of declarations stand for them. -/
theorem denotes_of_sits {parent : String} {chain : List Nat} {number : Nat}
    {decls : List TypeDecl} (h : Sits at? number (registerAll file parent chain number decls)) :
    Denotes at? file chain decls (numbersFrom number decls) := by
  induction decls generalizing number with
  | nil => exact .nil
  | cons decl rest ih =>
      obtain ⟨hFirst, hRest⟩ := Sits.of_append h
      rw [register_length] at hRest
      exact .cons (standsFor_of_sits file hFirst) (ih hRest)

/-- The numbers that an entry keeps stand for the declarations that they should: its own number
for its declaration, and the others for what is directly inside. -/
structure Wired (at? : Nat → Option Registered) (number : Nat) (registered : Registered) :
    Prop where
  /-- The last number of the chain is its own. -/
  own : registered.chain.getLast? = some number
  /-- The other numbers are those of the declarations directly inside. -/
  nested : Denotes at? registered.file registered.chain registered.declaration.types
    registered.nested

/-- Entries are wired that stand one after the other, the first of them under a number. -/
def AllWired (at? : Nat → Option Registered) (number : Nat) (entries : List Registered) : Prop :=
  ∀ index registered, entries[index]? = some registered → Wired at? (number + index) registered

theorem AllWired.append {at? : Nat → Option Registered} {number : Nat}
    {front back : List Registered} (hFront : AllWired at? number front)
    (hBack : AllWired at? (number + front.length) back) : AllWired at? number (front ++ back) := by
  intro index registered hFound
  by_cases hLess : index < front.length
  · rw [List.getElem?_append_left hLess] at hFound
    exact hFront index registered hFound
  · rw [List.getElem?_append_right (Nat.le_of_not_lt hLess)] at hFound
    have hWired := hBack _ registered hFound
    rwa [Nat.add_assoc, Nat.add_sub_cancel' (Nat.le_of_not_lt hLess)] at hWired

mutual

theorem register_wired {parent : String} {chain : List Nat} {number : Nat} :
    (decl : TypeDecl) → Sits at? number (register file parent chain number decl) →
      AllWired at? number (register file parent chain number decl)
  | ⟨kind, name, typeParams, modifiers, fields, enumConstants, types⟩, sits,
      index, registered, hFound => by
      simp only [register] at sits hFound
      obtain ⟨_, hRest⟩ := sits.of_cons
      cases index with
      | zero =>
          obtain rfl := Option.some.inj hFound
          exact ⟨by simp, denotes_of_sits file hRest⟩
      | succ index =>
          have hWired := registerAll_wired types hRest index registered hFound
          rwa [Nat.add_right_comm] at hWired

theorem registerAll_wired {parent : String} {chain : List Nat} {number : Nat} :
    (decls : List TypeDecl) → Sits at? number (registerAll file parent chain number decls) →
      AllWired at? number (registerAll file parent chain number decls)
  | [], _ => by simp [registerAll, AllWired]
  | decl :: rest, sits => by
      simp only [registerAll] at sits ⊢
      obtain ⟨hFirst, hRest⟩ := sits.of_append
      refine (register_wired decl hFirst).append ?_
      rw [register_length] at hRest ⊢
      exact registerAll_wired rest hRest

end

end Static

/-! ## Several sources -/

section Sources

variable {at? : Nat → Option Registered}

/-- What is registered for the declarations of sources. -/
theorem registeredFrom_follows (sourceAt? : Nat → Option SourceFile) {file number : Nat}
    {sources : List SourceFile}
    (hSources : ∀ index < sources.length, sourceAt? (file + index) = sources[index]?)
    (named : ∀ source ∈ sources, ∀ name ∈ source.names, name ≠ "")
    (sits : Sits at? number (registeredFrom file number sources)) :
    List.Forall₂ (fun occurrence registered =>
        sourceAt? registered.file = some occurrence.source ∧
        Follows at? registered.file occurrence.source.packageNames [] occurrence.path registered)
      (sources.flatMap (·.occurrences)) (registeredFrom file number sources) := by
  induction sources generalizing file number with
  | nil => exact .nil
  | cons source rest ih =>
      obtain ⟨hFirst, hRest⟩ := sits.of_append
      rw [registerAll_length] at hRest
      rw [← source.intercalate_packageNames] at hFirst
      have hFile : sourceAt? file = some source := hSources 0 (by simp)
      have hNames : source.packageNames ≠ [] → ".".intercalate source.packageNames ≠ "" := by
        rw [source.intercalate_packageNames]
        intro hSome hEmpty
        exact hSome (if_pos hEmpty)
      have hChain : ([] : List Nat).map (fun number => (at? number).map (·.declaration)) =
          ([] : List TypeDecl).map some := rfl
      have first := registerAll_follows file hChain hNames source.types
        (named source (by simp)) hFirst
      rw [source.intercalate_packageNames] at first
      have later : ∀ index < rest.length, sourceAt? (file + 1 + index) = rest[index]? := by
        intro index hIndex
        have hLater := hSources (index + 1) (by simpa using hIndex)
        rwa [← Nat.add_assoc, Nat.add_right_comm] at hLater
      refine List.rel_append (List.forall₂_map_left_iff.mpr (first.imp ?_))
        (ih later (fun other mem => named other (by simp [mem])) hRest)
      rintro path registered hFollows
      have hRegistered := hFollows.file
      exact ⟨hRegistered ▸ hFile, hRegistered ▸ hFollows⟩

theorem registeredFrom_wired {file number : Nat} {sources : List SourceFile}
    (sits : Sits at? number (registeredFrom file number sources)) :
    AllWired at? number (registeredFrom file number sources) := by
  induction sources generalizing file number with
  | nil => simp [registeredFrom, AllWired]
  | cons source rest ih =>
      simp only [registeredFrom] at sits ⊢
      obtain ⟨hFirst, hRest⟩ := sits.of_append
      refine (registerAll_wired file source.types hFirst).append ?_
      rw [registerAll_length] at hRest ⊢
      exact ih hRest

/-- The numbers of a file stand for its declarations at top level. -/
theorem filesFrom_denotes {file number : Nat} {sources : List SourceFile}
    (sits : Sits at? number (registeredFrom file number sources)) :
    ∀ index found, (filesFrom number sources)[index]? = some found →
      Denotes at? (file + index) [] found.source.types found.entries := by
  induction sources generalizing file number with
  | nil => intro index found hFound; cases hFound
  | cons source rest ih =>
      obtain ⟨hFirst, hRest⟩ := sits.of_append
      rw [registerAll_length] at hRest
      intro index found hFound
      cases index with
      | zero =>
          obtain rfl := Option.some.inj hFound
          exact denotes_of_sits file hFirst
      | succ index =>
          have hDenotes := ih hRest index found hFound
          rwa [Nat.add_right_comm] at hDenotes

end Sources

/-! ## Qualified names -/

/-- A number is that of the last of some entries with a qualified name. -/
def IsLast (entries : List Registered) (name : String) (number : Nat) : Prop :=
  (∃ registered, entries[number]? = some registered ∧
    registered.entity.qualifiedName = .str name) ∧
  ∀ later registered, number < later → entries[later]? = some registered →
    registered.entity.qualifiedName ≠ .str name

private theorem isLast_concat_self {entries : List Registered} {registered : Registered}
    {name : String} (h : registered.entity.qualifiedName = .str name) {number : Nat} :
    IsLast (entries ++ [registered]) name number ↔ number = entries.length := by
  constructor
  · rintro ⟨⟨found, hFound, _⟩, last⟩
    have hLess := (List.getElem?_eq_some_iff.mp hFound).1
    rw [List.length_append, List.length_singleton] at hLess
    by_contra hNe
    exact last entries.length registered (by omega) (by simp) h
  · rintro rfl
    refine ⟨⟨registered, by simp, h⟩, fun later other hLater hOther => ?_⟩
    have hLess := (List.getElem?_eq_some_iff.mp hOther).1
    rw [List.length_append, List.length_singleton] at hLess
    omega

private theorem isLast_concat_of_ne {entries : List Registered} {registered : Registered}
    {name : String} (h : registered.entity.qualifiedName ≠ .str name) {number : Nat} :
    IsLast (entries ++ [registered]) name number ↔ IsLast entries name number := by
  have hFound : ∀ (place : Nat) (found : Registered),
      (entries ++ [registered])[place]? = some found → found.entity.qualifiedName = .str name →
      entries[place]? = some found := by
    intro place found hPlace hName
    by_cases hLess : place < entries.length
    · rwa [List.getElem?_append_left hLess] at hPlace
    · rw [List.getElem?_append_right (Nat.le_of_not_lt hLess)] at hPlace
      have hLength := (List.getElem?_eq_some_iff.mp hPlace).1
      rw [List.length_singleton] at hLength
      rw [show place - entries.length = 0 by omega] at hPlace
      obtain rfl := Option.some.inj hPlace
      exact absurd hName h
  have hKept : ∀ (place : Nat) (found : Registered), entries[place]? = some found →
      (entries ++ [registered])[place]? = some found := by
    intro place found hPlace
    rw [List.getElem?_append_left (List.getElem?_eq_some_iff.mp hPlace).1, hPlace]
  constructor
  · rintro ⟨⟨found, hPlace, hName⟩, last⟩
    exact ⟨⟨found, hFound _ _ hPlace hName, hName⟩, fun later other hLater hOther =>
      last later other hLater (hKept _ _ hOther)⟩
  · rintro ⟨⟨found, hPlace, hName⟩, last⟩
    exact ⟨⟨found, hKept _ _ hPlace, hName⟩, fun later other hLater hOther hSame =>
      last later other hLater (hFound _ _ hOther hSame) hSame⟩

/-- Where entries have a qualified name, one of them is the last. -/
theorem exists_isLast_iff {entries : List Registered} {name : String} :
    (∃ number, IsLast entries name number) ↔
      ∃ registered ∈ entries, registered.entity.qualifiedName = .str name := by
  induction entries using List.reverseRecOn with
  | nil => simp [IsLast]
  | append_singleton entries registered ih =>
      by_cases hName : registered.entity.qualifiedName = .str name
      · simp [isLast_concat_self hName, hName]
      · simp [isLast_concat_of_ne hName, hName, ih]

/-- **A name leads to the last declaration that has it**, and to none if none has. -/
theorem get?_foldl_enter_iff (entries : List Registered) (name : String) (number : Nat) :
    (entries.zipIdx.foldl Registry.enter []).get? name = some number ↔
      IsLast entries name number := by
  induction entries using List.reverseRecOn with
  | nil => simp [IsLast]
  | append_singleton entries registered ih =>
      have hFold : (entries ++ [registered]).zipIdx.foldl Registry.enter [] =
          Registry.enter (entries.zipIdx.foldl Registry.enter [])
            (registered, entries.length) := by
        simp [List.zipIdx_append]
      rw [hFold]
      by_cases hName : registered.entity.qualifiedName = .str name
      · simp only [Registry.enter, hName, OrderedMap.get?_put, if_true, Option.some.injEq]
        rw [isLast_concat_self hName, eq_comm]
      · rw [isLast_concat_of_ne hName, ← ih]
        unfold Registry.enter
        split
        · next other hOther =>
            have hNe : other ≠ name := fun hSame => hName (hOther.trans (congrArg _ hSame))
            rw [OrderedMap.get?_put, if_neg hNe]
        · rfl

end ClassSchema.Java
