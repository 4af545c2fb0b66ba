import ClassSchema.Proofs.Java.Registration

/-!
# Registries that can be reached

Sources are added to a registry one after the other, and it may be built at any time,
more than once too.  Building only appends fields, so everything else in a registry
follows from the sources that were added: `Registry.Holds` says what.

## Main results

* `Registry.Holds.add`, `Registry.Holds.build`: what one step keeps.
* `Registry.Reachable.holds`: a registry up to the fields of its classes.
* `Registry.Holds.represents`, `Registry.Holds.wired`, `Registry.Holds.denotes`,
  `Registry.Holds.get?_byName_iff`: declarations, numbers and names in it.
-/

namespace ClassSchema.Java

/-! ## Entries without fields -/

namespace Registered

/-- An entry without the fields of its class. -/
def unbuilt (registered : Registered) : Registered :=
  { registered with entity := { registered.entity with fields := [] } }

@[simp] theorem unbuilt_declaration (registered : Registered) :
    registered.unbuilt.declaration = registered.declaration := rfl

end Registered

mutual

theorem register_unbuilt (file : Nat) (parent : String) (chain : List Nat) (number : Nat) :
    (decl : TypeDecl) → (register file parent chain number decl).map (·.unbuilt) =
      register file parent chain number decl
  | ⟨_, _, _, _, _, _, types⟩ => by
      simp only [register, List.map_cons]
      rw [registerAll_unbuilt file _ _ _ types]
      rfl

theorem registerAll_unbuilt (file : Nat) (parent : String) (chain : List Nat) (number : Nat) :
    (decls : List TypeDecl) → (registerAll file parent chain number decls).map (·.unbuilt) =
      registerAll file parent chain number decls
  | [] => rfl
  | decl :: rest => by
      simp only [registerAll, List.map_append]
      rw [register_unbuilt file _ _ _ decl, registerAll_unbuilt file _ _ _ rest]

end

theorem StandsFor.of_unbuilt {entries : List Registered} {file : Nat} {chain : List Nat}
    {decl : TypeDecl} {number : Nat}
    (h : StandsFor ((entries.map (·.unbuilt))[·]?) file chain decl number) :
    StandsFor (entries[·]?) file chain decl number := by
  obtain ⟨unbuilt, hFound, hDecl, hFile, hChain⟩ := h
  obtain ⟨registered, hRegistered, rfl⟩ :=
    Option.map_eq_some_iff.mp (List.getElem?_map.symm.trans hFound)
  exact ⟨registered, hRegistered, hDecl, hFile, hChain⟩

theorem Denotes.of_unbuilt {entries : List Registered} {file : Nat} {chain : List Nat}
    {decls : List TypeDecl} {numbers : List Nat}
    (h : Denotes ((entries.map (·.unbuilt))[·]?) file chain decls numbers) :
    Denotes (entries[·]?) file chain decls numbers :=
  List.Forall₂.imp (fun _ _ => StandsFor.of_unbuilt) h

theorem isLast_unbuilt_iff {entries : List Registered} {name : String} {number : Nat} :
    IsLast (entries.map (·.unbuilt)) name number ↔ IsLast entries name number := by
  simp only [IsLast, List.getElem?_map, Option.map_eq_some_iff]
  constructor
  · rintro ⟨⟨_, ⟨registered, hFound, rfl⟩, hName⟩, last⟩
    exact ⟨⟨registered, hFound, hName⟩, fun later other hLater hOther =>
      last later other.unbuilt hLater ⟨other, hOther, rfl⟩⟩
  · rintro ⟨⟨registered, hFound, hName⟩, last⟩
    refine ⟨⟨_, ⟨registered, hFound, rfl⟩, hName⟩, ?_⟩
    rintro later _ hLater ⟨other, hOther, rfl⟩
    exact last later other hLater hOther

/-! ## Steps and runs -/

namespace Registry

/-- A registry to which sources were added, one after the other, each of them parsed from a text.
It may have been built at any time, or several times. -/
inductive Reachable (includeStatic : Bool) : List SourceFile → Registry → Prop
  | empty : Reachable includeStatic [] (.empty includeStatic)
  | add {sources : List SourceFile} {registry : Registry} {text : List Char}
      {source : SourceFile} : Reachable includeStatic sources registry →
      parse text = .ok source →
      Reachable includeStatic (sources ++ [source]) (registry.add source)
  | build {sources : List SourceFile} {registry : Registry} :
      Reachable includeStatic sources registry → Reachable includeStatic sources registry.build

/-- What a registry holds of the sources that were added, apart from the fields of classes. -/
structure Holds (sources : List SourceFile) (registry : Registry) : Prop where
  /-- The sources and the numbers of their declarations. -/
  files : registry.files = filesFrom 0 sources
  /-- The declarations in the sources. -/
  declarations : registry.declarations.map (·.unbuilt) = registeredFrom 0 0 sources
  /-- The qualified names in the order in which they were entered. -/
  byName : registry.byName = (registeredFrom 0 0 sources).zipIdx.foldl enter []

namespace Holds

variable {sources : List SourceFile} {registry : Registry}

theorem length_declarations (h : Holds sources registry) :
    registry.declarations.length = countSources sources := by
  rw [← List.length_map (·.unbuilt), h.declarations, registeredFrom_length]

/-- **One source more.** -/
theorem add (h : Holds sources registry) (source : SourceFile) :
    Holds (sources ++ [source]) (registry.add source) := by
  have hFiles : registry.files.length = sources.length := by rw [h.files, filesFrom_length]
  have hAdded : registeredFrom 0 0 (sources ++ [source]) =
      registeredFrom 0 0 sources ++ registerAll registry.files.length source.package []
        registry.declarations.length source.types := by
    simp [registeredFrom_append, registeredFrom, hFiles, h.length_declarations]
  constructor
  · simp [Registry.add, filesFrom_append, filesFrom, h.files, h.length_declarations]
  · simp [Registry.add, hAdded, h.declarations, registerAll_unbuilt]
  · rw [hAdded, List.zipIdx_append, List.foldl_append, ← h.byName, registeredFrom_length,
      Nat.zero_add, ← h.length_declarations]
    rfl

/-- **Building appends fields** and changes nothing else. -/
theorem build (h : Holds sources registry) : Holds sources registry.build := by
  refine ⟨h.files, ?_, h.byName⟩
  rw [← h.declarations]
  simp [Registry.build, Registered.unbuilt, Function.comp_def]

end Holds

namespace Reachable

variable {includeStatic : Bool} {sources : List SourceFile} {registry : Registry}

/-- **A registry follows from the sources** that were added, up to the fields of its classes. -/
theorem holds (h : Reachable includeStatic sources registry) : Holds sources registry := by
  induction h with
  | empty => exact ⟨rfl, rfl, rfl⟩
  | add _ _ ih => exact ih.add _
  | build _ ih => exact ih.build

/-- The sources are parsed ones. -/
theorem parsed (h : Reachable includeStatic sources registry) :
    ∀ source ∈ sources, ∃ text, parse text = .ok source := by
  induction h with
  | empty => simp
  | add _ hParse ih => exact List.forall_mem_append.mpr ⟨ih, by simpa using ⟨_, hParse⟩⟩
  | build _ ih => exact ih

/-- So their declarations are named by identifiers. -/
theorem isIdentifier (h : Reachable includeStatic sources registry) :
    ∀ source ∈ sources, ∀ name ∈ source.names, IsIdentifier name := by
  intro source mem
  obtain ⟨_, hParse⟩ := h.parsed source mem
  exact isIdentifier_of_mem_names hParse

end Reachable

/-! ## Declarations, numbers and names -/

/-- What an entry of a registry says of a declaration at its place. -/
structure Represents (registry : Registry) (occurrence : Occurrence) (registered : Registered) :
    Prop where
  /-- The declaration itself. -/
  declaration : occurrence.path.getLast? = some registered.declaration
  /-- The class under the qualified name, with everything but its fields. -/
  entity : registered.unbuilt.entity = entityOf occurrence.qualifiedName registered.declaration
  /-- The file that its names are looked up in. -/
  file : registry.files[registered.file]? = some (registry.scopeOf registered).file
  /-- The source in it. -/
  source : (registry.scopeOf registered).file.source = occurrence.source
  /-- The declarations that its names are looked up in. -/
  chain : (registry.scopeOf registered).chain.map (·.declaration) = occurrence.path
  /-- The type parameters of all of them. -/
  typeParams : (registry.scopeOf registered).typeParams =
    occurrence.path.flatMap (·.typeParams)

namespace Holds

variable {sources : List SourceFile} {registry : Registry}

/-- The entries stand where they are registered. -/
theorem sits (h : Holds sources registry) :
    Sits ((registry.declarations.map (·.unbuilt))[·]?) 0 (registeredFrom 0 0 sources) := by
  intro index registered hFound
  simpa only [h.declarations, Nat.zero_add] using hFound

theorem file_scopeOf (h : Holds sources registry) {registered : Registered}
    {source : SourceFile} (hSource : sources[registered.file]? = some source) :
    registry.files[registered.file]? = some (registry.scopeOf registered).file ∧
      (registry.scopeOf registered).file.source = source := by
  rw [← filesFrom_sources 0 sources, ← h.files, List.getElem?_map] at hSource
  obtain ⟨file, hFile, rfl⟩ := Option.map_eq_some_iff.mp hSource
  simp [scopeOf, hFile]

theorem chain_scopeOf {registered : Registered} {path : List TypeDecl}
    (hChain : registered.chain.map (fun number =>
      (registry.declarations.map (·.unbuilt))[number]?.map (·.declaration)) = path.map some) :
    (registry.scopeOf registered).chain.map (·.declaration) = path := by
  calc (registry.scopeOf registered).chain.map (·.declaration)
      = (registered.chain.map fun number =>
          (registry.declarations.map (·.unbuilt))[number]?.map (·.declaration)).filterMap id := by
        simp [scopeOf, List.map_filterMap, List.filterMap_map, Function.comp_def]
    _ = (path.map some).filterMap id := by rw [hChain]
    _ = path := by simp [List.filterMap_map]

/-- **There is one entry for each declaration**, and it says what it should of it. -/
theorem represents (h : Holds sources registry)
    (named : ∀ source ∈ sources, ∀ name ∈ source.names, name ≠ "") :
    List.Forall₂ registry.Represents (sources.flatMap (·.occurrences)) registry.declarations := by
  have hSources : ∀ index < sources.length, sources[0 + index]? = sources[index]? := by simp
  have hFollows := registeredFrom_follows (sources[·]?) hSources named h.sits
  rw [← h.declarations, List.forall₂_map_right_iff] at hFollows
  refine hFollows.imp fun occurrence registered hEntry => ?_
  obtain ⟨hSource, hDeclaration, _, hChain, hEntity⟩ := hEntry
  have hPath : (registry.scopeOf registered).chain.map (·.declaration) = occurrence.path :=
    chain_scopeOf hChain
  obtain ⟨hFile, hScope⟩ := h.file_scopeOf hSource
  refine ⟨hDeclaration, hEntity, hFile, hScope, hPath, ?_⟩
  rw [← hPath, List.flatMap_map]
  rfl

/-- **The numbers that an entry keeps stand for the declarations that they should.** -/
theorem wired (h : Holds sources registry) {number : Nat} {registered : Registered}
    (hFound : registry.declarations[number]? = some registered) :
    Wired (registry.declarations[·]?) number registered := by
  have hUnbuilt : (registeredFrom 0 0 sources)[number]? = some registered.unbuilt := by
    rw [← h.declarations, List.getElem?_map, hFound]
    rfl
  have hWired := registeredFrom_wired h.sits number _ hUnbuilt
  rw [Nat.zero_add] at hWired
  exact ⟨hWired.own, hWired.nested.of_unbuilt⟩

/-- The numbers that a file keeps stand for its declarations at top level. -/
theorem denotes (h : Holds sources registry) {index : Nat} {file : RegisteredFile}
    (hFound : registry.files[index]? = some file) :
    Denotes (registry.declarations[·]?) index [] file.source.types file.entries := by
  rw [h.files] at hFound
  have hDenotes := filesFrom_denotes h.sits index file hFound
  rw [Nat.zero_add] at hDenotes
  exact hDenotes.of_unbuilt

/-- **A name leads to the last declaration that has it**, and to none if none has. -/
theorem get?_byName_iff (h : Holds sources registry) {name : String} {number : Nat} :
    registry.byName.get? name = some number ↔ IsLast registry.declarations name number := by
  rw [h.byName, get?_foldl_enter_iff, ← h.declarations, isLast_unbuilt_iff]

end Holds

end Registry

end ClassSchema.Java
