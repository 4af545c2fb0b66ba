import ClassSchema.Proofs.Files.Directories
import ClassSchema.Proofs.Java.TopLevel
import ClassSchema.Proofs.Publish.Accounts
import ClassSchema.Publish.Conversion

/-!
# Conversions of sources

All sources are read before a model is built, so the first input that cannot be opened,
decoded or parsed stops a conversion that has not done anything yet.  Behind it nothing
about the sources can go wrong: a model is built from any declarations, and all of its
classes compile.  What is left are a filter that asks for no declaration at top level,
which is noticed before anything is printed or written, and the file system.

## Main results

* `readSources_cases`: either all inputs are read, or the first one that cannot be.
* `selects_topLevel`: the entries that are asked for are declarations at top level.
* `convertSources_outcome`: the four ways in which a conversion ends.
-/

namespace ClassSchema

namespace Publish

open Java (SourceFile TopLevel topLevel WellBuilt Registry buildModel)

/-! ## Reading inputs -/

/-- What is read from an input: the declarations in it, if there is any text. -/
def Reads (files : FileTree) (path : String) (source : Option SourceFile) : Prop :=
  ∃ bytes, files.read path = .ok bytes ∧ Java.parseBytes .utf8 bytes = .ok source

/-- Why an input cannot be read. -/
inductive Unreadable (files : FileTree) (path : String) : Failure → Prop
  | unopened {error : FileError} : files.read path = .error error →
      Unreadable files path (.file error)
  | unparsed {bytes : List Nat} {error : Java.SourceError} : files.read path = .ok bytes →
      Java.parseBytes .utf8 bytes = .error error → Unreadable files path (.source error)

/-- An input is read or not, and nothing changes. -/
theorem readSource_cases (path : String) (workspace : Workspace) :
    (∃ source, Reads workspace.files path source ∧
      readSource path workspace = .ok source workspace) ∨
    ∃ failure, Unreadable workspace.files path failure ∧
      readSource path workspace = .error failure workspace := by
  cases hRead : workspace.files.read path with
  | error error =>
      refine .inr ⟨.file error, .unopened hRead, ?_⟩
      simp [readSource, Session.readFile, Session.orFail, hRead, bind, EStateM.bind]
  | ok bytes =>
      cases hParse : Java.parseBytes .utf8 bytes with
      | error error =>
          refine .inr ⟨.source error, .unparsed hRead hParse, ?_⟩
          simp [readSource, Session.readFile, Session.orFail, hRead, hParse, bind, EStateM.bind]
      | ok source =>
          refine .inl ⟨source, ⟨bytes, hRead, hParse⟩, ?_⟩
          simp [readSource, Session.readFile, Session.orFail, hRead, hParse, bind, EStateM.bind]

/-- **Either all inputs are read, or the first one that cannot be** stops the reading. -/
theorem readSources_cases (paths : List String) (workspace : Workspace) :
    (∃ read, List.Forall₂ (Reads workspace.files) paths read ∧
      readSources paths workspace = .ok (read.filterMap id) workspace) ∨
    ∃ before path rest read failure, paths = before ++ path :: rest ∧
      List.Forall₂ (Reads workspace.files) before read ∧
      Unreadable workspace.files path failure ∧
      readSources paths workspace = .error failure workspace := by
  -- reading changes nothing, so the inputs behind the first are read in the same workspace
  induction paths with
  | nil => exact .inl ⟨[], .nil, rfl⟩
  | cons path rest ih =>
      rcases readSource_cases path workspace with
        ⟨source, hReads, hSource⟩ | ⟨failure, hUnreadable, hSource⟩
      · rcases ih with ⟨read, hRest, hRun⟩ | ⟨before, other, behind, read, failure, rfl, hBefore,
          hUnreadable, hRun⟩
        · refine .inl ⟨source :: read, .cons hReads hRest, ?_⟩
          simp only [readSources, bind, EStateM.bind, hSource, hRun]
          cases source <;> rfl
        · refine .inr ⟨path :: before, other, behind, source :: read, failure, rfl,
            .cons hReads hBefore, hUnreadable, ?_⟩
          simp only [readSources, bind, EStateM.bind, hSource, hRun]
      · refine .inr ⟨[], path, rest, [], failure, rfl, .nil, hUnreadable, ?_⟩
        simp only [readSources, bind, EStateM.bind, hSource]

/-- What is read is parsed. -/
theorem Reads.parsed {files : FileTree} {path : String} {source : SourceFile}
    (h : Reads files path (some source)) : ∃ text, Java.parse text = .ok source := by
  obtain ⟨bytes, _, hParse⟩ := h
  unfold Java.parseBytes at hParse
  split at hParse
  · cases hParse
  · next text _ =>
      split at hParse
      · cases hParse
      · split at hParse
        · cases hParse
        · next hText =>
            cases hParse
            exact ⟨text, hText⟩

theorem parsed_of_reads {files : FileTree} {paths : List String}
    {read : List (Option SourceFile)} (h : List.Forall₂ (Reads files) paths read) :
    ∀ source ∈ read.filterMap id, ∃ text, Java.parse text = .ok source := by
  induction h with
  | nil => simp
  | @cons path source paths read hFirst _ ih =>
      cases source with
      | none => exact ih
      | some source => exact List.forall_mem_cons.mpr ⟨hFirst.parsed, ih⟩

/-! ## Entries that are asked for -/

section Entries

variable {registry : Registry} {number : Nat} {top : TopLevel}

/-- An entry is asked for as its declaration is. -/
theorem wanted_eq_isAskedFor
    (h : Java.Lists (registry.declarations[·]?) number top) (className : Option String) :
    wanted registry.model className number = top.isAskedFor className := by
  obtain ⟨registered, hFound, hEntity⟩ := h
  have hModel : registry.model[number]? = some registered.entity := by
    simp only [Registry.model, List.getElem?_map, hFound, Option.map_some]
  have hSimple : registered.entity.simpleName = top.declaration.name :=
    congrArg Entity.simpleName hEntity
  have hQualified : registered.entity.qualifiedName = .str top.qualifiedName :=
    congrArg Entity.qualifiedName hEntity
  have hInterface : registered.entity.isInterface = .bool (top.declaration.kind = .interfaceDecl) :=
    congrArg Entity.isInterface hEntity
  simp only [wanted, Model.isConcrete, Model.isNamed, hModel, hSimple, hQualified, hInterface,
    TopLevel.isAskedFor, Json.truthy]
  rfl

/-- The result for an entry has the qualified name of its declaration as its key. -/
theorem key_alone (h : Java.Lists (registry.declarations[·]?) number top)
    (compiles : ∃ schema, (registry.model.compileClass number []).1 = .ok schema) :
    (alone? registry.model number).map (·.key) = some (.str top.qualifiedName) := by
  obtain ⟨registered, hFound, hEntity⟩ := h
  obtain ⟨schema, hSchema⟩ := compiles
  have hModel : registry.model[number]? = some registered.entity := by
    simp only [Registry.model, List.getElem?_map, hFound, Option.map_some]
  have hKey : registered.entity.key = .str top.qualifiedName :=
    (congrArg Entity.key hEntity).trans (Java.key_entityOf top.source.package top.declaration)
  simp only [alone?, hModel, hSchema, hKey, Option.map_some]

/-- **The entries that are asked for are declarations at top level**, in order. -/
theorem selects_topLevel {sources : List SourceFile} (holds : Registry.Holds sources registry)
    (className : Option String) :
    List.Forall₂ (Java.Lists (registry.declarations[·]?))
      (registry.entries.filter (wanted registry.model className))
      ((topLevel sources).filter (·.isAskedFor className)) := by
  refine List.rel_filter (fun number top hLists => ?_) holds.entries_list
  show wanted registry.model className number = true ↔ top.isAskedFor className = true
  rw [wanted_eq_isAskedFor hLists]

end Entries

/-! ## Conversions -/

/-- All inputs are read, a model is built from what they declare, and its classes compile. -/
structure AllRead (files : FileTree) (paths : List String) (includeStatic : Bool)
    (sources : List SourceFile) : Prop where
  /-- The declarations are those in the inputs, less the empty ones. -/
  read : ∃ read, List.Forall₂ (Reads files) paths read ∧ sources = read.filterMap id
  /-- The model is built and compiles. -/
  wellBuilt : WellBuilt (sources.foldl Registry.add (.empty includeStatic))

/-- The four ways in which a conversion ends. -/
inductive Conversion (paths : List String) (includeStatic : Bool) (request : Request)
    (workspace : Workspace) : Outcome → Prop
  /-- The first input that cannot be read stops it, before it changed anything. -/
  | refused {before rest : List String} {path : String} {read : List (Option SourceFile)}
      {failure : Failure} : paths = before ++ path :: rest →
      List.Forall₂ (Reads workspace.files) before read →
      Unreadable workspace.files path failure →
      Conversion paths includeStatic request workspace (.error failure workspace)
  /-- No declaration at top level is asked for; nothing was printed and no file was written. -/
  | unmatched {sources : List SourceFile} {name : String} {after : Workspace} :
      AllRead workspace.files paths includeStatic sources →
      request.className = some name → name ≠ "" →
      (∀ top ∈ topLevel sources, top.isAskedFor (some name) = false) →
      after.printed = workspace.printed → after.files.files = workspace.files.files →
      Conversion paths includeStatic request workspace (.error (.notFound ⟨name⟩) after)
  /-- The directory or a document cannot be written. -/
  | unwritten {sources : List SourceFile} {error : FileError} {after : Workspace} :
      AllRead workspace.files paths includeStatic sources →
      Stops (buildModel sources includeStatic).model (buildModel sources includeStatic).entries
        request workspace (.file error) after →
      Conversion paths includeStatic request workspace (.error (.file error) after)
  /-- Each declaration that is asked for has its result and its report. -/
  | completed {sources : List SourceFile} {results : List Published} {after : Workspace}
      {reports : List Report} :
      AllRead workspace.files paths includeStatic sources →
      results.map (·.key) = ((topLevel sources).filter (·.isAskedFor request.className)).map
        (fun top => .str top.qualifiedName) →
      (∀ name, request.className = some name → name ≠ "" →
        ∃ top ∈ topLevel sources, top.isAskedFor (some name) = true) →
      Accounted (buildModel sources includeStatic).model
        (buildModel sources includeStatic).entries request workspace results after reports →
      Conversion paths includeStatic request workspace (.ok results after)

/-- Making the directory changes no file. -/
theorem files_prepare (destination : Destination) (workspace : Workspace) :
    (Session.final (prepare destination workspace)).files.files = workspace.files.files := by
  cases destination with
  | console => rfl
  | directory path =>
      have kept := FileTree.KeepsFiles.ensureDirectories path workspace.files
      simp only [prepare, Session.prepareDirectory]
      split
      · rfl
      · split <;> next hMake => rw [hMake] at kept; exact kept

section Conversions

variable {registry : Registry} {includeStatic : Bool} {sources : List SourceFile}
  {request : Request} {workspace after : Workspace}

/-- The results of a run over the entries of a registry are named after its declarations. -/
theorem keys_of_accounted (h : Registry.Reachable includeStatic sources registry)
    {results : List Published} {reports : List Report}
    (accounted : Accounted registry.model registry.entries request workspace results after
      reports) :
    results.map (·.key) = ((topLevel sources).filter (·.isAskedFor request.className)).map
      (fun top => .str top.qualifiedName) := by
  have selects := selects_topLevel h.holds request.className
  refine List.map_injective_iff.mpr (fun _ _ => Option.some.inj) ?_
  calc (results.map (·.key)).map some
      = (results.map some).map (Option.map (·.key)) := by simp [Function.comp_def]
    _ = (registry.entries.filter (wanted registry.model request.className)).map
          fun number => (alone? registry.model number).map (·.key) := by
        rw [accounted.results, List.map_map]
        rfl
    _ = ((topLevel sources).filter (·.isAskedFor request.className)).map
          fun top => some (.str top.qualifiedName) := by
        rw [← List.forall₂_eq_eq_eq, List.forall₂_map_left_iff, List.forall₂_map_right_iff]
        refine selects.imp fun number top hLists => key_alone hLists ?_
        obtain ⟨schema, visited', hCompile⟩ :=
          Recursive.exists_compileClass h.textual number []
        exact ⟨schema, by rw [hCompile]⟩
    _ = _ := by simp [Function.comp_def]

/-- A run over the entries of a registry is stopped by a name that no declaration at top level has,
or by the file system. -/
theorem stops_cases (h : Registry.Reachable includeStatic sources registry) {failure : Failure}
    (stops : Stops registry.model registry.entries request workspace failure after) :
    (∃ name, failure = .notFound ⟨name⟩ ∧ request.className = some name ∧ name ≠ "" ∧
      (∀ top ∈ topLevel sources, top.isAskedFor (some name) = false) ∧
      after.printed = workspace.printed ∧ after.files.files = workspace.files.files) ∨
    ∃ error, failure = .file error := by
  cases stops with
  | unprepared => exact .inr ⟨_, rfl⟩
  | unselected hPrepare hSelect =>
      obtain ⟨hChosen, _⟩ | ⟨name, hClass, hName, hNone, hError⟩ :=
        select_cases registry.model registry.entries request.className
      case inl => cases hSelect.symm.trans hChosen
      obtain rfl := Except.error.inj (hSelect.symm.trans hError)
      have printed := printed_prepare request.destination workspace
      have files := files_prepare request.destination workspace
      rw [hPrepare] at printed files
      have none := selects_topLevel h.holds (some name)
      rw [hNone, List.forall₂_nil_left_iff, List.filter_eq_nil_iff] at none
      refine .inl ⟨name, rfl, hClass, hName, fun top mem => ?_, printed, files⟩
      simpa using none top mem
  | atEntry hSelect mem hFound stops =>
      cases stops with
      | uncompiled hError =>
          obtain ⟨schema, visited', hCompile⟩ := Recursive.exists_compileClass h.textual _ []
          rw [hCompile] at hError
          cases hError
      | unnamed _ noText =>
          have hKey := Recursive.key_eq (h.textual.name _ (List.mem_of_getElem? hFound))
          exact absurd hKey (noText _)
      | unwritten => exact .inr ⟨_, rfl⟩

end Conversions

/-- **How a conversion of sources ends.**  The first input that cannot be read stops it, before it
changed anything.  Otherwise a model is built, and all of its classes compile; then the conversion
stops at a name that no declaration at top level has, with nothing printed or written, or at
something that the file system refuses, or it accounts for every declaration that is asked for. -/
theorem convertSources_outcome (paths : List String) (includeStatic : Bool) (request : Request)
    (workspace : Workspace) :
    Conversion paths includeStatic request workspace
      (convertSources paths includeStatic request workspace) := by
  rcases readSources_cases paths workspace with
    ⟨read, hReads, hRun⟩ | ⟨before, path, rest, read, failure, hPaths, hBefore, hUnreadable, hRun⟩
  · have added := Java.Registry.reachable_of_parsed includeStatic (parsed_of_reads hReads)
    have built : Registry.Reachable includeStatic (read.filterMap id)
        (buildModel (read.filterMap id) includeStatic) := .build added
    have allRead : AllRead workspace.files paths includeStatic (read.filterMap id) :=
      ⟨⟨read, hReads, rfl⟩, added.wellBuilt⟩
    have hConvert : convertSources paths includeStatic request workspace =
        publish (buildModel (read.filterMap id) includeStatic).model
          (buildModel (read.filterMap id) includeStatic).entries request workspace := by
      simp only [convertSources, bind, EStateM.bind, hRun]
    rw [hConvert]
    cases hPublish : publish (buildModel (read.filterMap id) includeStatic).model
        (buildModel (read.filterMap id) includeStatic).entries request workspace with
    | error failure after =>
        have stops := publish_stops hPublish
        rcases stops_cases built stops with
          ⟨name, rfl, hClass, hName, none, printed, files⟩ | ⟨error, rfl⟩
        · exact .unmatched allRead hClass hName none printed files
        · exact .unwritten allRead stops
    | ok results after =>
        obtain ⟨reports, accounted⟩ := exists_accounted hPublish
        refine .completed allRead (keys_of_accounted built accounted) ?_ accounted
        intro name hClass hName
        have selects := selects_topLevel built.holds (some name)
        have hSome : (topLevel (read.filterMap id)).filter (·.isAskedFor (some name)) ≠ [] := by
          intro hNone
          rw [hNone, List.forall₂_nil_right_iff] at selects
          exact accounted.matched name hClass hName selects
        simpa [List.filter_eq_nil_iff] using hSome
  · have hConvert : convertSources paths includeStatic request workspace =
        .error failure workspace := by
      simp only [convertSources, bind, EStateM.bind, hRun]
    rw [hConvert]
    exact .refused hPaths hBefore hUnreadable

end Publish

end ClassSchema
