import ClassSchema.Proofs.Files.Writing
import ClassSchema.Proofs.Publish.Reports

/-!
# Documents in files of their own

The document of a class is named after its simple name, or after its key if the
simple name is taken.  The key is not looked up among the names that are taken.
For a class in a package this does no harm, since its key has a dot and ends in its
simple name.  But a class outside of any package has its simple name as its key, so
behind another class of this simple name it gets the name of that class's document,
which is then overwritten.

## Main results

* `fresh_iff`: when the name of a document is new.
* `Publishes.read_documents`: documents with distinct names are kept.
* `publish_keeps_documents_iff`: documents are kept unless a class outside of any
  package comes behind another class of its simple name.
* `publish_overwrites`: two classes whose documents go to one file.
-/

namespace ClassSchema

/-- The key of a class is a dotted name that ends in its simple name. -/
def Entity.HasDottedKey (entity : Entity) : Prop :=
  ∃ key, entity.key = .str key ∧ Dotted.last key = entity.simpleName ∧ '/' ∉ key.toList

namespace Publish

/-- Classes that can be told apart by their keys. -/
structure NamedApart (entities : List Entity) : Prop where
  /-- Their keys are dotted names that end in the simple names. -/
  dotted : ∀ entity ∈ entities, entity.HasDottedKey
  /-- No two of them have the same key. -/
  distinct : (entities.map (·.key)).Nodup

/-- The later of two documents is not that of a class without a package whose simple name is the
one of the earlier class. -/
def Apart (earlier later : Document) : Prop :=
  earlier.entity.simpleName = later.entity.simpleName →
    later.entity.key ≠ .str later.entity.simpleName

/-! ## Names given in turn -/

/-- Documents that are named one after the other, while names are taken. -/
inductive NamedInTurn : List String → List Document → Prop
  | nil {taken : List String} : NamedInTurn taken []
  | cons {taken : List String} {document : Document} {rest : List Document} :
      documentName taken document.entity = .ok document.name →
      NamedInTurn (document.name :: taken) rest → NamedInTurn taken (document :: rest)

/-- A run names the documents that it saves in turn. -/
theorem Publishes.namedInTurn {model : Model} {destination : Destination} {taken : List String}
    {numbers : List Nat} {workspace : Workspace} {reports : List Report} {outcome : Outcome}
    (run : Publishes model destination taken numbers workspace reports outcome) :
    NamedInTurn taken (documents reports) := by
  induction run with
  | done | uncompiled | undelivered => exact .nil
  | absent _ _ ih => exact ih
  | told _ _ delivers _ ih =>
      cases delivers with
      | remarked => exact ih
      | printed => exact ih
      | saved _ _ hName => exact .cons hName ih

/-- A name of a class that ends in its simple name. -/
theorem last_name {entity : Entity} (dotted : entity.HasDottedKey) {name : String}
    (h : name = entity.simpleName ∨ entity.key = .str name) :
    Dotted.last name = entity.simpleName ∧ '/' ∉ name.toList := by
  obtain ⟨key, hKey, hLast, hSlash⟩ := dotted
  rcases h with rfl | hName
  · rw [← hLast]
    exact ⟨Dotted.last_last key, fun mem => hSlash (Dotted.of_mem_last mem).1⟩
  · obtain rfl : key = name := by simpa using hKey.symm.trans hName
    exact ⟨hLast, hSlash⟩

/-- The names of the documents saved so far, newest first. -/
structure Taken (earlier : List Document) (taken : List String) : Prop where
  /-- The names are those of the documents. -/
  names : taken = earlier.map (·.name)
  /-- The simple names of their classes are among them. -/
  simple : ∀ document ∈ earlier, document.entity.simpleName ∈ taken
  /-- Each document has one of the names of its class. -/
  given : ∀ document ∈ earlier, document.name = document.entity.simpleName ∨
    document.entity.key = .str document.name

/-- One more document is saved. -/
theorem Taken.cons {earlier : List Document} {taken : List String} {document : Document}
    (known : Taken earlier taken) (h : documentName taken document.entity = .ok document.name) :
    Taken (document :: earlier) (document.name :: taken) where
  names := by rw [known.names, List.map_cons]
  simple := by
    intro saved mem
    rcases List.mem_cons.mp mem with rfl | mem
    · rcases documentName_eq_ok_iff.mp h with ⟨hName, _⟩ | ⟨_, hTaken⟩
      · simp [hName]
      · simp [hTaken]
    · simp [known.simple saved mem]
  given := by
    intro saved mem
    rcases List.mem_cons.mp mem with rfl | mem
    · rcases documentName_eq_ok_iff.mp h with ⟨hName, _⟩ | ⟨hKey, _⟩
      · exact .inl hName
      · exact .inr hKey
    · exact known.given saved mem

/-- **The name of a document is new** unless its class has no package and another one of its
simple name came before. -/
theorem fresh_iff {earlier : List Document} {taken : List String} {document : Document}
    (known : Taken earlier taken) (h : documentName taken document.entity = .ok document.name)
    (dotted : ∀ saved ∈ earlier, saved.entity.HasDottedKey)
    (dottedNew : document.entity.HasDottedKey)
    (distinct : ∀ saved ∈ earlier, saved.entity.key ≠ document.entity.key) :
    document.name ∉ taken ↔ ∀ saved ∈ earlier, Apart saved document := by
  constructor
  · intro fresh saved mem hSame hBare
    have hTaken : document.entity.simpleName ∈ taken := hSame ▸ known.simple saved mem
    rcases documentName_eq_ok_iff.mp h with ⟨_, hFree⟩ | ⟨hKey, _⟩
    · exact hFree hTaken
    · have hName : document.entity.simpleName = document.name := by
        simpa using hBare.symm.trans hKey
      exact fresh (hName ▸ hTaken)
  · intro apart mem
    rw [known.names] at mem
    obtain ⟨saved, hSaved, hName⟩ := List.mem_map.mp mem
    -- equal names have equal last segments, so the two classes share their simple name
    have hGiven := known.given saved hSaved
    have hLast := (last_name (dotted saved hSaved) hGiven).1
    rcases documentName_eq_ok_iff.mp h with ⟨hSimple, hFree⟩ | ⟨hKey, _⟩
    · have hLastNew := (last_name dottedNew (.inl hSimple)).1
      have hSame : saved.entity.simpleName = document.entity.simpleName := by
        rw [← hLast, ← hLastNew, hName]
      exact hFree (hSame ▸ known.simple saved hSaved)
    · have hLastNew := (last_name dottedNew (.inr hKey)).1
      have hSame : saved.entity.simpleName = document.entity.simpleName := by
        rw [← hLast, ← hLastNew, hName]
      rcases hGiven with hSimple | hSavedKey
      · refine apart saved hSaved hSame ?_
        rw [hKey, ← hName, hSimple, hSame]
      · exact distinct saved hSaved (by rw [hSavedKey, hKey, hName])

/-- Names given in turn are new and distinct where no two documents clash. -/
theorem NamedInTurn.fresh_iff {taken : List String} {earlier later : List Document}
    (inTurn : NamedInTurn taken later) (known : Taken earlier taken)
    (dotted : ∀ document ∈ earlier ++ later, document.entity.HasDottedKey)
    (distinct : ((earlier ++ later).map (·.entity.key)).Nodup) :
    (∀ document ∈ later, document.name ∉ taken) ∧ (later.map (·.name)).Nodup ↔
      (∀ saved ∈ earlier, ∀ document ∈ later, Apart saved document) ∧ later.Pairwise Apart := by
  induction inTurn generalizing earlier with
  | nil => simp
  | @cons taken document rest hName _ ih =>
      have moved : (earlier ++ document :: rest).Perm (document :: earlier ++ rest) :=
        List.perm_middle
      have others := ih (known.cons hName)
        (fun other mem => dotted other (moved.mem_iff.mpr mem))
        ((moved.map _).nodup_iff.mp distinct)
      have keys : ∀ saved ∈ earlier, saved.entity.key ≠ document.entity.key := by
        intro saved mem hSame
        rw [List.map_append, List.nodup_append] at distinct
        exact distinct.2.2 _ (List.mem_map_of_mem mem) _ (by simp) hSame
      have first := Publish.fresh_iff known hName (fun saved mem => dotted saved (by simp [mem]))
        (dotted document (by simp)) keys
      simp only [List.mem_cons, not_or, List.map_cons, List.nodup_cons, List.pairwise_cons,
        forall_eq_or_imp, List.mem_map, not_exists, not_and] at others ⊢
      constructor
      · rintro ⟨⟨hFresh, hRest⟩, hNew, hNodup⟩
        have apart := others.mp ⟨fun other mem => ⟨fun hSame => hNew other mem hSame,
          hRest other mem⟩, hNodup⟩
        exact ⟨fun saved mem => ⟨first.mp hFresh saved mem, apart.1.2 saved mem⟩, apart.1.1,
          apart.2⟩
      · rintro ⟨hEarlier, hNew, hPairwise⟩
        have fresh := others.mpr ⟨⟨hNew, fun saved mem => (hEarlier saved mem).2⟩, hPairwise⟩
        exact ⟨⟨first.mpr fun saved mem => (hEarlier saved mem).1,
          fun other mem => (fresh.1 other mem).2⟩, fun other mem => (fresh.1 other mem).1, fresh.2⟩

/-- Names given in turn hold no slashes. -/
theorem NamedInTurn.slash_notMem {taken : List String} {later : List Document}
    (inTurn : NamedInTurn taken later) (dotted : ∀ document ∈ later, document.entity.HasDottedKey) :
    ∀ document ∈ later, '/' ∉ document.name.toList := by
  induction inTurn with
  | nil => simp
  | @cons taken document rest hName _ ih =>
      intro other mem
      rcases List.mem_cons.mp mem with rfl | mem
      · refine (last_name (dotted other (by simp)) ?_).2
        exact (documentName_eq_ok_iff.mp hName).imp And.left And.left
      · exact ih (fun later hLater => dotted later (by simp [hLater])) other mem

/-! ## Files -/

theorem isPlain_file (name : String) : FileTree.IsPlain (name ++ ".json") := by
  have hLength : (name ++ ".json").length = name.length + 5 :=
    String.length_append _ _
  refine ⟨?_, ?_, ?_⟩ <;> intro hSame <;> rw [hSame] at hLength
  · exact absurd hLength (Nat.ne_of_lt (Nat.succ_pos _))
  · have hDot : ".".length = 1 := rfl
    omega
  · have hDots : "..".length = 2 := rfl
    omega

theorem slash_notMem_file {name : String} (h : '/' ∉ name.toList) :
    '/' ∉ (name ++ ".json").toList := by simp [h]

section Files

variable {model : Model} {directory : String} {taken : List String} {numbers : List Nat}
  {workspace : Workspace} {reports : List Report} {outcome : Outcome}

/-- A run leaves a file alone if no document has its name. -/
theorem Publishes.read_of_fresh
    (run : Publishes model (.directory directory) taken numbers workspace reports outcome)
    (plain : ∀ document ∈ documents reports, '/' ∉ document.name.toList) {name : String}
    (hName : '/' ∉ name.toList) (fresh : ∀ document ∈ documents reports, document.name ≠ name)
    {content : List Nat}
    (hRead : workspace.files.read (documentPath directory name) = .ok content) :
    (Session.final outcome).files.read (documentPath directory name) = .ok content := by
  induction run with
  | done | uncompiled | undelivered => exact hRead
  | absent _ _ ih => exact ih plain fresh hRead
  | told _ _ delivers _ ih =>
      rw [final_after]
      cases delivers with
      | remarked => exact ih plain fresh hRead
      | printed _ hConsole => cases hConsole
      | @saved _ written _ _ hDirectory _ hWrite =>
          cases hDirectory
          have hNe : written ++ ".json" ≠ name ++ ".json" := by
            simpa using fresh _ List.mem_cons_self
          have kept := FileTree.read_of_write_beside (isPlain_file written) (isPlain_file name)
            (slash_notMem_file (plain _ List.mem_cons_self)) (slash_notMem_file hName) hNe
            hWrite hRead
          exact ih (fun document mem => plain document (List.mem_cons_of_mem _ mem))
            (fun document mem => fresh document (List.mem_cons_of_mem _ mem)) kept

/-- **Documents with distinct names are kept.** -/
theorem Publishes.read_documents
    (run : Publishes model (.directory directory) taken numbers workspace reports outcome)
    (plain : ∀ document ∈ documents reports, '/' ∉ document.name.toList)
    (nodup : ((documents reports).map (·.name)).Nodup) :
    ∀ document ∈ documents reports,
      (Session.final outcome).files.read document.path = .ok document.content := by
  induction run with
  | done | uncompiled | undelivered => simp [documents]
  | absent _ _ ih => exact ih plain nodup
  | told _ _ delivers run ih =>
      rw [final_after]
      cases delivers with
      | remarked => exact ih plain nodup
      | printed _ hConsole => cases hConsole
      | @saved _ written _ _ hDirectory _ hWrite =>
          cases hDirectory
          have plainRest := fun document mem => plain document (List.mem_cons_of_mem _ mem)
          obtain ⟨hNew, hRest⟩ := List.nodup_cons.mp nodup
          intro document mem
          rcases List.mem_cons.mp mem with rfl | mem
          · refine run.read_of_fresh plainRest (plain _ List.mem_cons_self) ?_
              (FileTree.read_write hWrite)
            intro later hLater hSame
            exact hNew (List.mem_map.mpr ⟨later, hLater, hSame⟩)
          · exact ih plainRest hRest document mem

end Files

/-- The documents are those of some of the classes that were reported. -/
theorem entities_documents (reports : List Report) :
    ((documents reports).map (·.entity)).Sublist (reports.map (·.entity)) := by
  induction reports with
  | nil => exact .slnil
  | cons report rest ih =>
      cases report with
      | remarked => exact ih.cons _
      | printed => exact ih.cons _
      | saved document => exact ih.cons_cons _

/-- The classes of the documents can be told apart if the selected ones can. -/
theorem NamedApart.of_publishes {model : Model} {destination : Destination} {taken : List String}
    {numbers : List Nat} {workspace : Workspace} {reports : List Report} {outcome : Outcome}
    (run : Publishes model destination taken numbers workspace reports outcome)
    (h : NamedApart (numbers.filterMap (model[·]?))) :
    NamedApart ((documents reports).map (·.entity)) := by
  have part := (entities_documents reports).trans run.entities.sublist
  exact ⟨fun entity mem => h.dotted entity (part.subset mem), h.distinct.sublist (part.map _)⟩

/-- **When a run keeps its documents**: their names are distinct, and at the end each file holds
the document that was saved to it, exactly if no class without a package comes behind another
class of its simple name. -/
theorem Publishes.keeps_documents_iff {model : Model} {directory : String} {numbers : List Nat}
    {workspace : Workspace} {reports : List Report} {outcome : Outcome}
    (run : Publishes model (.directory directory) [] numbers workspace reports outcome)
    (h : NamedApart (numbers.filterMap (model[·]?))) :
    (((documents reports).map (·.name)).Nodup ∧ ∀ document ∈ documents reports,
      (Session.final outcome).files.read document.path = .ok document.content) ↔
    (documents reports).Pairwise Apart := by
  obtain ⟨dotted, distinct⟩ := h.of_publishes run
  have dottedAll : ∀ document ∈ documents reports, document.entity.HasDottedKey :=
    fun document mem => dotted _ (List.mem_map_of_mem mem)
  have inTurn := run.namedInTurn
  have none : Taken [] [] := ⟨rfl, by simp, by simp⟩
  have names := inTurn.fresh_iff none dottedAll (by simpa [Function.comp_def] using distinct)
  have hNames : ((documents reports).map (·.name)).Nodup ↔
      (documents reports).Pairwise Apart := by simpa using names
  have plain := inTurn.slash_notMem dottedAll
  exact ⟨fun kept => hNames.mp kept.1, fun apart =>
    ⟨hNames.mpr apart, run.read_documents plain (hNames.mpr apart)⟩⟩

/-- A publication keeps its documents exactly where its run does. -/
theorem Publication.keeps_documents_iff {model : Model} {entries : List Nat}
    {className : Option String} {directory : String} {workspace : Workspace}
    {reports : List Report} {outcome : Outcome}
    (publication : Publication model entries ⟨.directory directory, className⟩ workspace reports
      outcome)
    (named : ∀ selected, model.select entries className = .ok selected →
      NamedApart (selected.filterMap (model[·]?))) :
    (((documents reports).map (·.name)).Nodup ∧ ∀ document ∈ documents reports,
      (Session.final outcome).files.read document.path = .ok document.content) ↔
    (documents reports).Pairwise Apart := by
  cases publication with
  | unprepared | unselected => simp [documents]
  | ran _ hSelect run => exact run.keeps_documents_iff (named _ hSelect)

/-- **When documents are kept.**  Where the selected classes can be told apart by their keys, every
publication into a directory prints what its reports say.  The documents that were saved have
distinct names, and each file holds its document at the end, exactly if no class without a package
comes behind another class of its simple name. -/
theorem publish_keeps_documents_iff {model : Model} {entries : List Nat}
    {className : Option String}
    (named : ∀ selected, model.select entries className = .ok selected →
      NamedApart (selected.filterMap (model[·]?)))
    (directory : String) (workspace : Workspace) :
    ∃ reports,
      Publication model entries ⟨.directory directory, className⟩ workspace reports
        (publish model entries ⟨.directory directory, className⟩ workspace) ∧
      (Session.final (publish model entries ⟨.directory directory, className⟩ workspace)).printed =
        workspace.printed ++ String.join (reports.map (·.text)) ∧
      ((((documents reports).map (·.name)).Nodup ∧ ∀ document ∈ documents reports,
          (Session.final (publish model entries ⟨.directory directory, className⟩
            workspace)).files.read document.path = .ok document.content) ↔
        (documents reports).Pairwise Apart) := by
  obtain ⟨reports, publication⟩ :=
    exists_publication model entries ⟨.directory directory, className⟩ workspace
  exact ⟨reports, publication, publication.printed, publication.keeps_documents_iff named⟩

/-- A class without a package, and another one of its simple name behind it. -/
def plainFirst : Model :=
  [⟨"A", .null, .bool false, .bool false, [], [⟨"y", .scalar "int", .null, .bool false⟩]⟩,
   ⟨"A", .str "p.A", .bool false, .bool false, [], [⟨"x", .scalar "int", .null, .bool false⟩]⟩]

/-- The same classes the other way round. -/
def plainLast : Model := plainFirst.reverse

/-- A workspace without files. -/
def emptyWorkspace : Workspace := ⟨FileTree.empty ["w"], "", ⟨"", [], 0⟩⟩

theorem namedApart_plainFirst : NamedApart plainFirst where
  dotted := by
    have bare : Dotted.last "A" = "A" ∧ '/' ∉ "A".toList := by decide +kernel
    have packaged : Dotted.last "p.A" = "A" ∧ '/' ∉ "p.A".toList := by decide +kernel
    simp only [plainFirst, List.mem_cons, List.not_mem_nil, or_false]
    rintro entity (rfl | rfl)
    · exact ⟨"A", rfl, bare⟩
    · exact ⟨"p.A", rfl, packaged⟩
  distinct := by simp [plainFirst, Entity.key, Json.truthy]

/-- The class without a package comes first, so both documents are kept. -/
theorem publish_plainFirst :
    NamedApart plainFirst ∧
    ∃ reports, String.join (reports.map Report.text) =
        "Schema saved to: o/A.json\nSchema saved to: o/p.A.json\n" ∧
      ((((documents reports).map (·.name)).Nodup ∧ ∀ document ∈ documents reports,
          (Session.final (publish plainFirst [0, 1] ⟨.directory "o", none⟩
            emptyWorkspace)).files.read document.path = .ok document.content) ↔
        (documents reports).Pairwise Apart) := by
  have named : ∀ selected, plainFirst.select [0, 1] none = .ok selected →
      NamedApart (selected.filterMap (plainFirst[·]?)) := by
    intro selected h
    obtain rfl : [0, 1] = selected := Except.ok.inj h
    exact namedApart_plainFirst
  obtain ⟨reports, -, printed, kept⟩ := publish_keeps_documents_iff named "o" emptyWorkspace
  have text : (Session.final (publish plainFirst [0, 1] ⟨.directory "o", none⟩
      emptyWorkspace)).printed = "Schema saved to: o/A.json\nSchema saved to: o/p.A.json\n" := by
    decide +kernel
  refine ⟨namedApart_plainFirst, reports, ?_, kept⟩
  rw [printed] at text
  simpa [emptyWorkspace] using text

theorem namedApart_plainLast : NamedApart plainLast where
  dotted := fun entity mem => namedApart_plainFirst.dotted entity (List.mem_reverse.mp mem)
  distinct := by simp [plainLast, plainFirst, Entity.key, Json.truthy]

private theorem eq_ok_of_toOption {ε α : Type} {result : Except ε α} {value : α}
    (h : result.toOption = some value) : result = .ok value := by
  cases result with
  | error e => cases h
  | ok found => exact congrArg _ (Option.some.inj h)

/-- The text of the document of a class, if it has one. -/
def textOf? (model : Model) (number : Nat) : Option String :=
  (model.compileClass number []).1.toOption.map (·.toJson.pretty)

/-- The other way round, both documents go to one file, and the first one is lost. -/
theorem publish_overwrites :
    NamedApart plainLast ∧ plainLast.select [0, 1] none = .ok [0, 1] ∧
    ∃ first second, textOf? plainLast 0 = some first ∧ textOf? plainLast 1 = some second ∧
      first ≠ second ∧
      (Session.final (publish plainLast [0, 1] ⟨.directory "o", none⟩ emptyWorkspace)).printed =
        "Schema saved to: o/A.json\nSchema saved to: o/A.json\n" ∧
      (Session.final (publish plainLast [0, 1] ⟨.directory "o", none⟩
        emptyWorkspace)).files.read "o/A.json" = .ok (Text.encode second.toList) := by
  have first : textOf? plainLast 0 =
      some (Schema.object "A" [("x", ⟨.bare .integer, none⟩)]).toJson.pretty := by decide +kernel
  have second : textOf? plainLast 1 =
      some (Schema.object "A" [("y", ⟨.bare .integer, none⟩)]).toJson.pretty := by decide +kernel
  have read : ((Session.final (publish plainLast [0, 1] ⟨.directory "o", none⟩
      emptyWorkspace)).files.read "o/A.json").toOption = some (Text.encode
        (Schema.object "A" [("y", ⟨.bare .integer, none⟩)]).toJson.pretty.toList) := by
    decide +kernel
  exact ⟨namedApart_plainLast, rfl, _, _, first, second, by decide +kernel, by decide +kernel,
    eq_ok_of_toOption read⟩

end Publish

end ClassSchema
