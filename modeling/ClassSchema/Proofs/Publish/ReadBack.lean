import ClassSchema.Proofs.Json.Indented
import ClassSchema.Proofs.Publish.Reports
import ClassSchema.Proofs.Schema.StoredValues

/-!
# Documents that are read back

A document that was printed, or written to a file, is read as the value it is, with its names
in their order.  Titles, descriptions, names and references may hold any characters, and
constants may be nested as deep as one likes.

Constants are copied from the model, so something has to be known of them: that they can be
stored, which holds of every model that was read or built, and that there are no reals among
them.

## Main results

* `readText_content`: a saved document is decoded to the text that was written.
* `documents_read_back`: the text of a document is that document, wherever it went.
-/

namespace ClassSchema.Publish

open Json

/-- Where the document of a class is read after a delivery: in what was printed since, or in its
file. -/
inductive ReadBack (taken : List String) (entity : Entity) (workspace after : Workspace) :
    Destination → Json → Prop
  | console {text : String} {content : Json} :
      after.printed = workspace.printed ++ text → parse text.toList = .ok content →
      ReadBack taken entity workspace after .console content
  | directory {directory name : String} {bytes : List Nat} {text : List Char} {content : Json} :
      documentName taken entity = .ok name →
      after.files.read (documentPath directory name) = .ok bytes →
      Text.readText .utf8 bytes = .ok text → parse text = .ok content →
      ReadBack taken entity workspace after (.directory directory) content

/-- **A saved document is decoded to the text that was written**: it has no carriage returns. -/
theorem readText_content {schema : Schema} (noReal : schema.toJson.Every IsNoReal) :
    Text.readText .utf8 (Text.encode schema.toJson.pretty.toList) =
      .ok schema.toJson.pretty.toList := by
  rw [Text.readText_encode, Text.unifyNewlines_of_notMem (notMem_pretty noReal)]

/-- A delivery that says more than a remark can be read back. -/
theorem Delivers.readBack {destination : Destination} {taken taken' : List String}
    {entity : Entity} {schema : Schema} {workspace after : Workspace} {report : Report}
    (h : Delivers destination taken entity schema workspace report taken' after)
    (content : Schema.definesContent schema.members = true)
    (noReal : schema.toJson.Every IsNoReal) (storable : schema.toJson.Every IsStorable) :
    ReadBack taken entity workspace after destination schema.toJson := by
  cases h with
  | remarked noContent =>
      rw [content] at noContent
      cases noContent
  | printed _ hConsole =>
      subst hConsole
      have line : ∀ c ∈ ['\n'], isSpace c = true := List.forall_mem_singleton.mpr rfl
      have text : parse (schema.toJson.pretty ++ "\n").toList = .ok schema.toJson := by
        rw [String.toList_append]
        exact parse_pretty noReal storable line
      exact .console (String.append_assoc ..) text
  | saved _ hDirectory hName hWrite =>
      subst hDirectory
      have text : parse schema.toJson.pretty.toList = .ok schema.toJson := by
        simpa using @parse_pretty _ noReal storable [] (by simp)
      exact .directory hName (FileTree.read_write hWrite) (readText_content noReal) text

/-- **Documents are read back unchanged.**  Constants of models that were read or built can be
stored.  If those of a model can, and there are no reals among those of a document, then the text
of the document is read as that document, with white space behind it or without; and so is what a
delivery prints, or writes to a file, whatever was there before. -/
theorem documents_read_back :
    (∀ bytes model, Model.ofBytes bytes = .ok model → model.Storable) ∧
    (∀ sources includeStatic, (Java.buildModel sources includeStatic).model.Storable) ∧
    ∀ (model : Model) (number : Nat) (visited visited' : Visited) (schema : Schema),
      model.Storable → model.compileClass number visited = (.ok schema, visited') →
      schema.toJson.Every IsNoReal →
        (∀ blanks : List Char, (∀ c ∈ blanks, isSpace c = true) →
          parse (schema.toJson.pretty.toList ++ blanks) = .ok schema.toJson) ∧
        ∀ destination taken entity workspace taken' after,
          deliver destination taken entity schema workspace = .ok taken' after →
          Schema.definesContent schema.members = true →
            ReadBack taken entity workspace after destination schema.toJson := by
  refine ⟨fun _ _ => Model.storable_of_ofBytes, Java.storable_buildModel, ?_⟩
  intro model number visited visited' schema hModel compiled noReal
  have storable := Model.storable_of_compileClass hModel compiled
  refine ⟨fun blanks => parse_pretty noReal storable, ?_⟩
  intro destination taken entity workspace taken' after hDeliver content
  rcases deliver_cases destination taken entity schema workspace with
    ⟨report, _, _, hSame, delivers⟩ | ⟨failure, hFails⟩
  · rw [hDeliver] at hSame
    cases hSame
    exact delivers.readBack content noReal storable
  · rw [hDeliver] at hFails
    cases hFails

/-- A scale whose constants are a clef above the basic plane, quotes and line ends, empty and nested
values, and an integer of more than 64 bits. -/
def scale : Model :=
  [⟨"Scale", .str "music.Scale", .bool true, .bool false,
    [.str "𝄞 \"é\"\r\n", .int (-100000000000000000000), .null, .bool true, .arr [], .obj [],
     .obj [("z", .arr [.arr [.str "\\"], .obj [("", .int 0)]]), ("a", .bool false)]],
    []⟩]

/-- The document of the scale. -/
def scaleSchema : Schema :=
  .enumeration "Scale"
    [.str "𝄞 \"é\"\r\n", .int (-100000000000000000000), .null, .bool true, .arr [], .obj [],
     .obj [("z", .arr [.arr [.str "\\"], .obj [("", .int 0)]]), ("a", .bool false)]]

theorem storable_scale : scale.Storable := by
  have long : (Nat.toDigits 10 100000000000000000000).length ≤ maxDigits := by decide +kernel
  have zero : (Nat.toDigits 10 0).length ≤ maxDigits := by decide +kernel
  intro entity mem constant hConstant
  obtain rfl := List.mem_singleton.mp mem
  simp only [List.mem_cons, List.not_mem_nil, or_false] at hConstant
  rcases hConstant with rfl | rfl | rfl | rfl | rfl | rfl | rfl
  · trivial
  · exact long
  · trivial
  · trivial
  · exact storable_arr (by simp)
  · exact storable_obj List.nodup_nil trivial
  · have nested : EveryMember IsStorable [("", .int 0)] := ⟨zero, trivial⟩
    have list : (arr [.arr [.str "\\"], .obj [("", .int 0)]]).Every IsStorable :=
      ⟨trivial, ⟨trivial, trivial, trivial⟩, storable_obj (by decide) nested, trivial⟩
    exact storable_obj (by decide) ⟨list, trivial, trivial⟩

theorem noReal_scaleSchema : scaleSchema.toJson.Every IsNoReal := by
  simp [scaleSchema, Schema.toJson, Schema.members, Every, EveryMember, EveryItem, IsNoReal]

/-- The document of the scale is read back from what is printed. -/
theorem scale_read_back :
    scale.Storable ∧ scale.compileClass 0 [] = (.ok scaleSchema, [.str "music.Scale"]) ∧
      scaleSchema.toJson.Every IsNoReal ∧
      parse scaleSchema.toJson.pretty.toList = .ok scaleSchema.toJson ∧
      ∃ entity after,
        deliver .console [] entity scaleSchema ⟨FileTree.empty ["w"], "Hello\n", ⟨"", [], 0⟩⟩ =
          .ok [] after ∧
        ReadBack [] entity ⟨FileTree.empty ["w"], "Hello\n", ⟨"", [], 0⟩⟩ after .console
          scaleSchema.toJson := by
  have compiled : scale.compileClass 0 [] = (.ok scaleSchema, [.str "music.Scale"]) := rfl
  obtain ⟨text, delivered⟩ := documents_read_back.2.2 scale 0 [] _ scaleSchema storable_scale
    compiled noReal_scaleSchema
  refine ⟨storable_scale, compiled, noReal_scaleSchema, by simpa using text [] (by simp), ?_⟩
  exact ⟨scale[0], _, rfl, delivered .console [] _ _ _ _ rfl rfl⟩

end ClassSchema.Publish
