import ClassSchema.Proofs.Java.Layout
import ClassSchema.Proofs.Java.TopLevel

/-!
# Names that a source does not declare

A field may be typed with a simple name that its source declares nowhere: that of a
library class, of a class in another source, or of a record, since records are dropped
and leave no trace.  All of these are looked up in the same way.  A single import of the
name decides alone; without one, the package and the wildcard imports give qualified
names in turn, and the first of them that some source declares is the class.  Only if
there is none, the name is taken for that of a library class.

So a record does not keep a class of the same name in another source from being found.

## Main results

* `findImported_eq`: the names that are tried one after the other.
* `MeansOutside.isReference_iff`: when a class is meant.
* `undeclared_resolved`: the types that are built for fields with such names.
-/

namespace ClassSchema.Java

/-! ## What such a name means -/

/-- The qualified names that a class of another source may have if it is called by a simple name:
that of a single import, or those in the package and in what the wildcard imports bring. -/
def SourceFile.namesOutside (source : SourceFile) (name : String) : List String :=
  match source.imports.find? (·.brings name) with
  | some imported => [imported.name]
  | none =>
      Dotted.qualify source.package name ::
        (source.imports.filter (·.isWildcard)).map (·.name ++ "." ++ name)

/-- Some sources declare a class with a qualified name. -/
def DeclaresClass (sources : List SourceFile) (qualified : String) : Prop :=
  ∃ occurrence ∈ sources.flatMap (·.occurrences), occurrence.qualifiedName = qualified

/-- A number is that of the last of the declarations in some sources with a qualified name. -/
def IsLastDeclared (sources : List SourceFile) (qualified : String) (number : Nat) : Prop :=
  (∃ occurrence, (sources.flatMap (·.occurrences))[number]? = some occurrence ∧
    occurrence.qualifiedName = qualified) ∧
  ∀ later occurrence, number < later →
    (sources.flatMap (·.occurrences))[later]? = some occurrence →
    occurrence.qualifiedName ≠ qualified

/-- What a simple name means in a source that does not declare it. -/
inductive MeansOutside (sources : List SourceFile) (source : SourceFile) (name : String) :
    FieldType → Prop where
  | primitive : name ∈ Names.primitives → MeansOutside sources source name (.scalar name)
  /-- The first of the qualified names that is declared. -/
  | declared {before behind : List String} {qualified : String} {number : Nat} :
      name ∉ Names.primitives → source.namesOutside name = before ++ qualified :: behind →
      (∀ other ∈ before, ¬ DeclaresClass sources other) →
      IsLastDeclared sources qualified number →
      MeansOutside sources source name (.reference number)
  /-- A container of the library. -/
  | container {arguments : List FieldType} :
      name ∉ Names.primitives →
      (∀ qualified ∈ source.namesOutside name, ¬ DeclaresClass sources qualified) →
      qualifySimple name source.imports ∈ Library.containers →
      MeansOutside sources source name
        (.parameterized (qualifySimple name source.imports) arguments)
  /-- Any other class of the library. -/
  | library : name ∉ Names.primitives →
      (∀ qualified ∈ source.namesOutside name, ¬ DeclaresClass sources qualified) →
      qualifySimple name source.imports ∉ Library.containers →
      MeansOutside sources source name (.scalar (qualifySimple name source.imports))

theorem IsLastDeclared.declaresClass {sources : List SourceFile} {qualified : String}
    {number : Nat} (h : IsLastDeclared sources qualified number) :
    DeclaresClass sources qualified := by
  obtain ⟨⟨occurrence, hFound, hName⟩, _⟩ := h
  exact ⟨occurrence, List.mem_of_getElem? hFound, hName⟩

/-- **A class is meant exactly if one of the qualified names is declared.** -/
theorem MeansOutside.isReference_iff {sources : List SourceFile} {source : SourceFile}
    {name : String} {type : FieldType} (h : MeansOutside sources source name type) :
    (∃ number, type = .reference number) ↔ name ∉ Names.primitives ∧
      ∃ qualified ∈ source.namesOutside name, DeclaresClass sources qualified := by
  cases h with
  | primitive hPrimitive => simp [hPrimitive]
  | @declared before behind qualified number hName hNames _ hLast =>
      have hMem : qualified ∈ source.namesOutside name := by rw [hNames]; simp
      exact iff_of_true ⟨number, rfl⟩ ⟨hName, qualified, hMem, hLast.declaresClass⟩
  | container _ hNone _ | library _ hNone _ =>
      refine iff_of_false (by simp) fun hBoth => ?_
      obtain ⟨_, qualified, mem, hDeclared⟩ := hBoth
      exact hNone qualified mem hDeclared

/-! ## Looking it up -/

namespace Registry

/-- The names that are tried one after the other. -/
theorem findImported_eq (registry : Registry) (name : String) (source : SourceFile) :
    registry.findImported name source =
      (source.namesOutside name).findSome? registry.byName.get? := by
  have hWildcard : ∀ imports : List Import, registry.findWildcard name imports =
      ((imports.filter (·.isWildcard)).map (·.name ++ "." ++ name)).findSome?
        registry.byName.get? := by
    intro imports
    induction imports with
    | nil => rfl
    | cons imported imports ih =>
        rw [findWildcard, List.findSome?_cons, ← findWildcard, ih]
        cases hKind : imported.isWildcard <;> simp [hKind, List.findSome?_cons]
  unfold findImported SourceFile.namesOutside
  cases source.imports.find? (·.brings name) with
  | some imported => simp
  | none =>
      rw [hWildcard]
      dsimp only
      rw [List.findSome?_cons]
      cases registry.byName.get? (Dotted.qualify source.package name) <;> rfl

/-- What an entry is called under. -/
theorem Represents.qualifiedName {registry : Registry} {occurrence : Occurrence}
    {registered : Registered} (h : registry.Represents occurrence registered) :
    registered.entity.qualifiedName = .str occurrence.qualifiedName :=
  congrArg Entity.qualifiedName h.entity

namespace Reachable

variable {includeStatic : Bool} {sources : List SourceFile} {registry : Registry}

/-- Entries have the qualified names of the declarations that they represent. -/
theorem map_qualifiedName (h : Reachable includeStatic sources registry) :
    registry.declarations.map (·.entity.qualifiedName) =
      ((sources.flatMap (·.occurrences)).map (·.qualifiedName)).map .str := by
  rw [List.map_map, ← List.forall₂_eq_eq_eq, List.forall₂_map_left_iff, List.forall₂_map_right_iff]
  exact h.represents.flip.imp fun _ _ hEntry => hEntry.qualifiedName

theorem exists_qualified_iff (h : Reachable includeStatic sources registry) {name : String}
    {number : Nat} :
    (∃ registered, registry.declarations[number]? = some registered ∧
        registered.entity.qualifiedName = .str name) ↔
      ∃ occurrence, (sources.flatMap (·.occurrences))[number]? = some occurrence ∧
        occurrence.qualifiedName = name := by
  rw [← Option.map_eq_some_iff, ← List.getElem?_map, h.map_qualifiedName, List.map_map,
    List.getElem?_map, Option.map_eq_some_iff]
  simp

/-- **A qualified name leads to the last declaration with it.** -/
theorem get?_byName_iff (h : Reachable includeStatic sources registry) {name : String}
    {number : Nat} :
    registry.byName.get? name = some number ↔ IsLastDeclared sources name number := by
  rw [h.holds.get?_byName_iff, IsLast, IsLastDeclared, h.exists_qualified_iff]
  refine and_congr_right fun _ => ⟨fun last later occurrence hLater hFound hName => ?_,
    fun last later registered hLater hFound hName => ?_⟩
  · obtain ⟨registered, hRegistered, hSame⟩ :=
      h.exists_qualified_iff.mpr ⟨occurrence, hFound, hName⟩
    exact last later registered hLater hRegistered hSame
  · obtain ⟨occurrence, hOccurrence, hSame⟩ :=
      h.exists_qualified_iff.mp ⟨registered, hFound, hName⟩
    exact last later occurrence hLater hOccurrence hSame

/-- It leads to one if any declaration has it. -/
theorem get?_byName_eq_none_iff (h : Reachable includeStatic sources registry) {name : String} :
    registry.byName.get? name = none ↔ ¬ DeclaresClass sources name := by
  rw [← not_iff_not, not_not, ← ne_eq, Option.ne_none_iff_exists']
  simp only [h.holds.get?_byName_iff]
  rw [exists_isLast_iff]
  constructor
  · rintro ⟨registered, mem, hName⟩
    obtain ⟨number, hFound⟩ := List.mem_iff_getElem?.mp mem
    obtain ⟨occurrence, hOccurrence, hSame⟩ :=
      h.exists_qualified_iff.mp ⟨registered, hFound, hName⟩
    exact ⟨occurrence, List.mem_of_getElem? hOccurrence, hSame⟩
  · rintro ⟨occurrence, mem, hName⟩
    obtain ⟨number, hFound⟩ := List.mem_iff_getElem?.mp mem
    obtain ⟨registered, hRegistered, hSame⟩ :=
      h.exists_qualified_iff.mpr ⟨occurrence, hFound, hName⟩
    exact ⟨registered, List.mem_of_getElem? hRegistered, hSame⟩

end Reachable

/-- A declaration that is named nowhere in a source is not found there. -/
theorem Represents.declared_eq_none {registry : Registry} {occurrence : Occurrence}
    {registered : Registered} (h : registry.Represents occurrence registered)
    (mem : occurrence ∈ occurrence.source.occurrences) {name : String}
    (hName : name ∉ occurrence.source.names) :
    (registry.scopeOf registered).declared name = none := by
  have hNone : ∀ decls : List TypeDecl, TypeDecl.allNames decls ⊆ occurrence.source.names →
      ∀ decl ∈ decls, decl.name ≠ name := by
    intro decls hNames decl hDecl hSame
    refine hName (hNames (TypeDecl.mem_allNames.mpr ⟨decl, hDecl, ?_⟩))
    rw [TypeDecl.names_eq, List.mem_cons]
    exact .inl hSame.symm
  refine Scope.declared_eq_none_iff.mpr ⟨fun around hAround => ?_, ?_⟩
  · have hPath : around.declaration ∈ occurrence.path := by
      rw [← h.chain]
      exact List.mem_map_of_mem hAround
    have hNames := SourceFile.names_subset mem hPath
    rw [TypeDecl.names_eq] at hNames
    exact ⟨fun hSame => hName (hSame ▸ hNames List.mem_cons_self),
      hNone _ (List.subset_of_cons_subset hNames)⟩
  · rw [h.source]
    exact hNone _ (List.Subset.refl _)

/-! ## Names without dots -/

/-- A name without dots is looked up as a simple one. -/
theorem findClass_of_notMem {registry : Registry} {name : String} {scope : Scope}
    (h : '.' ∉ name.toList) : registry.findClass name scope = registry.findSimple name scope :=
  findClass_simple (by rw [Dotted.segments_eq_singleton h, List.length_singleton])

/-- A name without dots is qualified as a simple one. -/
theorem qualify_of_notMem {name : String} (h : '.' ∉ name.toList) (imports : List Import) :
    qualify name imports = qualifySimple name imports := by
  rw [qualify, Dotted.segments_eq_singleton h]

/-! ## Types of fields -/

namespace Reachable

variable {includeStatic : Bool} {sources : List SourceFile} {registry : Registry}

/-- **Where it is not declared, a simple name is looked up outside.** -/
theorem meansOutside (h : Reachable includeStatic sources registry) {occurrence : Occurrence}
    {registered : Registered} (hEntry : registry.Represents occurrence registered)
    (mem : registered ∈ registry.declarations)
    (hOccurrence : occurrence ∈ occurrence.source.occurrences) {type : TypeName}
    (hSimple : '.' ∉ type.name.toList) (hName : type.name ∉ occurrence.source.names)
    (hParams : ∀ decl ∈ occurrence.path, type.name ∉ decl.typeParams) :
    ∃ element, registry.resolveType (registry.scopeOf registered) type =
        arrayOf type.dimensions element ∧
      MeansOutside sources occurrence.source type.name element := by
  obtain ⟨name, arguments, dimensions⟩ := type
  have hNoParam : name ∉ (registry.scopeOf registered).typeParams := by
    rw [hEntry.typeParams, List.mem_flatMap]
    rintro ⟨decl, hDecl, hParam⟩
    exact hParams decl hDecl hParam
  have hFound : registry.findClass name (registry.scopeOf registered) =
      (occurrence.source.namesOutside name).findSome? registry.byName.get? := by
    rw [findClass_of_notMem hSimple, h.consistent.findSimple_of_undeclared
      (h.consistent.scopes registered mem) (hEntry.declared_eq_none hOccurrence hName),
      findImported_eq, hEntry.source]
  rw [resolveType, hFound]
  refine ⟨_, rfl, ?_⟩
  by_cases hPrimitive : name ∈ Names.primitives
  · rw [if_pos (.inl hPrimitive)]
    exact .primitive hPrimitive
  · rw [if_neg (by simp [hPrimitive, hNoParam])]
    cases hNumber : (occurrence.source.namesOutside name).findSome? registry.byName.get? with
    | some number =>
        obtain ⟨before, qualified, behind, hNames, hGet, hBefore⟩ :=
          List.findSome?_eq_some_iff.mp hNumber
        exact .declared hPrimitive hNames
          (fun other hOther => h.get?_byName_eq_none_iff.mp (hBefore other hOther))
          (h.get?_byName_iff.mp hGet)
    | none =>
        have hNone : ∀ qualified ∈ occurrence.source.namesOutside name,
            ¬ DeclaresClass sources qualified := fun qualified hMem =>
          h.get?_byName_eq_none_iff.mp (List.findSome?_eq_none_iff.mp hNumber qualified hMem)
        dsimp only
        rw [hEntry.source, qualify_of_notMem hSimple]
        split
        · next hContainer => exact .container hPrimitive hNone hContainer
        · next hContainer => exact .library hPrimitive hNone hContainer

theorem includeStatic_eq (h : Reachable includeStatic sources registry) :
    registry.includeStatic = includeStatic := by
  induction h with
  | empty => rfl
  | add _ _ ih => exact ih
  | build _ ih => exact ih

end Reachable

/-- Adding sources makes classes without fields. -/
private theorem fields_foldl_add (includeStatic : Bool) (sources : List SourceFile) :
    ∀ registered ∈ (sources.foldl add (empty includeStatic)).declarations,
      registered.entity.fields = [] := by
  induction sources using List.reverseRecOn with
  | nil => simp [empty]
  | append_singleton sources source ih =>
      intro registered mem
      rw [List.foldl_append] at mem
      rcases List.mem_append.mp mem with mem | mem
      · exact ih registered mem
      · rw [← registerAll_unbuilt, List.mem_map] at mem
        obtain ⟨unbuilt, _, rfl⟩ := mem
        rfl

end Registry

/-! ## Models -/

/-- The fields of a declaration that belong to the model. -/
def Occurrence.modelFields (includeStatic : Bool) (occurrence : Occurrence) : List FieldDecl :=
  match occurrence.path.getLast? with
  | some decl => decl.fields.filter fun field =>
      includeStatic || !Registry.isStatic decl.kind field
  | none => []

/-- What is built for a field of a declaration if it is typed with a simple name that neither its
source declares, as a class, an interface or an enum, nor a declaration around it as a type
parameter. -/
structure BuiltOutside (sources : List SourceFile) (occurrence : Occurrence) (written : FieldDecl)
    (field : Field) : Prop where
  name : field.name = written.name
  type : '.' ∉ written.type.name.toList → written.type.name ∉ occurrence.source.names →
    (∀ decl ∈ occurrence.path, written.type.name ∉ decl.typeParams) →
    ∃ element, field.type = arrayOf written.type.dimensions element ∧
      MeansOutside sources occurrence.source written.type.name element ∧
      ((∃ number, element = .reference number) ↔ written.type.name ∉ Names.primitives ∧
        ∃ qualified ∈ occurrence.source.namesOutside written.type.name,
          DeclaresClass sources qualified)

/-- **A name that its source does not declare is looked up outside**, be it the name of a record,
which is dropped.  There is a class for each declaration and a field for each that belongs to the
model, and the type that is built for a field refers to a class exactly if one of the qualified
names that come into question is declared in some source. -/
theorem undeclared_resolved (includeStatic : Bool) {sources : List SourceFile}
    (parsed : ∀ source ∈ sources, ∃ text, parse text = .ok source) :
    List.Forall₂ (fun occurrence entity =>
        List.Forall₂ (BuiltOutside sources occurrence) (occurrence.modelFields includeStatic)
          entity.fields)
      (sources.flatMap (·.occurrences)) (buildModel sources includeStatic).model := by
  have hReachable := Registry.reachable_of_parsed includeStatic parsed
  have hUnbuilt := Registry.fields_foldl_add includeStatic sources
  rw [buildModel]
  generalize sources.foldl Registry.add (Registry.empty includeStatic) = registry
    at hReachable hUnbuilt
  rw [Registry.model, Registry.build, List.map_map, List.forall₂_map_right_iff]
  have hEntries := List.forall₂_iff_zip.mp hReachable.represents
  refine List.forall₂_iff_zip.mpr ⟨hEntries.1, fun {occurrence registered} hPair => ?_⟩
  have hEntry := hEntries.2 hPair
  obtain ⟨hOccurrence, mem⟩ := List.of_mem_zip hPair
  have hFields : occurrence.modelFields includeStatic =
      registered.declaration.fields.filter fun field =>
        includeStatic || !Registry.isStatic registered.declaration.kind field := by
    rw [Occurrence.modelFields, hEntry.declaration]
  have hSource : occurrence ∈ occurrence.source.occurrences := by
    obtain ⟨source, _, hIn⟩ := List.mem_flatMap.mp hOccurrence
    obtain ⟨path, hPath, rfl⟩ := List.mem_map.mp hIn
    exact hIn
  simp only [Function.comp_apply, hUnbuilt registered mem, List.nil_append]
  rw [hFields, Registry.fieldsOf, hReachable.includeStatic_eq, List.forall₂_map_right_iff,
    List.forall₂_same]
  intro written _
  refine ⟨rfl, fun hSimple hName hParams => ?_⟩
  obtain ⟨element, hType, hMeans⟩ :=
    hReachable.meansOutside hEntry mem hSource hSimple hName hParams
  exact ⟨element, hType, hMeans, hMeans.isReference_iff⟩

/-! ### A record in a class, and a class of the same name in another source -/

def shapeText : List Char := "package p; class Shape {record Point(int x) {} Point center;}".toList

def shapeSource : SourceFile where
  package := "p"
  imports := []
  types := [{
    kind := .classDecl
    name := "Shape"
    typeParams := []
    modifiers := []
    fields := [⟨"center", ⟨"Point", [], 0⟩, none, []⟩]
    enumConstants := []
    types := [] }]

def pointText : List Char := "package p; class Point {int y;}".toList

def pointSource : SourceFile where
  package := "p"
  imports := []
  types := [{
    kind := .classDecl
    name := "Point"
    typeParams := []
    modifiers := []
    fields := [⟨"y", ⟨"int", [], 0⟩, none, []⟩]
    enumConstants := []
    types := [] }]

/-- The record in front of the field. -/
def pointRecord : List Token :=
  [.inLine .identifier "record" 24, .inLine .identifier "Point" 31, .inLine .leftParen "(" 36,
    .inLine .identifier "int" 37, .inLine .identifier "x" 41, .inLine .rightParen ")" 42,
    .inLine .leftBrace "\x7b" 44, .inLine .rightBrace "\x7d" 45]

def shapeLayout : Layout where
  front := [.inLine .packageWord "package" 0, .inLine .identifier "p" 8, .inLine .semicolon ";" 9]
  parts := [.type .classDecl [.inLine .classWord "class" 11, .inLine .identifier "Shape" 17]
    [.inLine .leftBrace "\x7b" 23]
    [.other pointRecord, .field [.inLine .identifier "Point" 47, .inLine .identifier "center" 53,
      .inLine .semicolon ";" 59]]
    (.inLine .rightBrace "\x7d" 60)]

private theorem yields_pointRecord : (Expr.rule .recordDeclaration).Yields pointRecord := by
  show Derives _ _
  decide

private theorem isValid_shapeLayout : shapeLayout.IsValid := by
  have hField : (Expr.rule .fieldDeclaration).Yields [.inLine .identifier "Point" 47,
      .inLine .identifier "center" 53, .inLine .semicolon ";" 59] := by
    show Derives _ _
    decide
  refine ⟨by show Derives _ _; decide, ?_⟩
  simp only [shapeLayout, List.mem_singleton, forall_eq]
  refine .type (.type (by show Derives _ _; decide) (.brace (by decide) rfl) ?_ rfl)
  simp only [List.forall_mem_cons]
  exact ⟨@Stretch.Fits.passed .recordDeclaration _ rfl rfl yields_pointRecord, .field hField,
    by simp⟩

private theorem tokenize_shapeText : tokenize shapeText = (shapeLayout.tokens, none) := by
  rw [tokenize_eq_within]
  decide +kernel

private theorem parse_shapeText : parse shapeText = .ok shapeSource := by
  rw [parse_eq_ok_iff, tokenize_shapeText]
  exact ⟨rfl, isValid_shapeLayout.isSentence, rfl⟩

private theorem parse_pointText : parse pointText = .ok pointSource := by
  have hTokens : tokenize pointText =
      ([.inLine .packageWord "package" 0, .inLine .identifier "p" 8, .inLine .semicolon ";" 9,
        .inLine .classWord "class" 11, .inLine .identifier "Point" 17,
        .inLine .leftBrace "\x7b" 23, .inLine .identifier "int" 24, .inLine .identifier "y" 28,
        .inLine .semicolon ";" 29, .inLine .rightBrace "\x7d" 30], none) := by
    rw [tokenize_eq_within]
    decide +kernel
  rw [parse_eq_ok_iff, hTokens]
  exact ⟨rfl, by show Derives _ _; decide, rfl⟩

/-- Where no other source declares a class of that name, the record is taken for one of the
library. -/
theorem undeclared_in_shapeSource :
    (∀ source ∈ [shapeSource], ∃ text, parse text = .ok source) ∧
      ∃ entity field, (buildModel [shapeSource] true).model = [entity] ∧ entity.fields = [field] ∧
        field.name = "center" ∧ ∀ number, field.type ≠ .reference number := by
  have parsed : ∀ source ∈ [shapeSource], ∃ text, parse text = .ok source := by
    simpa using ⟨shapeText, parse_shapeText⟩
  refine ⟨parsed, ?_⟩
  have hBuilt := undeclared_resolved true parsed
  generalize (buildModel [shapeSource] true).model = model at hBuilt
  change List.Forall₂ _ [Occurrence.mk shapeSource shapeSource.types] model at hBuilt
  cases hBuilt with
  | @cons _ entity _ _ hFields hNil =>
      cases hNil
      generalize hEntity : entity.fields = fields at hFields
      change List.Forall₂ _ [FieldDecl.mk "center" ⟨"Point", [], 0⟩ none []] fields at hFields
      cases hFields with
      | @cons _ field _ _ hField hNil =>
          cases hNil
          refine ⟨entity, field, rfl, hEntity, hField.name, fun number hType => ?_⟩
          obtain ⟨element, hElement, _, hIff⟩ :=
            hField.type (by decide) (by decide) (by decide)
          obtain ⟨_, qualified, mem, hDeclared⟩ := hIff.mp ⟨number, hElement.symm.trans hType⟩
          obtain ⟨occurrence, hOccurrence, rfl⟩ := hDeclared
          obtain rfl : occurrence = ⟨shapeSource, shapeSource.types⟩ :=
            List.mem_singleton.mp hOccurrence
          revert mem
          decide

/-- **A record does not hide a class of another source.**  The record is a member of the class whose
field is typed with its name, and its source declares nothing else that is called so. -/
theorem record_does_not_hide :
    (Expr.rule .recordDeclaration).Yields pointRecord ∧
      shapeLayout.IsValid ∧ tokenize shapeText = (shapeLayout.tokens, none) ∧
      parse shapeText = .ok shapeSource ∧ parse pointText = .ok pointSource ∧
      "Point" ∉ shapeSource.names ∧
      (buildModel [shapeSource, pointSource] true).model.map
          (·.fields.map fun field => (field.name, field.type)) =
        [[("center", .reference 1)], [("y", .scalar "int")]] :=
  ⟨yields_pointRecord, isValid_shapeLayout, tokenize_shapeText, parse_shapeText, parse_pointText,
    by decide, rfl⟩

end ClassSchema.Java
