import ClassSchema.Proofs.Java.ReachableRegistry

/-!
# Leaving static fields out

Looking a name up reads declarations, qualified names and numbers.  It reads
neither the fields that classes have got so far nor whether static ones are
wanted, so what one field is resolved to has nothing to do with which other
fields are resolved, or skipped.

## Main results

* `Registry.SameDeclarations.resolveType`: types mean the same in two registries
  of the same declarations, whatever fields their classes have.
* `Registry.sameDeclarations_build`: so they mean the same once fields are resolved.
* `buildModel_skip_static`: without static fields there are the same classes under
  the same numbers, each with those of its fields that are not static.
-/

namespace ClassSchema

/-- A class without its static fields. -/
def Entity.withoutStatic (entity : Entity) : Entity :=
  { entity with fields := entity.fields.filter fun field => !field.isStatic.truthy }

namespace Java

/-! ## Registries that differ in fields -/

/-- A place without the fields of the classes around it. -/
def Scope.unbuilt (scope : Scope) : Scope :=
  { scope with chain := scope.chain.map (·.unbuilt) }

theorem Scope.file_unbuilt (scope : Scope) : scope.unbuilt.file = scope.file := rfl

theorem Scope.typeParams_unbuilt (scope : Scope) :
    scope.unbuilt.typeParams = scope.typeParams := by
  simp only [Scope.typeParams, Scope.unbuilt, List.flatMap_map, Registered.unbuilt_declaration]

namespace Registry

/-- Two registries have the same declarations and the same names.  Their classes may have got
other fields, and static ones may be wanted in one of them alone. -/
structure SameDeclarations (registry other : Registry) : Prop where
  files : other.files = registry.files
  declarations : other.declarations.map (·.unbuilt) = registry.declarations.map (·.unbuilt)
  byName : other.byName = registry.byName

theorem findSimple_unbuilt (registry : Registry) (name : String) (scope : Scope) :
    registry.findSimple name scope.unbuilt = registry.findSimple name scope := by
  simp only [findSimple, Scope.unbuilt, ← List.map_reverse, List.findSome?_map]
  rfl

/-! ## Types -/

mutual

/-- What a type means follows from what its names mean. -/
theorem resolveType_congr {registry other : Registry} {scope place : Scope}
    (hFile : place.file = scope.file) (hParams : place.typeParams = scope.typeParams)
    (hFind : ∀ name, other.findClass name place = registry.findClass name scope) :
    (type : TypeName) → other.resolveType place type = registry.resolveType scope type
  | ⟨name, arguments, dimensions⟩ => by
      simp only [Registry.resolveType, hFile, hParams, hFind,
        resolveTypes_congr hFile hParams hFind arguments]

theorem resolveTypes_congr {registry other : Registry} {scope place : Scope}
    (hFile : place.file = scope.file) (hParams : place.typeParams = scope.typeParams)
    (hFind : ∀ name, other.findClass name place = registry.findClass name scope) :
    (types : List TypeName) →
      other.resolveTypes place types = registry.resolveTypes scope types
  | [] => rfl
  | type :: rest => by
      simp only [Registry.resolveTypes, resolveType_congr hFile hParams hFind type,
        resolveTypes_congr hFile hParams hFind rest]

end

namespace SameDeclarations

variable {registry other : Registry} (h : SameDeclarations registry other)

include h

theorem findSimple (name : String) (scope : Scope) :
    other.findSimple name scope = registry.findSimple name scope := by
  simp only [Registry.findSimple, Registry.findImported, Registry.findWildcard, h.byName]

/-- The qualified name of a class is read, its fields are not. -/
theorem qualifiedName (number : Nat) :
    other.declarations[number]?.map (·.entity.qualifiedName) =
      registry.declarations[number]?.map (·.entity.qualifiedName) := by
  have hEntry := congrArg (fun entries => entries[number]?.map (·.entity.qualifiedName))
    h.declarations
  simp only [List.getElem?_map, Option.map_map] at hEntry
  exact hEntry

theorem findNested (number : Nat) (names : List String) :
    other.findNested number names = registry.findNested number names := by
  induction names generalizing number with
  | nil => rfl
  | cons name rest ih =>
      have hName := h.qualifiedName number
      unfold Registry.findNested
      cases hOther : other.declarations[number]? with
      | none =>
          rw [hOther, Option.map_none, eq_comm, Option.map_eq_none_iff] at hName
          rw [hName]
      | some registered =>
          rw [hOther, Option.map_some, eq_comm, Option.map_eq_some_iff] at hName
          obtain ⟨same, hSame, hName⟩ := hName
          simp only [hSame, hName, h.byName, ih]

/-- **Names mean the same classes**, whatever fields classes have. -/
theorem findClass {scope place : Scope} (hPlace : place.unbuilt = scope.unbuilt)
    (name : String) : other.findClass name place = registry.findClass name scope := by
  have hSimple (name : String) :
      other.findSimple name place = registry.findSimple name scope := by
    rw [← findSimple_unbuilt, hPlace, findSimple_unbuilt, h.findSimple]
  unfold Registry.findClass
  simp only [hSimple, h.findNested, h.byName]

/-- **Types mean the same types**, whatever fields classes have. -/
theorem resolveType {scope place : Scope} (hPlace : place.unbuilt = scope.unbuilt)
    (type : TypeName) : other.resolveType place type = registry.resolveType scope type := by
  have hFile : place.file = scope.file := by
    rw [← place.file_unbuilt, hPlace, scope.file_unbuilt]
  have hParams : place.typeParams = scope.typeParams := by
    rw [← place.typeParams_unbuilt, hPlace, scope.typeParams_unbuilt]
  exact resolveType_congr hFile hParams (h.findClass hPlace) type

theorem scopeOf (registered : Registered) :
    (other.scopeOf registered).unbuilt = (registry.scopeOf registered).unbuilt := by
  have hEntry (number : Nat) : other.declarations[number]?.map (·.unbuilt) =
      registry.declarations[number]?.map (·.unbuilt) := by
    simpa only [List.getElem?_map] using congrArg (·[number]?) h.declarations
  simp only [Scope.unbuilt, Registry.scopeOf, h.files, List.map_filterMap, hEntry]

theorem resolveField (registered : Registered) (kind : DeclKind) (field : FieldDecl) :
    other.resolveField (other.scopeOf registered) kind field =
      registry.resolveField (registry.scopeOf registered) kind field := by
  simp only [Registry.resolveField, h.resolveType (h.scopeOf registered)]

end SameDeclarations

/-- Resolving fields makes no difference to what is resolved afterwards. -/
theorem sameDeclarations_build (registry : Registry) :
    SameDeclarations registry registry.build where
  files := rfl
  declarations := by simp [build, Registered.unbuilt, Function.comp_def]
  byName := rfl

end Registry

/-! ## Registering -/

mutual

/-- A class is registered without fields, and as what its declaration says. -/
theorem entity_of_mem_register {file : Nat} {parent : String} {chain : List Nat} {number : Nat} :
    (decl : TypeDecl) → ∀ registered ∈ register file parent chain number decl,
      ∃ qualifiedName, registered.entity = entityOf qualifiedName registered.declaration
  | ⟨_, _, _, _, _, _, types⟩, registered, mem => by
      rw [register, List.mem_cons] at mem
      obtain rfl | mem := mem
      · exact ⟨_, rfl⟩
      · exact entity_of_mem_registerAll types registered mem

theorem entity_of_mem_registerAll {file : Nat} {parent : String} {chain : List Nat}
    {number : Nat} :
    (decls : List TypeDecl) → ∀ registered ∈ registerAll file parent chain number decls,
      ∃ qualifiedName, registered.entity = entityOf qualifiedName registered.declaration
  | [], _, mem => nomatch mem
  | decl :: rest, registered, mem => by
      rw [registerAll, List.mem_append] at mem
      obtain mem | mem := mem
      · exact entity_of_mem_register decl registered mem
      · exact entity_of_mem_registerAll rest registered mem

end

namespace Registry

theorem entity_of_mem_foldl_add {includeStatic : Bool} {sources : List SourceFile}
    {registered : Registered}
    (mem : registered ∈ (sources.foldl add (empty includeStatic)).declarations) :
    ∃ qualifiedName, registered.entity = entityOf qualifiedName registered.declaration := by
  induction sources using List.reverseRecOn with
  | nil => nomatch mem
  | append_singleton sources source ih =>
      rw [List.foldl_append] at mem
      rcases List.mem_append.mp mem with mem | mem
      · exact ih mem
      · exact entity_of_mem_registerAll _ _ mem

/-- Whether static fields are wanted makes no difference to what is registered. -/
theorem foldl_add_wanting (wanted : Bool) (registry : Registry) (sources : List SourceFile) :
    sources.foldl add { registry with includeStatic := wanted } =
      { sources.foldl add registry with includeStatic := wanted } := by
  induction sources generalizing registry with
  | nil => rfl
  | cons source rest ih => exact ih (registry.add source)

theorem sameDeclarations_wanting (wanted : Bool) (registry : Registry) :
    SameDeclarations registry { registry with includeStatic := wanted } := ⟨rfl, rfl, rfl⟩

end Registry

/-! ## Static fields -/

/-- What is built for a field of a declaration, apart from its type. -/
structure Registered.BuildsField (registered : Registered) (written : FieldDecl) (field : Field) :
    Prop where
  name : field.name = written.name
  docComment : field.docComment = (written.docComment.map Json.str).getD .null
  isStatic : ∃ static, field.isStatic = .bool static ∧
    (static = true ↔
      "static" ∈ written.modifiers ∨ registered.entity.isInterface = .bool true)

/-- Resolving a field of a declaration builds it. -/
theorem Registered.BuildsField.of_resolveField {registered : Registered}
    (hInterface : registered.entity.isInterface =
      .bool (registered.declaration.kind = .interfaceDecl))
    (registry : Registry) (scope : Scope) (written : FieldDecl) :
    registered.BuildsField written
      (registry.resolveField scope registered.declaration.kind written) where
  name := rfl
  docComment := by
    rw [Registry.resolveField]
    cases written.docComment <;> rfl
  isStatic := by
    refine ⟨Registry.isStatic registered.declaration.kind written, rfl, ?_⟩
    simp [hInterface, Registry.isStatic]

namespace Registry

/-- The fields of a declaration, static or not. -/
def allFieldsOf (registry : Registry) (registered : Registered) : List Field :=
  registered.declaration.fields.map
    (registry.resolveField (registry.scopeOf registered) registered.declaration.kind)

/-- **Static fields are filtered out** of those that are resolved. -/
theorem fieldsOf_eq_filter (registry : Registry) (registered : Registered) :
    registry.fieldsOf registered = (registry.allFieldsOf registered).filter fun field =>
      registry.includeStatic || !field.isStatic.truthy := by
  rw [allFieldsOf, List.filter_map]
  rfl

theorem SameDeclarations.allFieldsOf {registry other : Registry}
    (h : SameDeclarations registry other) (registered : Registered) :
    other.allFieldsOf registered = registry.allFieldsOf registered :=
  List.map_congr_left fun field _ => h.resolveField registered _ field

end Registry

/-- A registered declaration without the static fields of its class. -/
def Registered.withoutStatic (registered : Registered) : Registered :=
  { registered with entity := registered.entity.withoutStatic }

namespace Registry

variable {registry : Registry}
  (hEmpty : ∀ registered ∈ registry.declarations, registered.entity.fields = [])

include hEmpty

/-- Building classes without fields gives them the fields that are wanted. -/
theorem build_declarations (wanted : Bool) :
    { registry with includeStatic := wanted }.build.declarations =
      registry.declarations.map fun registered =>
        { registered with
          entity := { registered.entity with
            fields := (registry.allFieldsOf registered).filter fun field =>
              wanted || !field.isStatic.truthy } } := by
  refine List.map_congr_left fun registered mem => ?_
  simp only [fieldsOf_eq_filter, hEmpty registered mem, List.nil_append,
    (sameDeclarations_wanting wanted registry).allFieldsOf]

/-- **A class without static fields** is what is built where they are not wanted. -/
theorem build_withoutStatic :
    { registry with includeStatic := false }.build.declarations =
      { registry with includeStatic := true }.build.declarations.map Registered.withoutStatic := by
  rw [build_declarations hEmpty, build_declarations hEmpty, List.map_map]
  simp [Registered.withoutStatic, Entity.withoutStatic, Function.comp_def]

end Registry

/-- **Leaving static fields out** changes nothing but which fields classes have.  The declarations
are the same under the same numbers and names, and a class has those of its fields that are not
static, each with the type and the doc comment that it has otherwise.  A field is static if it is
declared so or if its class is an interface. -/
theorem buildModel_skip_static (sources : List SourceFile) :
    let full := buildModel sources true
    let kept := buildModel sources false
    kept.entries = full.entries ∧ kept.files = full.files ∧ kept.byName = full.byName ∧
      kept.declarations = full.declarations.map Registered.withoutStatic ∧
      kept.model = full.model.map Entity.withoutStatic ∧
      ∀ registered ∈ full.declarations,
        List.Forall₂ registered.BuildsField registered.declaration.fields
          registered.entity.fields := by
  intro full kept
  -- Both are built from one registry, which wants static fields or not.
  let registry := sources.foldl Registry.add (Registry.empty true)
  have hEntity : ∀ registered ∈ registry.declarations,
      ∃ qualifiedName, registered.entity = entityOf qualifiedName registered.declaration :=
    fun registered mem => Registry.entity_of_mem_foldl_add mem
  have hEmpty : ∀ registered ∈ registry.declarations, registered.entity.fields = [] := by
    intro registered mem
    obtain ⟨_, hEntity⟩ := hEntity registered mem
    rw [hEntity, entityOf]
  have hFull : full = { registry with includeStatic := true }.build :=
    congrArg Registry.build (Registry.foldl_add_wanting true (Registry.empty true) sources)
  have hKept : kept = { registry with includeStatic := false }.build :=
    congrArg Registry.build (Registry.foldl_add_wanting false (Registry.empty true) sources)
  have hDeclarations : kept.declarations = full.declarations.map Registered.withoutStatic := by
    rw [hKept, hFull, Registry.build_withoutStatic hEmpty]
  refine ⟨by rw [hKept, hFull]; rfl, by rw [hKept, hFull]; rfl, by rw [hKept, hFull]; rfl,
    hDeclarations, ?_, ?_⟩
  · rw [Registry.model, Registry.model, hDeclarations, List.map_map, List.map_map]
    rfl
  · intro registered mem
    rw [hFull, Registry.build_declarations hEmpty, List.mem_map] at mem
    obtain ⟨unbuilt, mem, rfl⟩ := mem
    obtain ⟨_, hEntity⟩ := hEntity unbuilt mem
    simp only [Bool.true_or, List.filter_true]
    rw [Registry.allFieldsOf, List.forall₂_map_right_iff, List.forall₂_same]
    intro written _
    exact .of_resolveField (by rw [hEntity, entityOf]) registry _ written

end Java

end ClassSchema
