import ClassSchema.Proofs.Java.TypeParameters

/-!
# Single imports

A file may import a class by its qualified name and then use the last segment alone.  A simple name
and a dotted one are looked up in different ways, and library classes are qualified in a third one;
still both spellings mean the same where nothing nearer has the simple name and the first segment
of the qualified one means nothing by itself.

The name may lead to a class of the model, to a container or to another class of the library:
`MeansQualified` says which of them it is.  Since both spellings agree in all cases, they do so at
every depth of a type.

## Main results

* `Registry.ImportedAs.findClass_eq`, `Registry.ImportedAs.qualify_eq`: both ways of looking up a
  name lead to the same.
* `Registry.Reachable.meansQualified`: what a qualified name means.
* `Registry.single_import_transparent`: types with either name are resolved alike.
* `Registry.resolveType_respell`: so are types in which imported names are spelled out at any depth.
* `Registry.isOf_of_scopeAt`: what is at the end of a path is a place of the registry.
-/

namespace ClassSchema.Java

/-! ## Qualified names -/

/-- What a qualified name means, with the types that its arguments mean. -/
inductive MeansQualified (sources : List SourceFile) (qualified : String)
    (arguments : List FieldType) : FieldType → Prop where
  /-- The last class that is declared under the name. -/
  | declared {number : Nat} : IsLastDeclared sources qualified number →
      MeansQualified sources qualified arguments (.reference number)
  /-- A container of the library. -/
  | container : ¬ DeclaresClass sources qualified → qualified ∈ Library.containers →
      MeansQualified sources qualified arguments (.parameterized qualified arguments)
  /-- Any other class of the library, or an unknown one. -/
  | other : ¬ DeclaresClass sources qualified → qualified ∉ Library.containers →
      MeansQualified sources qualified arguments (.scalar qualified)

namespace Registry

/-- A dotted name whose first segment stays as it is does so, too. -/
theorem qualify_of_first {name : String} (hDot : '.' ∈ name.toList) {imports : List Import}
    (hFirst : qualify (Dotted.first name) imports = Dotted.first name) :
    qualify name imports = name := by
  obtain ⟨second, rest, hSegments⟩ := Dotted.exists_segments_of_dot hDot
  rw [qualify_of_notMem (Dotted.dot_notMem_first name)] at hFirst
  unfold qualify
  rw [hSegments]
  dsimp only
  rw [if_pos hFirst]

/-- No keyword of a primitive type has a dot. -/
theorem dot_notMem_of_primitive : ∀ name ∈ Names.primitives, '.' ∉ name.toList := by decide

/-- Where no type parameter has a dot, a dotted name is looked up as a class. -/
theorem not_plain_of_dot {scope : Scope} (hParams : ∀ param ∈ scope.typeParams, '.' ∉ param.toList)
    {name : String} (hDot : '.' ∈ name.toList) :
    ¬ (name ∈ Names.primitives ∨ name ∈ scope.typeParams) :=
  not_or.mpr ⟨fun mem => dot_notMem_of_primitive _ mem hDot, fun mem => hParams _ mem hDot⟩

/-- **A dotted name is a qualified one** where its first segment means nothing. -/
theorem Reachable.meansQualified {includeStatic : Bool} {sources : List SourceFile}
    {registry : Registry} (h : Reachable includeStatic sources registry) {scope : Scope}
    (hScope : scope.IsOf registry) {qualified : String} (hDot : '.' ∈ qualified.toList)
    (hUnknown : registry.findClass (Dotted.first qualified) scope = none)
    (hUnqualified :
      qualify (Dotted.first qualified) scope.file.source.imports = Dotted.first qualified)
    (arguments : List TypeName) (dimensions : Nat) :
    ∃ element, registry.resolveType scope ⟨qualified, arguments, dimensions⟩ =
        arrayOf dimensions element ∧
      MeansQualified sources qualified (registry.resolveTypes scope arguments) element := by
  rw [resolveType, if_neg (not_plain_of_dot (h.dot_notMem_of_typeParam hScope) hDot),
    findClass_of_unknown hDot hUnknown, qualify_of_first hDot hUnqualified]
  refine ⟨_, rfl, ?_⟩
  cases hFound : registry.byName.get? qualified with
  | some number => exact .declared (h.get?_byName_iff.mp hFound)
  | none =>
      have hNone := h.get?_byName_eq_none_iff.mp hFound
      dsimp only
      split
      · next hContainer => exact .container hNone hContainer
      · next hContainer => exact .other hNone hContainer

/-! ## Names that are imported -/

/-- A simple name is that of a class that the file of a place imports, since nothing nearer has it,
and the first segment of the qualified name of that class means nothing there. -/
structure ImportedAs (registry : Registry) (scope : Scope) (name qualified : String) : Prop where
  /-- The first import that brings the name. -/
  imported : ∃ imported, scope.file.source.imports.find? (·.brings name) = some imported ∧
    imported.name = qualified
  /-- It is no keyword. -/
  not_primitive : name ∉ Names.primitives
  /-- It is no type parameter. -/
  not_param : name ∉ scope.typeParams
  /-- No declaration around the place has it, nor one directly inside these. -/
  not_around : ∀ around ∈ scope.chain, around.declaration.name ≠ name ∧
    ∀ inner ∈ around.declaration.types, inner.name ≠ name
  /-- No declaration at top level has it. -/
  not_top : ∀ decl ∈ scope.file.source.types, decl.name ≠ name
  /-- The first segment leads to no class of the model. -/
  first_unknown : registry.findClass (Dotted.first qualified) scope = none
  /-- It leads to no class of the library either. -/
  first_unqualified :
    qualify (Dotted.first qualified) scope.file.source.imports = Dotted.first qualified

namespace ImportedAs

variable {registry : Registry} {scope : Scope} {name qualified : String}

theorem last_eq (h : registry.ImportedAs scope name qualified) : Dotted.last qualified = name := by
  obtain ⟨imported, hFind, rfl⟩ := h.imported
  exact (Import.brings_iff.mp (List.find?_some hFind)).2

/-- What an import brings is the name of a class without its package. -/
theorem dot_notMem (h : registry.ImportedAs scope name qualified) : '.' ∉ name.toList := by
  rw [← h.last_eq]
  exact fun mem => (Dotted.of_mem_last mem).2 rfl

/-- **Both names lead to the same class of the model**, or to none. -/
theorem findClass_eq (h : registry.ImportedAs scope name qualified)
    (hConsistent : Consistent registry) (hScope : scope.IsOf registry)
    (hDot : '.' ∈ qualified.toList) :
    registry.findClass name scope = registry.findClass qualified scope := by
  obtain ⟨imported, hFind, hImported⟩ := h.imported
  have hNone : scope.declared name = none :=
    Scope.declared_eq_none_iff.mpr ⟨h.not_around, h.not_top⟩
  calc registry.findClass name scope
      = registry.findImported name scope.file.source := by
        rw [findClass_of_notMem h.dot_notMem, hConsistent.findSimple_of_undeclared hScope hNone]
    _ = registry.byName.get? qualified := by rw [findImported, hFind, ← hImported]
    _ = registry.findClass qualified scope := (findClass_of_unknown hDot h.first_unknown).symm

/-- **Both names are qualified alike.** -/
theorem qualify_eq (h : registry.ImportedAs scope name qualified)
    (hDot : '.' ∈ qualified.toList) :
    qualify name scope.file.source.imports = qualify qualified scope.file.source.imports := by
  obtain ⟨imported, hFind, hImported⟩ := h.imported
  calc qualify name scope.file.source.imports
      = qualifySimple name scope.file.source.imports := qualify_of_notMem h.dot_notMem _
    _ = qualified := by rw [qualifySimple, hFind, ← hImported]
    _ = qualify qualified scope.file.source.imports :=
        (qualify_of_first hDot h.first_unqualified).symm

end ImportedAs

/-! ## Types with such names -/

section Resolve

variable {registry : Registry} {scope : Scope}

/-- Two names mean the same in a place, whatever the arguments and the dimensions. -/
def MeansSame (registry : Registry) (scope : Scope) (name other : String) : Prop :=
  ∀ arguments dimensions, registry.resolveType scope ⟨name, arguments, dimensions⟩ =
    registry.resolveType scope ⟨other, arguments, dimensions⟩

/-- **An imported name means what its qualified name means**, if no type parameter has a dot. -/
theorem ImportedAs.meansSame {name qualified : String}
    (h : registry.ImportedAs scope name qualified) (hConsistent : Consistent registry)
    (hScope : scope.IsOf registry) (hParams : ∀ param ∈ scope.typeParams, '.' ∉ param.toList) :
    registry.MeansSame scope name qualified := by
  intro arguments dimensions
  by_cases hDot : '.' ∈ qualified.toList
  · have hName : ¬ (name ∈ Names.primitives ∨ name ∈ scope.typeParams) :=
      not_or.mpr ⟨h.not_primitive, h.not_param⟩
    rw [resolveType, resolveType, if_neg hName, if_neg (not_plain_of_dot hParams hDot),
      h.findClass_eq hConsistent hScope hDot, h.qualify_eq hDot]
  · -- a class without a package is imported by its simple name
    have hSame : name = qualified := h.last_eq.symm.trans (Dotted.last_eq_self hDot)
    rw [hSame]

end Resolve

end Registry

mutual

/-- A type with its names spelled in another way, at every depth. -/
def TypeName.respell (spell : String → String) : TypeName → TypeName
  | ⟨name, arguments, dimensions⟩ =>
      ⟨spell name, TypeName.respellAll spell arguments, dimensions⟩

/-- Types with their names spelled in another way. -/
def TypeName.respellAll (spell : String → String) : List TypeName → List TypeName
  | [] => []
  | type :: rest => type.respell spell :: TypeName.respellAll spell rest

end

namespace Registry

section Respell

variable {registry : Registry} {scope : Scope} {spell : String → String}

mutual

/-- Types are resolved alike if their names mean the same. -/
theorem resolveType_of_meansSame (hSame : ∀ name, registry.MeansSame scope name (spell name)) :
    (type : TypeName) →
      registry.resolveType scope (type.respell spell) = registry.resolveType scope type
  | ⟨name, arguments, dimensions⟩ => by
      rw [TypeName.respell, ← hSame name, resolveType, resolveType,
        resolveTypes_of_meansSame hSame arguments]

theorem resolveTypes_of_meansSame (hSame : ∀ name, registry.MeansSame scope name (spell name)) :
    (types : List TypeName) →
      registry.resolveTypes scope (TypeName.respellAll spell types) =
        registry.resolveTypes scope types
  | [] => rfl
  | type :: rest => by
      rw [TypeName.respellAll, resolveTypes, resolveTypes, resolveType_of_meansSame hSame type,
        resolveTypes_of_meansSame hSame rest]

end

end Respell

variable {includeStatic : Bool} {sources : List SourceFile} {registry : Registry} {scope : Scope}

/-- **Imported names can be spelled out anywhere in a type**, in every registry that can be reached
and in each of its places. -/
theorem resolveType_respell (h : Reachable includeStatic sources registry)
    (hScope : scope.IsOf registry) {spell : String → String}
    (hSpell : ∀ name, spell name = name ∨ registry.ImportedAs scope name (spell name))
    (type : TypeName) :
    registry.resolveType scope (type.respell spell) = registry.resolveType scope type := by
  refine resolveType_of_meansSame (fun name => ?_) type
  rcases hSpell name with hSame | hImported
  · rw [hSame]
    exact fun _ _ => rfl
  · exact hImported.meansSame h.consistent hScope (h.dot_notMem_of_typeParam hScope)

/-- **An import is transparent**: in every registry that can be reached and in each of its places, a
type with an imported name and one with the qualified name instead are resolved alike, whatever
their arguments and dimensions are and wherever the name leads.  If it has a package, it leads to
what the qualified name means by itself. -/
theorem single_import_transparent (h : Reachable includeStatic sources registry)
    (hScope : scope.IsOf registry) {name qualified : String}
    (hName : registry.ImportedAs scope name qualified) (arguments : List TypeName)
    (dimensions : Nat) :
    registry.resolveType scope ⟨name, arguments, dimensions⟩ =
        registry.resolveType scope ⟨qualified, arguments, dimensions⟩ ∧
      ('.' ∈ qualified.toList → ∃ element,
        registry.resolveType scope ⟨qualified, arguments, dimensions⟩ =
            arrayOf dimensions element ∧
          MeansQualified sources qualified (registry.resolveTypes scope arguments) element) :=
  ⟨hName.meansSame h.consistent hScope (h.dot_notMem_of_typeParam hScope) arguments dimensions,
    fun hDot => h.meansQualified hScope hDot hName.first_unknown hName.first_unqualified arguments
      dimensions⟩

/-! ## Places at the end of paths -/

/-- On the way only declarations of the registry are put around a place. -/
private theorem isOf_of_follow {file : RegisteredFile} (hFile : file ∈ registry.files)
    {path : List Nat} {chain : List Registered} {numbers : List Nat}
    (hChain : ∀ around ∈ chain, around ∈ registry.declarations)
    (h : scopeAt.follow registry file chain numbers path = some scope) :
    scope.IsOf registry := by
  induction path generalizing chain numbers with
  | nil =>
      obtain rfl := Option.some.inj h
      exact ⟨hFile, hChain⟩
  | cons position rest ih =>
      rw [scopeAt.follow] at h
      split at h
      · next registered hFound =>
          obtain ⟨number, _, hGet⟩ := Option.bind_eq_some_iff.mp hFound
          refine ih (fun around mem => ?_) h
          rcases List.mem_append.mp mem with mem | mem
          · exact hChain around mem
          · rw [List.mem_singleton.mp mem]
            exact List.mem_of_getElem? hGet
      · cases h

/-- **A path leads to a place of the registry**, if there is one at its end. -/
theorem isOf_of_scopeAt {file : RegisteredFile} (hFile : file ∈ registry.files) {path : List Nat}
    (h : registry.scopeAt file path = some scope) : scope.IsOf registry :=
  isOf_of_follow hFile (by simp) h

/-! ### The imports of the cart -/

theorem isOf_cartScope : cartScope.IsOf cartRegistry :=
  isOf_of_scopeAt (List.mem_of_getElem? (rfl : cartRegistry.files[1]? = some cartScope.file))
    (rfl : cartRegistry.scopeAt cartScope.file [0] = some cartScope)

theorem importedAs_item : cartRegistry.ImportedAs cartScope "Item" "shop.Item" where
  imported := ⟨⟨"shop.Item", false, false⟩, by decide +kernel, rfl⟩
  not_primitive := by decide
  not_param := by decide +kernel
  not_around := by decide +kernel
  not_top := by decide +kernel
  first_unknown := by decide +kernel
  first_unqualified := by decide +kernel

theorem importedAs_list : cartRegistry.ImportedAs cartScope "List" "java.util.List" where
  imported := ⟨⟨"java.util.List", false, false⟩, by decide +kernel, rfl⟩
  not_primitive := by decide
  not_param := by decide +kernel
  not_around := by decide +kernel
  not_top := by decide +kernel
  first_unknown := by decide +kernel
  first_unqualified := by decide +kernel

/-- The class and the container can both be spelled out. -/
theorem single_imports_of_cart :
    cartRegistry.resolveType cartScope ⟨"Item", [], 2⟩ =
        cartRegistry.resolveType cartScope ⟨"shop.Item", [], 2⟩ ∧
      cartRegistry.resolveType cartScope ⟨"List", [⟨"Item", [], 0⟩], 0⟩ =
        cartRegistry.resolveType cartScope ⟨"java.util.List", [⟨"Item", [], 0⟩], 0⟩ ∧
      ∃ element, cartRegistry.resolveType cartScope ⟨"java.util.List", [⟨"Item", [], 0⟩], 0⟩ =
          element ∧
        MeansQualified [kindSource, cartSource] "java.util.List" [.reference 0] element := by
  have hItem := single_import_transparent reachable_cartRegistry isOf_cartScope importedAs_item [] 2
  have hList := single_import_transparent reachable_cartRegistry isOf_cartScope importedAs_list
    [⟨"Item", [], 0⟩] 0
  exact ⟨hItem.1, hList.1, hList.2 (by decide)⟩

end Registry

end ClassSchema.Java
