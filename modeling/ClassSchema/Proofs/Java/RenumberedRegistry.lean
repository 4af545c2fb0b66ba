import ClassSchema.Java.Resolution
import ClassSchema.Proofs.Schema.Renumbering

/-!
# Registries under other numbers

A registry numbers its declarations and its files.  Under other numbers the same
declarations are found by the same names: each way of looking a name up leads to
the number that the declaration has now, and the type of a field is resolved to
the same type with the numbers exchanged.

## Main results

* `Registry.Renumbered.findClass`, `Registry.Renumbered.resolveType`: names mean the
  same classes, and types the same types.
* `Registry.Renumbered.build`: the models that are built are renumbered alike.
-/

namespace ClassSchema.Java

/-! ## Renumbering -/

/-- A declaration with other numbers for the declarations and the files. -/
def Registered.renumber (ρ φ : Nat → Nat) (registered : Registered) : Registered :=
  { registered with
    file := φ registered.file
    chain := registered.chain.map ρ
    nested := registered.nested.map ρ
    entity := registered.entity.renumber ρ }

/-- A source with other numbers for its declarations. -/
def RegisteredFile.renumber (ρ : Nat → Nat) (file : RegisteredFile) : RegisteredFile :=
  { file with entries := file.entries.map ρ }

/-- A place with other numbers for the declarations and the files. -/
def Scope.renumber (ρ φ : Nat → Nat) (scope : Scope) : Scope where
  file := scope.file.renumber ρ
  chain := scope.chain.map (·.renumber ρ φ)

/-- The declarations and files of one registry under other numbers are those of another one. -/
structure Registry.Renumbered (ρ φ : Equiv.Perm Nat) (registry renumbered : Registry) : Prop where
  includeStatic : renumbered.includeStatic = registry.includeStatic
  files : ∀ number, renumbered.files[φ number]? = registry.files[number]?.map (·.renumber ρ)
  declarations : ∀ number,
    renumbered.declarations[ρ number]? = registry.declarations[number]?.map (·.renumber ρ φ)
  byName : ∀ name, renumbered.byName.get? name = (registry.byName.get? name).map ρ

/-! ## Looking names up -/

theorem numberNamed_map (ρ : Nat → Nat) (name : String) (decls : List TypeDecl)
    (numbers : List Nat) :
    numberNamed name decls (numbers.map ρ) = (numberNamed name decls numbers).map ρ := by
  simp only [numberNamed, List.zip_map_right, List.find?_map, Option.map_map]
  rfl

theorem Registered.lookup_renumber (ρ φ : Nat → Nat) (name : String) (registered : Registered) :
    (registered.renumber ρ φ).lookup name = (registered.lookup name).map ρ := by
  simp only [Registered.lookup, Registered.renumber, List.getLast?_map, numberNamed_map]
  split <;> rfl

theorem Scope.typeParams_renumber (ρ φ : Nat → Nat) (scope : Scope) :
    (scope.renumber ρ φ).typeParams = scope.typeParams := by
  simp only [Scope.typeParams, Scope.renumber, List.flatMap_map]
  rfl

namespace Registry.Renumbered

variable {ρ φ : Equiv.Perm Nat} {registry renumbered : Registry}
  (h : Renumbered ρ φ registry renumbered)

include h

theorem findWildcard (name : String) (imports : List Import) :
    renumbered.findWildcard name imports = (registry.findWildcard name imports).map ρ := by
  unfold Registry.findWildcard
  induction imports with
  | nil => rfl
  | cons imported rest ih =>
      rw [List.findSome?_cons, List.findSome?_cons, ih]
      by_cases hWildcard : imported.isWildcard = true
      · simp only [hWildcard, if_true, h.byName]
        cases registry.byName.get? (imported.name ++ "." ++ name) <;> rfl
      · simp [hWildcard]

theorem findImported (name : String) (source : SourceFile) :
    renumbered.findImported name source = (registry.findImported name source).map ρ := by
  unfold Registry.findImported
  split
  · exact h.byName _
  · rw [h.byName, h.findWildcard, Option.map_or]

theorem findSimple (name : String) (scope : Scope) :
    renumbered.findSimple name (scope.renumber ρ φ) =
      (registry.findSimple name scope).map ρ := by
  have hChain : (scope.renumber ρ φ).chain.reverse.findSome? (·.lookup name) =
      (scope.chain.reverse.findSome? (·.lookup name)).map ρ := by
    rw [Scope.renumber, ← List.map_reverse, List.findSome?_map, List.map_findSome?]
    congr 1
    funext registered
    exact registered.lookup_renumber ρ φ name
  have hFile : numberNamed name (scope.renumber ρ φ).file.source.types
      (scope.renumber ρ φ).file.entries =
        (numberNamed name scope.file.source.types scope.file.entries).map ρ :=
    numberNamed_map ρ name scope.file.source.types scope.file.entries
  have hImported := h.findImported name scope.file.source
  unfold Registry.findSimple
  rw [hChain, hFile, Option.map_or, Option.map_or, ← hImported]
  rfl

theorem findNested (number : Nat) (names : List String) :
    renumbered.findNested (ρ number) names = (registry.findNested number names).map ρ := by
  induction names generalizing number with
  | nil => rfl
  | cons name rest ih =>
      simp only [Registry.findNested, h.declarations]
      cases registry.declarations[number]? with
      | none => rfl
      | some registered =>
          have hName : (registered.renumber ρ φ).entity.qualifiedName =
              registered.entity.qualifiedName := rfl
          simp only [Option.map_some, hName]
          cases registered.entity.qualifiedName with
          | str qualified =>
              simp only [h.byName]
              cases registry.byName.get? (qualified ++ "." ++ name) with
              | none => rfl
              | some inner => exact ih inner
          | _ => rfl

/-- **Names mean the same classes.** -/
theorem findClass (name : String) (scope : Scope) :
    renumbered.findClass name (scope.renumber ρ φ) = (registry.findClass name scope).map ρ := by
  unfold Registry.findClass
  split
  · next first second rest _ =>
      rw [h.findSimple]
      cases registry.findSimple first scope with
      | none => exact h.byName name
      | some outer => exact h.findNested outer (second :: rest)
  · exact h.findSimple name scope

end Registry.Renumbered

/-! ## Types -/

theorem renumber_arrayOf (ρ : Nat → Nat) (dimensions : Nat) (type : FieldType) :
    (arrayOf dimensions type).renumber ρ = arrayOf dimensions (type.renumber ρ) := by
  induction dimensions with
  | zero => rfl
  | succ dimensions ih => simp [arrayOf, FieldType.renumber, ih]

namespace Registry.Renumbered

variable {ρ φ : Equiv.Perm Nat} {registry renumbered : Registry}

mutual

/-- **Types are resolved alike.** -/
theorem resolveType (h : Renumbered ρ φ registry renumbered) (scope : Scope) :
    (type : TypeName) →
      renumbered.resolveType (scope.renumber ρ φ) type =
        (registry.resolveType scope type).renumber ρ
  | ⟨name, arguments, dimensions⟩ => by
      have hImports : (scope.renumber ρ φ).file.source.imports = scope.file.source.imports := rfl
      simp only [Registry.resolveType, renumber_arrayOf, Scope.typeParams_renumber, h.findClass,
        hImports, resolveTypes h scope arguments]
      congr 1
      split
      · rfl
      · cases registry.findClass name scope with
        | some number => rfl
        | none =>
            simp only [Option.map_none]
            split <;> rfl

theorem resolveTypes (h : Renumbered ρ φ registry renumbered) (scope : Scope) :
    (types : List TypeName) →
      renumbered.resolveTypes (scope.renumber ρ φ) types =
        FieldType.renumberAll ρ (registry.resolveTypes scope types)
  | [] => rfl
  | type :: rest => by
      simp only [Registry.resolveTypes, FieldType.renumberAll, resolveType h scope type,
        resolveTypes h scope rest]

end

/-! ## Building the model -/

theorem scopeOf (h : Renumbered ρ φ registry renumbered) (registered : Registered) :
    renumbered.scopeOf (registered.renumber ρ φ) =
      (registry.scopeOf registered).renumber ρ φ := by
  have hFile : renumbered.files[φ registered.file]?.getD ⟨⟨"", [], []⟩, []⟩ =
      (registry.files[registered.file]?.getD ⟨⟨"", [], []⟩, []⟩).renumber ρ := by
    rw [h.files]
    cases registry.files[registered.file]? <;> rfl
  have hChain : (registered.chain.map ρ).filterMap (renumbered.declarations[·]?) =
      (registered.chain.filterMap (registry.declarations[·]?)).map (·.renumber ρ φ) := by
    rw [List.filterMap_map, List.map_filterMap]
    congr 1
    funext number
    exact h.declarations number
  simp only [Registry.scopeOf, Registered.renumber, Scope.renumber, hFile, hChain]

theorem fieldsOf (h : Renumbered ρ φ registry renumbered) (registered : Registered) :
    renumbered.fieldsOf (registered.renumber ρ φ) =
      (registry.fieldsOf registered).map (·.renumber ρ) := by
  have hField : ∀ field,
      renumbered.resolveField ((registry.scopeOf registered).renumber ρ φ)
          registered.declaration.kind field =
        (registry.resolveField (registry.scopeOf registered)
          registered.declaration.kind field).renumber ρ := by
    intro field
    simp only [Registry.resolveField, Field.renumber, h.resolveType]
  have hDeclaration : (registered.renumber ρ φ).declaration = registered.declaration := rfl
  simp only [Registry.fieldsOf, hDeclaration, h.scopeOf, h.includeStatic, List.map_map]
  congr 1
  funext field
  exact hField field

/-- **The models that are built are renumbered alike.** -/
theorem build (h : Renumbered ρ φ registry renumbered) :
    Renumbered ρ φ registry.build renumbered.build where
  includeStatic := h.includeStatic
  files := h.files
  declarations number := by
    simp only [Registry.build, List.getElem?_map, h.declarations, Option.map_map]
    congr 1
    funext registered
    simp only [Function.comp_apply, h.fieldsOf]
    simp [Registered.renumber, Entity.renumber]
  byName := h.byName

/-- The classes of the models are renumbered. -/
theorem model (h : Renumbered ρ φ registry renumbered) :
    Model.Renumbered ρ registry.model renumbered.model := by
  intro number
  simp only [Registry.model, List.getElem?_map, h.declarations, Option.map_map]
  rfl

end Registry.Renumbered

end ClassSchema.Java
