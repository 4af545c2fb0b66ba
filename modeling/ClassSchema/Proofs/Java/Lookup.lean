import ClassSchema.Proofs.Java.ReachableRegistry
import ClassSchema.Proofs.RelatedLists
import ClassSchema.Model.Entries

/-!
# What names lead to

In a registry that can be reached, a declaration that a name means is always found:
its number stands for it.  A name of any form leads only to a class that is called by
its last segment, and the fields of built classes mention registered classes only.

## Main results

* `Denotes.numberNamed`, `Wired.lookup`: what a name means inside a declaration.
* `Registry.Consistent.calls_of_findClass`: what a name leads to from a scope.
* `Registry.Reachable.targets_lt`: what fields mention.
* `Registry.registers_of_reachable`: what is registered, and where names lead to.
-/

namespace ClassSchema.Java

/-! ## Names of classes -/

/-- The last segment of names with dots between them. -/
theorem last_intercalate_concat (names : List String) {name : String} (h : '.' ∉ name.toList) :
    Dotted.last (".".intercalate (names ++ [name])) = name := by
  by_cases hNil : names = []
  · subst hNil
    simpa using Dotted.last_eq_self h
  · rw [String.intercalate_append_of_ne_nil hNil (by simp), String.intercalate_singleton,
      Dotted.last_append, Dotted.last_eq_self h]

/-- The class of an entry is called as its declaration is, and its qualified name ends so. -/
structure Registered.IsNamed (registered : Registered) : Prop where
  simpleName : registered.entity.simpleName = registered.declaration.name
  qualifiedName : ∃ qualified, registered.entity.qualifiedName = .str qualified ∧
    Dotted.last qualified = registered.declaration.name

namespace Registered.IsNamed

variable {registered : Registered}

theorem simpleName_eq_last (h : registered.IsNamed) {name : String}
    (hName : registered.entity.qualifiedName = .str name) :
    registered.entity.simpleName = Dotted.last name := by
  obtain ⟨qualified, hQualified, hLast⟩ := h.qualifiedName
  obtain rfl : name = qualified := Json.str.inj (hName.symm.trans hQualified)
  rw [h.simpleName, hLast]

/-- Declarations have simple names. -/
theorem last_name (h : registered.IsNamed) :
    Dotted.last registered.declaration.name = registered.declaration.name := by
  obtain ⟨qualified, _, hLast⟩ := h.qualifiedName
  rw [← hLast, Dotted.last_last]

end Registered.IsNamed

namespace Registry

theorem Represents.isNamed {registry : Registry} {occurrence : Occurrence}
    {registered : Registered} (h : registry.Represents occurrence registered)
    (hName : '.' ∉ registered.declaration.name.toList) : registered.IsNamed := by
  obtain ⟨around, hPath⟩ := List.getLast?_eq_some_iff.mp h.declaration
  refine ⟨congrArg Entity.simpleName h.entity, occurrence.qualifiedName,
    congrArg Entity.qualifiedName h.entity, ?_⟩
  rw [Occurrence.qualifiedName, Occurrence.names, hPath, List.map_append, ← List.append_assoc]
  exact last_intercalate_concat _ hName

namespace Reachable

variable {includeStatic : Bool} {sources : List SourceFile} {registry : Registry}

theorem represents (h : Reachable includeStatic sources registry) :
    List.Forall₂ registry.Represents (sources.flatMap (·.occurrences)) registry.declarations :=
  h.holds.represents fun source mem name hName => (h.isIdentifier source mem name hName).ne_empty

/-- Every entry represents a declaration in a source. -/
theorem exists_represents (h : Reachable includeStatic sources registry) {registered : Registered}
    (mem : registered ∈ registry.declarations) :
    ∃ source ∈ sources, ∃ occurrence ∈ source.occurrences,
      registry.Represents occurrence registered := by
  obtain ⟨number, hFound⟩ := List.mem_iff_getElem?.mp mem
  obtain ⟨occurrence, hOccurrence, hRepresents⟩ := exists_item h.represents hFound
  obtain ⟨source, hSource, hIn⟩ := List.mem_flatMap.mp (List.mem_of_getElem? hOccurrence)
  exact ⟨source, hSource, occurrence, hIn, hRepresents⟩

theorem isNamed (h : Reachable includeStatic sources registry) {registered : Registered}
    (mem : registered ∈ registry.declarations) : registered.IsNamed := by
  obtain ⟨source, hSource, occurrence, hOccurrence, hRepresents⟩ := h.exists_represents mem
  have hLast := List.mem_of_getLast? hRepresents.declaration
  have hName := SourceFile.name_mem_names hOccurrence hLast
  exact hRepresents.isNamed (h.isIdentifier source hSource _ hName).dot_notMem

end Reachable

end Registry

/-! ## Looking up declarations -/

section Rel

variable {α β : Type}

private theorem exists_of_rel_some {r : α → β → Prop} {first : Option α} {b : β}
    (h : Option.Rel r first (some b)) : ∃ a, first = some a ∧ r a b := by
  cases h with
  | some hRel => exact ⟨_, rfl, hRel⟩

private theorem rel_imp {r r' : α → β → Prop} (hImp : ∀ a b, r a b → r' a b) {first : Option α}
    {second : Option β} (h : Option.Rel r first second) : Option.Rel r' first second := by
  cases h with
  | none => exact .none
  | some hRel => exact .some (hImp _ _ hRel)

private theorem rel_or {r : α → β → Prop} {first first' : Option α} {second second' : Option β}
    (h : Option.Rel r first second) (h' : Option.Rel r first' second') :
    Option.Rel r (first.or first') (second.or second') := by
  cases h with
  | none => exact h'
  | some hRel => exact .some hRel

private theorem rel_findSome? {γ : Type} {r : α → β → Prop} {f : γ → Option α} {g : γ → Option β}
    {list : List γ} (h : ∀ c ∈ list, Option.Rel r (f c) (g c)) :
    Option.Rel r (list.findSome? f) (list.findSome? g) := by
  induction list with
  | nil => exact .none
  | cons c rest ih =>
      have hRest := ih fun d mem => h d (List.mem_cons_of_mem c mem)
      have hFirst := h c (by simp)
      rw [List.findSome?_cons, List.findSome?_cons]
      generalize f c = first at hFirst ⊢
      generalize g c = second at hFirst ⊢
      cases hFirst with
      | none => exact hRest
      | some hRel => exact .some hRel

end Rel

/-- The declaration that a name means inside of another one: that one itself, or the first directly
in it that has the name. -/
def TypeDecl.meant (name : String) (decl : TypeDecl) : Option TypeDecl :=
  if decl.name = name then some decl else decl.types.find? (·.name = name)

/-- **The first declaration with a name is found by its number.** -/
theorem Denotes.numberNamed {at? : Nat → Option Registered} {file : Nat} {chain : List Nat}
    {decls : List TypeDecl} {numbers : List Nat} (h : Denotes at? file chain decls numbers)
    (name : String) :
    Option.Rel (StandsFor at? file chain) (decls.find? (·.name = name))
      (numberNamed name decls numbers) := by
  unfold Java.numberNamed
  induction h with
  | nil => exact .none
  | @cons decl number decls numbers hFirst _ ih =>
      rw [List.zip_cons_cons]
      by_cases hName : decl.name = name
      · rw [List.find?_cons_of_pos (by simpa using hName),
          List.find?_cons_of_pos (by simpa using hName)]
        exact .some hFirst
      · rw [List.find?_cons_of_neg (by simpa using hName),
          List.find?_cons_of_neg (by simpa using hName)]
        exact ih

/-- A number is that of an entry or of a declaration directly in it. -/
def Registered.Offers (at? : Nat → Option Registered) (number : Nat) (registered : Registered)
    (decl : TypeDecl) (inner : Nat) : Prop :=
  (decl = registered.declaration ∧ inner = number) ∨
    StandsFor at? registered.file registered.chain decl inner

/-- **What a name means inside a declaration is found by its number.** -/
theorem Wired.lookup {at? : Nat → Option Registered} {number : Nat} {registered : Registered}
    (h : Wired at? number registered) (name : String) :
    Option.Rel (registered.Offers at? number) (registered.declaration.meant name)
      (registered.lookup name) := by
  unfold TypeDecl.meant Registered.lookup
  by_cases hName : registered.declaration.name = name
  · rw [if_pos hName, if_pos hName, h.own]
    exact .some (.inl ⟨rfl, rfl⟩)
  · rw [if_neg hName, if_neg hName]
    exact rel_imp (fun _ _ => .inr) (h.nested.numberNamed name)

theorem TypeDecl.name_of_meant {name : String} {decl inner : TypeDecl}
    (h : decl.meant name = some inner) : inner.name = name := by
  unfold TypeDecl.meant at h
  split at h
  · next hName => exact Option.some.inj h ▸ hName
  · simpa using List.find?_some h

/-! ## Where names lead to -/

/-- A place in a registry: one of its files, and some of its declarations. -/
structure Scope.IsOf (registry : Registry) (scope : Scope) : Prop where
  file : scope.file ∈ registry.files
  chain : ∀ registered ∈ scope.chain, registered ∈ registry.declarations

/-- An import brings a class under the last segment of its name, unless it has a star. -/
theorem Import.brings_iff {name : String} {imported : Import} :
    imported.brings name = true ↔
      imported.isWildcard = false ∧ Dotted.last imported.name = name := by
  simp [Import.brings]

/-- The declaration that a name means in a place: the first of the declarations around, from the
inside out, in which it means one, or the first at top level that has it. -/
def Scope.declared (name : String) (scope : Scope) : Option TypeDecl :=
  (scope.chain.reverse.findSome? (·.declaration.meant name)).or
    (scope.file.source.types.find? (·.name = name))

/-- A name means none if no declaration around the place, directly inside one of these or at top
level has it. -/
theorem Scope.declared_eq_none_iff {name : String} {scope : Scope} :
    scope.declared name = none ↔
      (∀ around ∈ scope.chain, around.declaration.name ≠ name ∧
        ∀ inner ∈ around.declaration.types, inner.name ≠ name) ∧
      ∀ decl ∈ scope.file.source.types, decl.name ≠ name := by
  have hMeant (decl : TypeDecl) : decl.meant name = none ↔
      decl.name ≠ name ∧ ∀ inner ∈ decl.types, inner.name ≠ name := by
    rw [TypeDecl.meant]
    split <;> simp [*]
  simp [Scope.declared, hMeant]

namespace Registry

/-- A number is that of a declaration. -/
def Has (registry : Registry) (decl : TypeDecl) (number : Nat) : Prop :=
  ∃ found, registry.declarations[number]? = some found ∧ found.declaration = decl

/-- A number is that of a class that is called by the last segment of a name. -/
def Calls (registry : Registry) (name : String) (number : Nat) : Prop :=
  ∃ found, registry.declarations[number]? = some found ∧
    found.entity.simpleName = Dotted.last name

/-- Only the last segment matters. -/
theorem Calls.of_last {registry : Registry} {name other : String} {number : Nat}
    (h : registry.Calls name number) (hLast : Dotted.last name = Dotted.last other) :
    registry.Calls other number := by
  obtain ⟨found, hFound, hName⟩ := h
  exact ⟨found, hFound, hName.trans hLast⟩

/-- The parts of a registry agree with each other. -/
structure Consistent (registry : Registry) : Prop where
  /-- Classes are called as their declarations are. -/
  named : ∀ registered ∈ registry.declarations, registered.IsNamed
  /-- The numbers that an entry keeps stand for the declarations that they should. -/
  wired : ∀ number registered, registry.declarations[number]? = some registered →
    Wired (registry.declarations[·]?) number registered
  /-- So do the numbers that a file keeps. -/
  denotes : ∀ index file, registry.files[index]? = some file →
    Denotes (registry.declarations[·]?) index [] file.source.types file.entries
  /-- A name leads to the last declaration that has it. -/
  byName : ∀ name number, registry.byName.get? name = some number ↔
    IsLast registry.declarations name number
  /-- A declaration is in a place of the registry. -/
  scopes : ∀ registered ∈ registry.declarations, (registry.scopeOf registered).IsOf registry

namespace Consistent

variable {registry : Registry} {scope : Scope}

theorem calls_of_get? (h : Consistent registry) {name : String} {number : Nat}
    (hFound : registry.byName.get? name = some number) : registry.Calls name number := by
  obtain ⟨⟨registered, hRegistered, hName⟩, _⟩ := (h.byName name number).mp hFound
  have hNamed := h.named registered (List.mem_of_getElem? hRegistered)
  exact ⟨registered, hRegistered, hNamed.simpleName_eq_last hName⟩

/-- Declarations are called by their names. -/
theorem calls_of_has (h : Consistent registry) {decl : TypeDecl} {number : Nat}
    (hHas : registry.Has decl number) : registry.Calls decl.name number := by
  obtain ⟨registered, hFound, rfl⟩ := hHas
  have hNamed := h.named registered (List.mem_of_getElem? hFound)
  exact ⟨registered, hFound, hNamed.simpleName.trans hNamed.last_name.symm⟩

/-- What a name means inside a declaration is found. -/
theorem has_lookup (h : Consistent registry) {registered : Registered}
    (mem : registered ∈ registry.declarations) (name : String) :
    Option.Rel registry.Has (registered.declaration.meant name) (registered.lookup name) := by
  obtain ⟨number, hFound⟩ := List.mem_iff_getElem?.mp mem
  refine rel_imp ?_ ((h.wired number registered hFound).lookup name)
  rintro decl inner (⟨rfl, rfl⟩ | ⟨found, hInner, hDecl, _⟩)
  · exact ⟨registered, hFound, rfl⟩
  · exact ⟨found, hInner, hDecl⟩

/-- What a name means at top level is found. -/
theorem has_numberNamed (h : Consistent registry) {file : RegisteredFile}
    (mem : file ∈ registry.files) (name : String) :
    Option.Rel registry.Has (file.source.types.find? (·.name = name))
      (numberNamed name file.source.types file.entries) := by
  obtain ⟨index, hIndex⟩ := List.mem_iff_getElem?.mp mem
  refine rel_imp ?_ ((h.denotes index file hIndex).numberNamed name)
  rintro decl number ⟨found, hFound, hDecl, _⟩
  exact ⟨found, hFound, hDecl⟩

/-- **A declaration that a name means is found**, and imports matter only where there is none. -/
theorem has_findSimple (h : Consistent registry) (hScope : scope.IsOf registry) (name : String) :
    ∃ number, Option.Rel registry.Has (scope.declared name) number ∧
      registry.findSimple name scope =
        number.or (registry.findImported name scope.file.source) := by
  refine ⟨_, rel_or (rel_findSome? fun registered mem => ?_)
    (h.has_numberNamed hScope.file name), Option.or_assoc.symm⟩
  exact h.has_lookup (hScope.chain registered (List.mem_reverse.mp mem)) name

/-- Where no declaration has it, a simple name is looked up in the imports. -/
theorem findSimple_of_undeclared (h : Consistent registry) (hScope : scope.IsOf registry)
    {name : String} (hNone : scope.declared name = none) :
    registry.findSimple name scope = registry.findImported name scope.file.source := by
  obtain ⟨number, hRel, hFind⟩ := h.has_findSimple hScope name
  rw [hNone] at hRel
  cases hRel
  rw [hFind, Option.none_or]

theorem name_of_declared {name : String} {decl : TypeDecl}
    (h : scope.declared name = some decl) : decl.name = name := by
  rcases Option.or_eq_some_iff.mp h with hChain | ⟨_, hTop⟩
  · obtain ⟨registered, _, hMeant⟩ := List.exists_of_findSome?_eq_some hChain
    exact TypeDecl.name_of_meant hMeant
  · simpa using List.find?_some hTop

theorem calls_of_findImported (h : Consistent registry) {name : String}
    (hName : '.' ∉ name.toList) {source : SourceFile} {number : Nat}
    (hFound : registry.findImported name source = some number) : registry.Calls name number := by
  have hSelf : Dotted.last name = name := Dotted.last_eq_self hName
  unfold findImported at hFound
  split at hFound
  · next imported hImport =>
      have hBrings := (Import.brings_iff.mp (List.find?_some hImport)).2
      exact (h.calls_of_get? hFound).of_last (hBrings.trans hSelf.symm)
  · rcases Option.or_eq_some_iff.mp hFound with hPackage | ⟨_, hWildcard⟩
    · exact (h.calls_of_get? hPackage).of_last
        ((Dotted.last_qualify source.package hName).trans hSelf.symm)
    · obtain ⟨imported, _, hGet⟩ := List.exists_of_findSome?_eq_some hWildcard
      split at hGet
      · exact (h.calls_of_get? hGet).of_last (Dotted.last_append imported.name name)
      · cases hGet

theorem calls_of_findSimple (h : Consistent registry) (hScope : scope.IsOf registry)
    {name : String} (hName : '.' ∉ name.toList) {number : Nat}
    (hFound : registry.findSimple name scope = some number) : registry.Calls name number := by
  obtain ⟨declared, hRel, hSimple⟩ := h.has_findSimple hScope name
  rw [hSimple] at hFound
  rcases Option.or_eq_some_iff.mp hFound with rfl | ⟨_, hImported⟩
  · obtain ⟨decl, hDeclared, hHas⟩ := exists_of_rel_some hRel
    exact name_of_declared hDeclared ▸ h.calls_of_has hHas
  · exact h.calls_of_findImported hName hImported

/-- Names inside a class lead to one that is called by the last of them. -/
theorem calls_of_findNested (h : Consistent registry) {names : List String} {outer number : Nat}
    (hFound : registry.findNested outer names = some number) {name : String}
    (hLast : names.getLast? = some name) : registry.Calls name number := by
  induction names generalizing outer with
  | nil => cases hLast
  | cons first rest ih =>
      unfold findNested at hFound
      split at hFound
      · cases hFound
      · split at hFound
        · next qualified _ =>
            split at hFound
            · next inner hInner =>
                cases rest with
                | nil =>
                    obtain rfl := Option.some.inj hFound
                    obtain rfl := Option.some.inj hLast
                    exact (h.calls_of_get? hInner).of_last (Dotted.last_append qualified first)
                | cons second rest => exact ih hFound (by simpa using hLast)
            · cases hFound
        · cases hFound

/-- **A name leads to a class that is called by its last segment**, if it leads to one. -/
theorem calls_of_findClass (h : Consistent registry) (hScope : scope.IsOf registry)
    {name : String} {number : Nat} (hFound : registry.findClass name scope = some number) :
    registry.Calls name number := by
  unfold findClass at hFound
  split at hFound
  · next first second rest hSegments =>
      split at hFound
      · obtain ⟨segment, hSegment⟩ : ∃ segment, (second :: rest).getLast? = some segment :=
          ⟨_, List.getLast?_eq_some_getLast (by simp)⟩
        have hLast : Dotted.last name = segment := by
          rw [Dotted.last, hSegments, List.getLast?_cons_cons, hSegment]
          rfl
        refine (h.calls_of_findNested hFound hSegment).of_last ?_
        rw [← hLast, Dotted.last_last]
      · exact h.calls_of_get? hFound
  · next hSegments => exact h.calls_of_findSimple hScope (Dotted.dot_notMem hSegments) hFound

end Consistent

/-! ## Fields of built classes -/

section Targets

variable {registry : Registry} {scope : Scope} {bound : Nat}

theorem targets_arrayOf (dimensions : Nat) (type : FieldType) :
    (arrayOf dimensions type).targets = type.targets := by
  induction dimensions with
  | zero => rfl
  | succ dimensions ih => rw [arrayOf, FieldType.targets, ih]

mutual

/-- A resolved type mentions only what names lead to. -/
theorem targets_resolveType_lt
    (hClass : ∀ name number, registry.findClass name scope = some number → number < bound) :
    (type : TypeName) → ∀ target ∈ (registry.resolveType scope type).targets, target < bound
  | ⟨name, arguments, dimensions⟩, target, mem => by
      rw [resolveType, targets_arrayOf] at mem
      split at mem
      · cases mem
      · split at mem
        · next number hFound =>
            rw [List.mem_singleton.mp mem]
            exact hClass name number hFound
        · dsimp only at mem
          split at mem
          · exact targets_resolveTypes_lt hClass arguments target mem
          · cases mem

theorem targets_resolveTypes_lt
    (hClass : ∀ name number, registry.findClass name scope = some number → number < bound) :
    (types : List TypeName) →
      ∀ target ∈ FieldType.targetsOf (registry.resolveTypes scope types), target < bound
  | [], _, mem => by cases mem
  | type :: rest, target, mem => by
      rw [resolveTypes, FieldType.targetsOf, List.mem_append] at mem
      rcases mem with mem | mem
      · exact targets_resolveType_lt hClass type target mem
      · exact targets_resolveTypes_lt hClass rest target mem

end

end Targets

namespace Reachable

variable {includeStatic : Bool} {sources : List SourceFile} {registry : Registry}

theorem consistent (h : Reachable includeStatic sources registry) : Consistent registry where
  named _ mem := h.isNamed mem
  wired _ _ hFound := h.holds.wired hFound
  denotes _ _ hFound := h.holds.denotes hFound
  byName _ _ := h.holds.get?_byName_iff
  scopes registered mem := by
    obtain ⟨_, _, _, _, hRepresents⟩ := h.exists_represents mem
    refine ⟨List.mem_of_getElem? hRepresents.file, fun outer hOuter => ?_⟩
    obtain ⟨number, _, hFound⟩ := List.mem_filterMap.mp hOuter
    exact List.mem_of_getElem? hFound

/-- **Every class that a field mentions is registered**, whenever the field was built. -/
theorem targets_lt (h : Reachable includeStatic sources registry) :
    ∀ registered ∈ registry.declarations, ∀ field ∈ registered.entity.fields,
      ∀ target ∈ field.type.targets, target < registry.declarations.length := by
  induction h with
  | empty => simp [Registry.empty]
  | @add sources registry text source _ _ ih =>
      intro registered mem field hField target hTarget
      simp only [Registry.add, List.mem_append, List.length_append] at mem ⊢
      rcases mem with mem | mem
      · exact Nat.lt_add_right _ (ih registered mem field hField target hTarget)
      · rw [← registerAll_unbuilt, List.mem_map] at mem
        obtain ⟨unbuilt, _, rfl⟩ := mem
        cases hField
  | @build sources registry hReachable ih =>
      intro registered mem field hField target hTarget
      simp only [Registry.build, List.mem_map, List.length_map] at mem ⊢
      obtain ⟨before, hBefore, rfl⟩ := mem
      rcases List.mem_append.mp hField with hOld | hNew
      · exact ih before hBefore field hOld target hTarget
      · obtain ⟨decl, _, rfl⟩ := List.mem_map.mp hNew
        have hScope := hReachable.consistent.scopes before hBefore
        refine targets_resolveType_lt (fun name number hFound => ?_) decl.type target hTarget
        obtain ⟨found, hNumber, _⟩ := hReachable.consistent.calls_of_findClass hScope hFound
        exact (List.getElem?_eq_some_iff.mp hNumber).1

end Reachable

/-! ## All of it together -/

/-- Sources are registered as they should, and names lead to what is registered. -/
structure Registers (sources : List SourceFile) (registry : Registry) : Prop
    extends Consistent registry where
  /-- There is one entry for each declaration, in order. -/
  represents : List.Forall₂ registry.Represents (sources.flatMap (·.occurrences))
    registry.declarations
  /-- What a name means inside a declaration is found by its number. -/
  lookup : ∀ (number : Nat) (registered : Registered),
    registry.declarations[number]? = some registered → ∀ name : String,
      Option.Rel (registered.Offers (registry.declarations[·]?) number)
        (registered.declaration.meant name) (registered.lookup name)
  /-- So is what a name means at top level. -/
  top : ∀ (index : Nat) (file : RegisteredFile), registry.files[index]? = some file →
    ∀ name : String, Option.Rel (StandsFor (registry.declarations[·]?) index [])
      (file.source.types.find? (·.name = name))
      (numberNamed name file.source.types file.entries)
  /-- A declaration that a name means in a place is found there. -/
  declared : ∀ scope : Scope, scope.IsOf registry → ∀ name : String, ∃ number,
    Option.Rel registry.Has (scope.declared name) number ∧
      registry.findSimple name scope =
        number.or (registry.findImported name scope.file.source)
  /-- A name leads to a registered class that is called by its last segment. -/
  calls : ∀ scope : Scope, scope.IsOf registry → ∀ (name : String) (number : Nat),
    registry.findClass name scope = some number → registry.Calls name number
  /-- Every class that a field mentions is registered. -/
  targets : ∀ registered ∈ registry.declarations, ∀ field ∈ registered.entity.fields,
    ∀ target ∈ field.type.targets, target < registry.declarations.length

/-- **What is registered in every registry that can be reached**, whenever it was built. -/
theorem registers_of_reachable {includeStatic : Bool} {sources : List SourceFile}
    {registry : Registry} (h : Reachable includeStatic sources registry) :
    Registers sources registry where
  toConsistent := h.consistent
  represents := h.represents
  lookup _ _ hFound name := (h.holds.wired hFound).lookup name
  top _ _ hFound name := (h.holds.denotes hFound).numberNamed name
  declared _ hScope name := h.consistent.has_findSimple hScope name
  calls _ hScope _ _ hFound := h.consistent.calls_of_findClass hScope hFound
  targets := h.targets_lt

end Registry

def itemText : List Char :=
  "package shop; class Item {java.util.List<Part[]> parts; sale.Order order; class Part {}}".toList

def orderText : List Char :=
  "package sale; import shop.*; class Order {Item.Part first; Item[] all;}".toList

private theorem parse_itemText : parse itemText = .ok itemSource := by
  refine @parse_eq_ok_of_bare itemText
    [.plain .packageWord "package", .plain .identifier "shop", .plain .semicolon ";",
      .plain .classWord "class", .plain .identifier "Item", .plain .leftBrace "\x7b",
      .plain .identifier "java", .plain .dot ".", .plain .identifier "util", .plain .dot ".",
      .plain .identifier "List", .plain .lessThan "<", .plain .identifier "Part",
      .plain .leftBracket "[", .plain .rightBracket "]", .plain .moreThan ">",
      .plain .identifier "parts", .plain .semicolon ";", .plain .identifier "sale",
      .plain .dot ".", .plain .identifier "Order", .plain .identifier "order",
      .plain .semicolon ";", .plain .classWord "class", .plain .identifier "Part",
      .plain .leftBrace "\x7b", .plain .rightBrace "\x7d", .plain .rightBrace "\x7d"] ?_ ?_ ?_
  · rw [tokenize_eq_within]
    decide +kernel
  · rw [tokenize_eq_within]
    decide +kernel
  · show Derives _ _
    decide

private theorem parse_orderText : parse orderText = .ok orderSource := by
  refine @parse_eq_ok_of_bare orderText
    [.plain .packageWord "package", .plain .identifier "sale", .plain .semicolon ";",
      .plain .importWord "import", .plain .identifier "shop", .plain .dot ".",
      .plain .star "*", .plain .semicolon ";", .plain .classWord "class",
      .plain .identifier "Order", .plain .leftBrace "\x7b", .plain .identifier "Item",
      .plain .dot ".", .plain .identifier "Part", .plain .identifier "first",
      .plain .semicolon ";", .plain .identifier "Item", .plain .leftBracket "[",
      .plain .rightBracket "]", .plain .identifier "all", .plain .semicolon ";",
      .plain .rightBrace "\x7d"] ?_ ?_ ?_
  · rw [tokenize_eq_within]
    decide +kernel
  · rw [tokenize_eq_within]
    decide +kernel
  · show Derives _ _
    decide

/-- A registry that is built after each of two sources is added to it. -/
def ordersRegistry : Registry :=
  ((((Registry.empty true).add itemSource).build).add orderSource).build

/-- When it is built for the first time, the item does not know the order yet. -/
theorem registers_itemsAndOrders :
    Registry.Reachable true [itemSource, orderSource] ordersRegistry ∧
      Registry.Registers [itemSource, orderSource] ordersRegistry ∧
      ordersRegistry.declarations.map (·.entity.fields.flatMap (·.type.targets)) =
        [[1, 1, 2], [], [1, 0]] := by
  have hReachable : Registry.Reachable true [itemSource, orderSource] ordersRegistry :=
    .build (.add (.build (.add .empty parse_itemText)) parse_orderText)
  exact ⟨hReachable, Registry.registers_of_reachable hReachable, by decide +kernel⟩

end ClassSchema.Java
