import ClassSchema.Proofs.Java.Undeclared

/-!
# Dotted names

The first segment of a dotted name is looked up as a simple name.  If it leads to a class,
the segments behind it lead into that class, from one declaration to another one directly
inside it; if it leads nowhere, the whole name is taken for a qualified one.

If no two declarations share a qualified name, both ways lead to the declaration that is
meant, at any depth.

## Main results

* `Registry.findClass_of_first`, `Registry.findClass_of_unknown`: the two ways.
* `Registry.Reachable.findNested_path`: names inside a declaration.
* `Registry.nested_declaration_found`: both ways lead to a nested declaration.
-/

namespace ClassSchema.Java

/-! ## Ways to declarations -/

theorem TypeDecl.mem_paths {decl : TypeDecl} {path : List TypeDecl} :
    path ∈ decl.paths ↔
      path = [decl] ∨ ∃ inner ∈ TypeDecl.allPaths decl.types, path = decl :: inner := by
  cases decl
  simp [TypeDecl.paths, eq_comm]

theorem TypeDecl.mem_allPaths {decls : List TypeDecl} {path : List TypeDecl} :
    path ∈ TypeDecl.allPaths decls ↔ ∃ decl ∈ decls, path ∈ decl.paths := by
  induction decls with
  | nil => simp [TypeDecl.allPaths]
  | cons decl rest ih => simp [TypeDecl.allPaths, ih]

/-- **On the way to a declaration are declarations**, so a part of it from its start is a way. -/
theorem TypeDecl.mem_allPaths_of_append {front back : List TypeDecl} (hFront : front ≠ []) :
    ∀ {decls : List TypeDecl}, front ++ back ∈ TypeDecl.allPaths decls →
      front ∈ TypeDecl.allPaths decls := by
  induction front with
  | nil => exact absurd rfl hFront
  | cons decl inner ih =>
      intro decls mem
      obtain ⟨outer, hOuter, hPath⟩ := TypeDecl.mem_allPaths.mp mem
      refine TypeDecl.mem_allPaths.mpr ⟨outer, hOuter, TypeDecl.mem_paths.mpr ?_⟩
      rcases TypeDecl.mem_paths.mp hPath with hSingle | ⟨behind, hBehind, hSame⟩
      · obtain ⟨rfl, hNil⟩ := List.cons.inj hSingle
        exact .inl (by rw [(List.append_eq_nil_iff.mp hNil).1])
      · obtain ⟨rfl, rfl⟩ := List.cons.inj hSame
        by_cases hInner : inner = []
        · exact .inl (by rw [hInner])
        · exact .inr ⟨inner, ih hInner hBehind, rfl⟩

/-- A declaration around one in a source occurs in it as well. -/
theorem SourceFile.occurrence_of_append {source place : SourceFile} {front back : List TypeDecl}
    (hFront : front ≠ []) (mem : ⟨place, front ++ back⟩ ∈ source.occurrences) :
    ⟨place, front⟩ ∈ source.occurrences := by
  obtain ⟨path, hPath, hSame⟩ := List.mem_map.mp mem
  obtain ⟨rfl, rfl⟩ := Occurrence.mk.inj hSame
  exact List.mem_map_of_mem (TypeDecl.mem_allPaths_of_append hFront hPath)

/-- The name of a declaration stands behind those of the declarations around it. -/
theorem Occurrence.qualifiedName_concat {source : SourceFile} {path : List TypeDecl}
    (hPath : path ≠ []) (decl : TypeDecl) :
    Occurrence.qualifiedName ⟨source, path ++ [decl]⟩ =
      Occurrence.qualifiedName ⟨source, path⟩ ++ "." ++ decl.name := by
  have hNames : source.packageNames ++ path.map (·.name) ≠ [] := by simp [hPath]
  simp only [Occurrence.qualifiedName, Occurrence.names, List.map_append, List.map_cons,
    List.map_nil, ← List.append_assoc]
  rw [String.intercalate_append_of_ne_nil hNames (by simp), String.intercalate_singleton]

/-- A package stands in front of the names on the way. -/
theorem Occurrence.qualifiedName_of_package {source : SourceFile} (hPackage : source.package ≠ "")
    {path : List TypeDecl} (hPath : path ≠ []) :
    Occurrence.qualifiedName ⟨source, path⟩ =
      source.package ++ "." ++ ".".intercalate (path.map (·.name)) := by
  rw [Occurrence.qualifiedName, Occurrence.names, SourceFile.packageNames, if_neg hPackage,
    String.intercalate_append_of_ne_nil (by simp) (by simpa using hPath),
    String.intercalate_singleton]

namespace Registry

/-! ## Two ways to look up a name -/

section FindClass

variable {registry : Registry} {name : String} {scope : Scope}

/-- **From the class of the first segment** the other segments lead into it. -/
theorem findClass_of_first {first second : String} {rest : List String} {outer : Nat}
    (hSegments : Dotted.segments name = first :: second :: rest)
    (hFirst : registry.findClass first scope = some outer) :
    registry.findClass name scope = registry.findNested outer (second :: rest) := by
  have hDot : '.' ∉ first.toList := fun mem =>
    (Dotted.of_mem_segments (hSegments ▸ List.mem_cons_self) mem).2 rfl
  rw [findClass_of_notMem hDot] at hFirst
  unfold findClass
  rw [hSegments]
  dsimp only
  rw [hFirst]

/-- **Where the first segment leads nowhere**, a dotted name is a qualified one. -/
theorem findClass_of_unknown (hDot : '.' ∈ name.toList)
    (hFirst : registry.findClass (Dotted.first name) scope = none) :
    registry.findClass name scope = registry.byName.get? name := by
  obtain ⟨second, rest, hSegments⟩ := Dotted.exists_segments_of_dot hDot
  rw [findClass_of_notMem (Dotted.dot_notMem_first name)] at hFirst
  unfold findClass
  rw [hSegments]
  dsimp only
  rw [hFirst]

end FindClass

/-! ## Names inside a declaration -/

namespace Reachable

variable {includeStatic : Bool} {sources : List SourceFile} {registry : Registry}

/-- The names on the way to a declaration have no dots. -/
theorem dot_notMem_of_mem (h : Reachable includeStatic sources registry) {occurrence : Occurrence}
    (mem : occurrence ∈ sources.flatMap (·.occurrences)) :
    ∀ name ∈ occurrence.path.map (·.name), '.' ∉ name.toList := by
  obtain ⟨source, hSource, hOccurrence⟩ := List.mem_flatMap.mp mem
  intro name hName
  obtain ⟨decl, hDecl, rfl⟩ := List.mem_map.mp hName
  have hMem : decl.name ∈ source.names := SourceFile.name_mem_names hOccurrence hDecl
  exact (h.isIdentifier source hSource _ hMem).dot_notMem

/-- Entries have different qualified names if the declarations have. -/
theorem nodup_qualifiedName_iff (h : Reachable includeStatic sources registry) :
    (registry.declarations.map (·.entity.qualifiedName)).Nodup ↔
      ((sources.flatMap (·.occurrences)).map (·.qualifiedName)).Nodup := by
  rw [h.map_qualifiedName, List.nodup_map_iff fun _ _ => Json.str.inj]

/-- Then a qualified name tells which declaration has it. -/
theorem occurrence_unique (h : Reachable includeStatic sources registry)
    (distinct : (registry.declarations.map (·.entity.qualifiedName)).Nodup)
    {occurrence other : Occurrence} {number place : Nat}
    (hNumber : (sources.flatMap (·.occurrences))[number]? = some occurrence)
    (hPlace : (sources.flatMap (·.occurrences))[place]? = some other)
    (hName : occurrence.qualifiedName = other.qualifiedName) : number = place := by
  rw [h.nodup_qualifiedName_iff] at distinct
  have hLess := (List.getElem?_eq_some_iff.mp hNumber).1
  refine (List.getElem?_inj (by rwa [List.length_map]) distinct).mp ?_
  rw [List.getElem?_map, List.getElem?_map, hNumber, hPlace, Option.map_some, Option.map_some,
    hName]

/-- **A qualified name leads to the declaration that has it.** -/
theorem get?_byName_of_distinct (h : Reachable includeStatic sources registry)
    (distinct : (registry.declarations.map (·.entity.qualifiedName)).Nodup)
    {occurrence : Occurrence} {number : Nat}
    (hNumber : (sources.flatMap (·.occurrences))[number]? = some occurrence) :
    registry.byName.get? occurrence.qualifiedName = some number := by
  refine h.get?_byName_iff.mpr ⟨⟨occurrence, hNumber, rfl⟩, ?_⟩
  intro later other hLater hOther hName
  exact Nat.ne_of_lt hLater (h.occurrence_unique distinct hNumber hOther hName.symm)

/-- **Names inside a declaration lead to the declaration that they name**, however deep it is. -/
theorem findNested_path (h : Reachable includeStatic sources registry)
    (distinct : (registry.declarations.map (·.entity.qualifiedName)).Nodup) {source : SourceFile}
    {around inner : List TypeDecl} (hAround : around ≠ []) {outer number : Nat}
    (hOuter : (sources.flatMap (·.occurrences))[outer]? = some ⟨source, around⟩)
    (hNumber : (sources.flatMap (·.occurrences))[number]? = some ⟨source, around ++ inner⟩) :
    registry.findNested outer (inner.map (·.name)) = some number := by
  induction inner generalizing around outer with
  | nil =>
      rw [List.append_nil] at hNumber
      rw [List.map_nil, findNested, h.occurrence_unique distinct hOuter hNumber rfl]
  | cons decl rest ih =>
      obtain ⟨registered, hRegistered, hQualified⟩ :=
        h.exists_qualified_iff.mpr ⟨_, hOuter, rfl⟩
      -- the declaration directly inside is one of the source, since there is one behind it
      have hMem : ⟨source, around ++ [decl]⟩ ∈ sources.flatMap (·.occurrences) := by
        obtain ⟨other, hOther, hIn⟩ := List.mem_flatMap.mp (List.mem_of_getElem? hNumber)
        rw [← List.singleton_append, ← List.append_assoc] at hIn
        exact List.mem_flatMap.mpr ⟨other, hOther, SourceFile.occurrence_of_append (by simp) hIn⟩
      obtain ⟨next, hNext⟩ := List.mem_iff_getElem?.mp hMem
      have hFound := h.get?_byName_of_distinct distinct hNext
      rw [Occurrence.qualifiedName_concat hAround] at hFound
      rw [List.map_cons, findNested]
      simp only [hRegistered, hQualified, hFound]
      exact ih (by simp) hNext (by simpa using hNumber)

end Reachable

/-- **A dotted name leads to the nested declaration that it names**, in every registry that can be
reached in which no two declarations share a qualified name.  A declaration is named by the names
on the way to it wherever the first of them means the declaration at top level that it is in, and by
its qualified name wherever the first segment of its package leads nowhere. -/
theorem nested_declaration_found {includeStatic : Bool} {sources : List SourceFile}
    {registry : Registry} (h : Reachable includeStatic sources registry)
    (distinct : (registry.declarations.map (·.entity.qualifiedName)).Nodup)
    {source : SourceFile} {outer : TypeDecl} {inner : List TypeDecl} {top number : Nat}
    (hTop : (sources.flatMap (·.occurrences))[top]? = some ⟨source, [outer]⟩)
    (hNumber : (sources.flatMap (·.occurrences))[number]? = some ⟨source, outer :: inner⟩) :
    (∃ registered, registry.declarations[number]? = some registered ∧
      registry.Represents ⟨source, outer :: inner⟩ registered) ∧
    ∀ scope : Scope,
      (registry.findClass outer.name scope = some top →
        registry.findClass (".".intercalate ((outer :: inner).map (·.name))) scope =
          some number) ∧
      (source.package ≠ "" → registry.findClass (Dotted.first source.package) scope = none →
        registry.findClass (source.package ++ "." ++
          ".".intercalate ((outer :: inner).map (·.name))) scope = some number) := by
  refine ⟨exists_result h.represents hNumber, fun scope => ⟨fun hOuter => ?_, ?_⟩⟩
  · cases inner with
    | nil =>
        obtain rfl := h.occurrence_unique distinct hTop hNumber rfl
        simpa using hOuter
    | cons second rest =>
        have hNames : ∀ name ∈ (outer :: second :: rest).map (·.name), '.' ∉ name.toList :=
          h.dot_notMem_of_mem (List.mem_of_getElem? hNumber)
        have hSegments : Dotted.segments (".".intercalate
            ((outer :: second :: rest).map (·.name))) =
              outer.name :: second.name :: rest.map (·.name) :=
          Dotted.segments_intercalate (by simp) hNames
        rw [findClass_of_first hSegments hOuter]
        exact h.findNested_path distinct (List.cons_ne_nil outer []) hTop hNumber
  · intro hPackage hFirst
    rw [findClass_of_unknown (by simp) (by rwa [Dotted.first_append]),
      ← Occurrence.qualifiedName_of_package hPackage (List.cons_ne_nil outer inner)]
    exact h.get?_byName_of_distinct distinct hNumber

end Registry

/-! ### An enum in a class in a class, and a source that imports the outermost one -/

def kindText : List Char := "package shop; class Item {class Part {enum Kind {BOLT}}}".toList

def kindSource : SourceFile where
  package := "shop"
  imports := []
  types :=
    [⟨.classDecl, "Item", [], [], [], [],
      [⟨.classDecl, "Part", [], [], [], [], [⟨.enumDecl, "Kind", [], [], [], ["BOLT"], []⟩]⟩]⟩]

def cartText : List Char :=
  "package app; import shop.Item; import java.util.List; class Cart {List<Item> items;}".toList

def cartSource : SourceFile where
  package := "app"
  imports := [⟨"shop.Item", false, false⟩, ⟨"java.util.List", false, false⟩]
  types :=
    [⟨.classDecl, "Cart", [], [], [⟨"items", ⟨"List", [⟨"Item", [], 0⟩], 0⟩, none, []⟩], [], []⟩]

/-- A registry of both sources. -/
def cartRegistry : Registry := ((Registry.empty true).add kindSource).add cartSource

/-- The place inside the cart. -/
def cartScope : Scope where
  file := ⟨cartSource, [3]⟩
  chain := cartRegistry.declarations.drop 3

private theorem parse_kindText : parse kindText = .ok kindSource := by
  refine @parse_eq_ok_of_bare kindText
    [.plain .packageWord "package", .plain .identifier "shop", .plain .semicolon ";",
      .plain .classWord "class", .plain .identifier "Item", .plain .leftBrace "\x7b",
      .plain .classWord "class", .plain .identifier "Part", .plain .leftBrace "\x7b",
      .plain .enumWord "enum", .plain .identifier "Kind", .plain .leftBrace "\x7b",
      .plain .identifier "BOLT", .plain .rightBrace "\x7d", .plain .rightBrace "\x7d",
      .plain .rightBrace "\x7d"] ?_ ?_ ?_
  · rw [tokenize_eq_within]
    decide +kernel
  · rw [tokenize_eq_within]
    decide +kernel
  · show Derives _ _
    decide

private theorem parse_cartText : parse cartText = .ok cartSource := by
  refine @parse_eq_ok_of_bare cartText
    [.plain .packageWord "package", .plain .identifier "app", .plain .semicolon ";",
      .plain .importWord "import", .plain .identifier "shop", .plain .dot ".",
      .plain .identifier "Item", .plain .semicolon ";", .plain .importWord "import",
      .plain .identifier "java", .plain .dot ".", .plain .identifier "util", .plain .dot ".",
      .plain .identifier "List", .plain .semicolon ";", .plain .classWord "class",
      .plain .identifier "Cart", .plain .leftBrace "\x7b", .plain .identifier "List",
      .plain .lessThan "<", .plain .identifier "Item", .plain .moreThan ">",
      .plain .identifier "items", .plain .semicolon ";", .plain .rightBrace "\x7d"] ?_ ?_ ?_
  · rw [tokenize_eq_within]
    decide +kernel
  · rw [tokenize_eq_within]
    decide +kernel
  · show Derives _ _
    decide

theorem reachable_cartRegistry :
    Registry.Reachable true [kindSource, cartSource] cartRegistry :=
  .add (.add .empty parse_kindText) parse_cartText

/-- In the cart the enum can be named behind the class that is imported, and by its qualified
name. -/
theorem nested_declaration_of_item :
    (cartRegistry.declarations.map (·.entity.qualifiedName)).Nodup ∧
      cartRegistry.findClass "Item" cartScope = some 0 ∧
      cartRegistry.findClass "shop" cartScope = none ∧
      cartRegistry.findClass "Item.Part.Kind" cartScope = some 2 ∧
      cartRegistry.findClass "shop.Item.Part.Kind" cartScope = some 2 := by
  have distinct : (cartRegistry.declarations.map (·.entity.qualifiedName)).Nodup := by
    rw [reachable_cartRegistry.nodup_qualifiedName_iff]
    decide +kernel
  have hItem : cartRegistry.findClass "Item" cartScope = some 0 := by decide +kernel
  have hShop : cartRegistry.findClass "shop" cartScope = none := by decide +kernel
  have hFound := Registry.nested_declaration_found reachable_cartRegistry distinct
    (rfl : ([kindSource, cartSource].flatMap (·.occurrences))[0]? = some ⟨kindSource, _⟩)
    (rfl : ([kindSource, cartSource].flatMap (·.occurrences))[2]? = some ⟨kindSource, _⟩)
  obtain ⟨_, inScope⟩ := hFound
  exact ⟨distinct, hItem, hShop, (inScope cartScope).1 hItem,
    (inScope cartScope).2 (by decide) hShop⟩

end ClassSchema.Java
