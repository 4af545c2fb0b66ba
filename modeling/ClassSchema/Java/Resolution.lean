import ClassSchema.Java.Registry
import ClassSchema.Model.Kind

/-!
# From names to classes

The name of a type means different things in different places.  A scope is such
a place: a file, and the chain of declarations around it.  A simple name is
looked up in the declarations of the chain from the inside out, each with what
is directly inside it, then at top level of the file, in the single imports, in
the package, and in the wildcard imports.  A dotted name leads from the class of
its first segment to a nested one, or is a qualified name.

A name that leads to no class of the model is taken for a library class and
qualified by the imports and by what is known of the library.

## Main results

* `findClass_simple`: a name without dots is looked up as a simple name.
-/

namespace ClassSchema.Java

namespace Library

/-- The classes that need no import. -/
def implicit : List String :=
  ["String", "Integer", "Long", "Boolean", "Double", "Float", "Short", "Byte", "Character",
   "Number", "Object", "CharSequence", "Enum", "Void"]

/-- The package of those classes, with the dot behind it. -/
def implicitPackage : String := "java.lang."

/-- Points in time and durations, without their package. -/
def times : List String :=
  ["Instant", "LocalDate", "LocalDateTime", "LocalTime", "OffsetDateTime", "OffsetTime",
   "ZonedDateTime", "Duration", "Period", "Year", "YearMonth", "MonthDay", "ZoneId",
   "ZoneOffset"]

/-- The containers whose type arguments are kept. -/
def containers : List String := Names.lists ++ Names.sets ++ Names.maps

/-- The classes that a wildcard import is known to bring. -/
def known : List String :=
  (Names.scalars.map (·.1)).filter (!Names.primitives.contains ·)
    ++ containers ++ Names.times ++ times.map (Names.timePackage ++ ·)
    ++ ["java.util.UUID", "java.util.Optional", "java.util.Locale"]

end Library

/-- A place where names are looked up. -/
structure Scope where
  /-- The file. -/
  file : RegisteredFile
  /-- The declarations around the place, the outermost first. -/
  chain : List Registered
  deriving Repr

namespace Scope

/-- The names of the type parameters that are visible. -/
def typeParams (scope : Scope) : List String :=
  scope.chain.flatMap (·.declaration.typeParams)

end Scope

/-- The number of the first of some declarations that has a name. -/
def numberNamed (name : String) (decls : List TypeDecl) (numbers : List Nat) : Option Nat :=
  ((decls.zip numbers).find? fun entry => entry.1.name = name).map (·.2)

/-- Looks a name up in a declaration and in what is directly inside it. -/
def Registered.lookup (name : String) (registered : Registered) : Option Nat :=
  if registered.declaration.name = name then registered.chain.getLast?
  else numberNamed name registered.declaration.types registered.nested

/-- Whether an import brings a class under its simple name. -/
def Import.brings (name : String) (imported : Import) : Bool :=
  !imported.isWildcard && Dotted.last imported.name == name

namespace Registry

/-! ## Classes -/

/-- The class of a wildcard import. -/
def findWildcard (registry : Registry) (name : String) (imports : List Import) : Option Nat :=
  imports.findSome? fun imported =>
    if imported.isWildcard then registry.byName.get? (imported.name ++ "." ++ name) else none

/-- The class that a name without dots means where no declaration of the file has it. -/
def findImported (registry : Registry) (name : String) (source : SourceFile) : Option Nat :=
  match source.imports.find? (·.brings name) with
  | some imported => registry.byName.get? imported.name
  | none =>
      (registry.byName.get? (Dotted.qualify source.package name)).or
        (registry.findWildcard name source.imports)

/-- The class that a name without dots means. -/
def findSimple (registry : Registry) (name : String) (scope : Scope) : Option Nat :=
  (scope.chain.reverse.findSome? (·.lookup name)).or <|
    (numberNamed name scope.file.source.types scope.file.entries).or <|
      registry.findImported name scope.file.source

/-- The class that nested names lead to from a class. -/
def findNested (registry : Registry) (number : Nat) : List String → Option Nat
  | [] => some number
  | name :: rest =>
      match registry.declarations[number]? with
      | none => none
      | some registered =>
          match registered.entity.qualifiedName with
          | .str qualified =>
              match registry.byName.get? (qualified ++ "." ++ name) with
              | some inner => registry.findNested inner rest
              | none => none
          | _ => none

/-- The class that a name means. -/
def findClass (registry : Registry) (name : String) (scope : Scope) : Option Nat :=
  match Dotted.segments name with
  | first :: second :: rest =>
      match registry.findSimple first scope with
      | some outer => registry.findNested outer (second :: rest)
      | none => registry.byName.get? name
  | _ => registry.findSimple name scope

/-- A name without dots is looked up as a simple name. -/
theorem findClass_simple {registry : Registry} {name : String} {scope : Scope}
    (h : (Dotted.segments name).length = 1) :
    registry.findClass name scope = registry.findSimple name scope := by
  unfold findClass
  split
  · next segments => simp [segments] at h
  · rfl

end Registry

/-! ## Library classes -/

/-- The qualified name of a library class whose name has no dots. -/
def qualifySimple (name : String) (imports : List Import) : String :=
  match imports.find? (·.brings name) with
  | some imported => imported.name
  | none =>
      if name ∈ Library.implicit then Library.implicitPackage ++ name
      else
        (imports.findSome? fun imported =>
          let qualified := imported.name ++ "." ++ name
          if imported.isWildcard ∧ qualified ∈ Library.known then some qualified
          else none).getD name

/-- The qualified name of a library class. -/
def qualify (name : String) (imports : List Import) : String :=
  match Dotted.segments name with
  | first :: second :: rest =>
      let qualified := qualifySimple first imports
      if qualified = first then name
      else ".".intercalate (qualified :: second :: rest)
  | _ => qualifySimple name imports

/-! ## Types -/

/-- An array of arrays, as deep as there are dimensions. -/
def arrayOf (dimensions : Nat) (type : FieldType) : FieldType :=
  match dimensions with
  | 0 => type
  | dimensions + 1 => .array (arrayOf dimensions type)

namespace Registry

mutual

/-- The type that a written type means. -/
def resolveType (registry : Registry) (scope : Scope) : TypeName → FieldType
  | ⟨name, arguments, dimensions⟩ =>
      arrayOf dimensions <|
        if name ∈ Names.primitives ∨ name ∈ scope.typeParams then .scalar name
        else
          match registry.findClass name scope with
          | some number => .reference number
          | none =>
              let qualified := qualify name scope.file.source.imports
              if qualified ∈ Library.containers then
                .parameterized qualified (registry.resolveTypes scope arguments)
              else .scalar qualified

/-- The types that written types mean. -/
def resolveTypes (registry : Registry) (scope : Scope) : List TypeName → List FieldType
  | [] => []
  | type :: rest => registry.resolveType scope type :: registry.resolveTypes scope rest

end

/-! ## Building the model -/

/-- The scope inside a declaration. -/
def scopeOf (registry : Registry) (registered : Registered) : Scope where
  file := registry.files[registered.file]?.getD ⟨⟨"", [], []⟩, []⟩
  chain := registered.chain.filterMap (registry.declarations[·]?)

/-- The scope at the end of a path of positions, first among the declarations at top level of a
file and then among the ones directly inside. -/
def scopeAt (registry : Registry) (file : RegisteredFile) (path : List Nat) : Option Scope :=
  let rec follow (chain : List Registered) (numbers : List Nat) : List Nat → Option Scope
    | [] => some ⟨file, chain⟩
    | position :: rest =>
        match numbers[position]?.bind (registry.declarations[·]?) with
        | some registered => follow (chain ++ [registered]) registered.nested rest
        | none => none
  follow [] file.entries path

/-- Whether a field belongs to the class and not to its objects. -/
def isStatic (kind : DeclKind) (field : FieldDecl) : Bool :=
  field.modifiers.contains "static" || kind = .interfaceDecl

/-- A field with its type resolved. -/
def resolveField (registry : Registry) (scope : Scope) (kind : DeclKind) (field : FieldDecl) :
    Field where
  name := field.name
  type := registry.resolveType scope field.type
  docComment := match field.docComment with
    | some comment => .str comment
    | none => .null
  isStatic := .bool (isStatic kind field)

/-- The fields of a declaration that belong to the model. -/
def fieldsOf (registry : Registry) (registered : Registered) : List Field :=
  let kind := registered.declaration.kind
  (registered.declaration.fields.filter fun field =>
    registry.includeStatic || !isStatic kind field).map
      (registry.resolveField (registry.scopeOf registered) kind)

/-- Resolves the fields of every declaration and appends them to its class. -/
def build (registry : Registry) : Registry :=
  { registry with
    declarations := registry.declarations.map fun registered =>
      { registered with
        entity := { registered.entity with
          fields := registered.entity.fields ++ registry.fieldsOf registered } } }

end Registry

/-- The registry of some sources, with the fields of all classes. -/
def buildModel (sources : List SourceFile) (includeStatic : Bool) : Registry :=
  (sources.foldl Registry.add (Registry.empty includeStatic)).build

end ClassSchema.Java
