import ClassSchema.Java.Declaration
import ClassSchema.Model.Basic
import ClassSchema.Text.Dotted

/-!
# Registered declarations

Before the type of any field can be resolved, all declarations of all sources
have to be known.  A registry lists them, each before the ones nested in it, and
gives each a class of the model with the same number.

A declaration knows the chain of declarations around it and the numbers of the
ones directly inside it.  Under a qualified name the registry finds the
declaration that was registered last.

## Main results

* `register_length`: registering a declaration takes as many numbers as it has
  declarations in it, itself included.
-/

namespace ClassSchema.Java

/-! ## Counting -/

mutual

/-- The number of declarations in a declaration, itself included. -/
def TypeDecl.count : TypeDecl → Nat
  | ⟨_, _, _, _, _, _, types⟩ => TypeDecl.countAll types + 1

/-- The number of declarations in declarations. -/
def TypeDecl.countAll : List TypeDecl → Nat
  | [] => 0
  | decl :: rest => decl.count + TypeDecl.countAll rest

end

/-- The numbers of declarations that are registered one after the other. -/
def numbersFrom (number : Nat) : List TypeDecl → List Nat
  | [] => []
  | decl :: rest => number :: numbersFrom (number + decl.count) rest

/-! ## Registration -/

/-- A registered declaration. -/
structure Registered where
  /-- What is declared. -/
  declaration : TypeDecl
  /-- The number of the file it is declared in. -/
  file : Nat
  /-- The numbers of the declarations around it, the outermost first, and its own. -/
  chain : List Nat
  /-- The numbers of the declarations directly inside it. -/
  nested : List Nat
  /-- Its class. -/
  entity : Entity
  deriving Repr

/-- The class of a declaration, without fields. -/
def entityOf (qualifiedName : String) (decl : TypeDecl) : Entity where
  simpleName := decl.name
  qualifiedName := .str qualifiedName
  isEnum := .bool (decl.kind = .enumDecl)
  isInterface := .bool (decl.kind = .interfaceDecl)
  enumConstants := decl.enumConstants.map .str
  fields := []

mutual

/-- Registers a declaration under a number: itself, and then what is inside it. -/
def register (file : Nat) (parent : String) (chain : List Nat) (number : Nat) :
    TypeDecl → List Registered
  | ⟨kind, name, typeParams, modifiers, fields, enumConstants, types⟩ =>
      let decl : TypeDecl := ⟨kind, name, typeParams, modifiers, fields, enumConstants, types⟩
      let qualifiedName := Dotted.qualify parent name
      let chain := chain ++ [number]
      { declaration := decl
        file
        chain
        nested := numbersFrom (number + 1) types
        entity := entityOf qualifiedName decl }
        :: registerAll file qualifiedName chain (number + 1) types

/-- Registers declarations one after the other, the first under a number. -/
def registerAll (file : Nat) (parent : String) (chain : List Nat) (number : Nat) :
    List TypeDecl → List Registered
  | [] => []
  | decl :: rest =>
      register file parent chain number decl
        ++ registerAll file parent chain (number + decl.count) rest

end

mutual

/-- Registering takes as many numbers as there are declarations. -/
theorem register_length (file : Nat) (parent : String) (chain : List Nat) (number : Nat) :
    (decl : TypeDecl) → (register file parent chain number decl).length = decl.count
  | ⟨_, _, _, _, _, _, types⟩ => by
      simp only [register, TypeDecl.count, List.length_cons]
      rw [registerAll_length _ _ _ _ types]

theorem registerAll_length (file : Nat) (parent : String) (chain : List Nat) (number : Nat) :
    (decls : List TypeDecl) →
      (registerAll file parent chain number decls).length = TypeDecl.countAll decls
  | [] => rfl
  | decl :: rest => by
      simp only [registerAll, TypeDecl.countAll, List.length_append]
      rw [register_length _ _ _ _ decl, registerAll_length _ _ _ _ rest]

end

/-! ## Registries -/

/-- A source with the numbers of its declarations at top level. -/
structure RegisteredFile where
  /-- The source. -/
  source : SourceFile
  /-- The numbers. -/
  entries : List Nat
  deriving Repr

/-- All declarations of some sources. -/
structure Registry where
  /-- Whether static fields are part of the model. -/
  includeStatic : Bool
  /-- The sources in order. -/
  files : List RegisteredFile
  /-- The declarations by number. -/
  declarations : List Registered
  /-- The numbers of the declarations by qualified name. -/
  byName : OrderedMap Nat
  deriving Repr

namespace Registry

/-- No sources. -/
def empty (includeStatic : Bool) : Registry := ⟨includeStatic, [], [], []⟩

/-- Enters a declaration under its qualified name. -/
def enter (byName : OrderedMap Nat) (entry : Registered × Nat) : OrderedMap Nat :=
  match entry.1.entity.qualifiedName with
  | .str name => byName.put name entry.2
  | _ => byName

/-- Registers the declarations of a source. -/
def add (registry : Registry) (source : SourceFile) : Registry :=
  let number := registry.declarations.length
  let added := registerAll registry.files.length source.package [] number source.types
  { registry with
    files := registry.files ++ [⟨source, numbersFrom number source.types⟩]
    declarations := registry.declarations ++ added
    byName := (added.zipIdx number).foldl enter registry.byName }

/-- The classes that are asked for as such: the declarations at top level, in order. -/
def entries (registry : Registry) : List Nat := registry.files.flatMap (·.entries)

/-- The model as far as it is built. -/
def model (registry : Registry) : Model := registry.declarations.map (·.entity)

end Registry

end ClassSchema.Java
