/-!
# Declarations of a Java source

What a source declares, as far as schemas need it: the package, the imports, and
the classes, interfaces and enums with their fields, constants and nested types.
Types are names with arguments and a number of array dimensions; which class a
name means is not known yet.
-/

namespace ClassSchema.Java

/-- A type as it is written. -/
structure TypeName where
  /-- The name, dots included. -/
  name : String
  /-- The type arguments of its last part. -/
  arguments : List TypeName
  /-- How often it is an array. -/
  dimensions : Nat
  deriving Repr, Inhabited

/-- A declared field. -/
structure FieldDecl where
  /-- Its name. -/
  name : String
  /-- Its type, with the dimensions behind the name. -/
  type : TypeName
  /-- The doc comment in front of the declaration. -/
  docComment : Option String
  /-- The modifiers in order, without annotations. -/
  modifiers : List String
  deriving Repr

/-- The kinds of declared types. -/
inductive DeclKind where
  | classDecl
  | interfaceDecl
  | enumDecl
  deriving DecidableEq, Repr

/-- The keyword of a kind. -/
def DeclKind.word : DeclKind → String
  | classDecl => "class"
  | interfaceDecl => "interface"
  | enumDecl => "enum"

/-- A declared type. -/
structure TypeDecl where
  /-- Class, interface or enum. -/
  kind : DeclKind
  /-- Its name, without the types around it. -/
  name : String
  /-- The names of its type parameters. -/
  typeParams : List String
  /-- The modifiers in order, without annotations. -/
  modifiers : List String
  /-- Its fields in order. -/
  fields : List FieldDecl
  /-- The constants of an enum in order. -/
  enumConstants : List String
  /-- The types declared inside it, in order. -/
  types : List TypeDecl
  deriving Repr

/-- An import. -/
structure Import where
  /-- The imported name, without the star. -/
  name : String
  /-- Whether it imports members of a class. -/
  isStatic : Bool
  /-- Whether it imports everything under its name. -/
  isWildcard : Bool
  deriving DecidableEq, Repr

/-- A source. -/
structure SourceFile where
  /-- The package, empty if there is none. -/
  package : String
  /-- The imports in order. -/
  imports : List Import
  /-- The types at top level, in order. -/
  types : List TypeDecl
  deriving Repr

end ClassSchema.Java
