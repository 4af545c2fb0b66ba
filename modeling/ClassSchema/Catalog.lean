import ClassSchema.Text.Dotted
import ClassSchema.Text.Quoted

/-!
# The catalog of public names

The package offers functions and one type, each of which lives in a module, and
the modules themselves.  The catalog tells what a name stands for.  A dotted name
leads through modules, none of which holds other modules; the first one that is
not there is reported.

## Main results

* `lookup_listed`: every listed name is found.
* `listed_sorted`: the listed names are in order.
-/

namespace ClassSchema.Catalog

/-- What a name can stand for. -/
inductive ItemKind where
  | function
  | type
  | module
  deriving DecidableEq, Repr

/-- The word for a kind of item. -/
def ItemKind.word : ItemKind → String
  | function => "function"
  | type => "type"
  | module => "module"

/-- What a name stands for. -/
structure Item where
  /-- What it is. -/
  kind : ItemKind
  /-- The module in which it lives, unless it is one. -/
  home : Option String
  /-- Its own name. -/
  name : String
  deriving DecidableEq, Repr

/-- The name of the package. -/
def package : String := "classtojsons"

/-- A name inside the package. -/
def inside (name : String) : String := package ++ "." ++ name

/-- What the package offers, sorted by name. -/
def listed : List Item :=
  [⟨.type, some (inside "modeltojsons"), "ClassToJsonSchemaConverter"⟩,
   ⟨.function, some (inside "javatojsons"), "build_type_model"⟩,
   ⟨.function, some (inside "javatojsons"), "convert_java_to_json_schema"⟩,
   ⟨.function, some (inside "modeltojsons"), "convert_type_model_to_json_schema"⟩,
   ⟨.function, some (inside "typemodel"), "load_type_model"⟩,
   ⟨.function, some (inside "typemodel"), "load_type_model_from_file"⟩,
   ⟨.function, some (inside "modeltojsons"), "write_json_schemas"⟩]

/-- The names of what the package offers. -/
def listedNames : List String := listed.map (·.name)

/-- What can be reached without being offered. -/
def unlisted : List Item := [⟨.module, none, "importlib"⟩]

/-- The modules of the package. -/
def modules : List String :=
  ["_version", "classtojsons", "javaparser", "javatojsons", "modeltojsons", "typemodel"]

/-- Why a name stands for nothing. -/
inductive LookupError where
  /-- The package has nothing of that name. -/
  | noAttribute (name : String)
  /-- A module on the way to the name is not there. -/
  | noModule (name : String)
  /-- A module on the way to the name should be in one that holds no modules. -/
  | noPackage (name parent : String)
  deriving DecidableEq, Repr

/-- The wording of an error. -/
def LookupError.message : LookupError → String
  | noAttribute name =>
      "module " ++ Text.quoted package ++ " has no attribute " ++ Text.quoted name
  | noModule name => "No module named " ++ Text.quoted name
  | noPackage name parent =>
      "No module named " ++ Text.quoted name ++ "; " ++ Text.quoted parent ++ " is not a package"

/-- What is wrong with a name that is neither an item nor a module. -/
def missing (name : String) : LookupError :=
  match Dotted.segments name with
  | first :: second :: _ :: _ =>
      if modules.contains first then
        .noPackage (inside (first ++ "." ++ second)) (inside first)
      else .noModule (inside first)
  | [first, _] => if modules.contains first then .noAttribute name else .noModule (inside first)
  | _ => .noAttribute name

/-- What a name stands for. -/
def lookup (name : String) : Except LookupError Item :=
  match (listed ++ unlisted).find? (·.name == name) with
  | some item => .ok item
  | none =>
      if modules.contains name then .ok ⟨.module, none, inside name⟩
      else if name.toList.head? = some '_' then .error (.noAttribute name)
      else .error (missing name)

/-- Every listed name is found. -/
theorem lookup_listed {item : Item} (mem : item ∈ listed) : lookup item.name = .ok item := by
  simp only [listed, List.mem_cons, List.not_mem_nil, or_false] at mem
  rcases mem with rfl | rfl | rfl | rfl | rfl | rfl | rfl <;> rfl

/-- The listed names are in order. -/
theorem listed_sorted : listedNames.Pairwise (· < ·) := by
  decide

end ClassSchema.Catalog
