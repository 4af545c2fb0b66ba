import ClassSchema.Proofs.Java.Lookup
import ClassSchema.Proofs.Schema.Recursive

/-!
# Declarations at top level

The entries of a registry are the declarations at top level of its sources, in order.
Each entry has a class under the qualified name of its declaration.

The names of the classes in a registry are texts, and so are the comments of fields that
have one.  The model of a registry therefore compiles, whatever is declared in the
sources: the same name twice, a class that refers to itself, or nothing at all.

## Main results

* `Registry.Holds.entries_list`: the entries are the declarations at top level.
* `Registry.Reachable.textual`: the model of a registry is one of texts.
* `Registry.Reachable.wellBuilt`: building a model from parsed sources, and compiling its
  classes, always succeeds.
-/

namespace ClassSchema.Java

/-- A declaration at top level. -/
structure TopLevel where
  /-- The source. -/
  source : SourceFile
  /-- The declaration. -/
  declaration : TypeDecl

namespace TopLevel

/-- The name with the package in front of it. -/
def qualifiedName (top : TopLevel) : String :=
  Dotted.qualify top.source.package top.declaration.name

/-- Whether a declaration is asked for: it is no interface and has the name, if there is one. -/
def isAskedFor (className : Option String) (top : TopLevel) : Bool :=
  top.declaration.kind != .interfaceDecl &&
    match className with
    | none => true
    | some name => name = "" || (top.declaration.name == name || top.qualifiedName == name)

end TopLevel

/-- The declarations at top level of some sources, in order. -/
def topLevel (sources : List SourceFile) : List TopLevel :=
  sources.flatMap fun source => source.types.map (⟨source, ·⟩)

/-- The key of a class is the qualified name of its declaration. -/
theorem key_entityOf (parent : String) (decl : TypeDecl) :
    (entityOf (Dotted.qualify parent decl.name) decl).key =
      .str (Dotted.qualify parent decl.name) := by
  by_cases hEmpty : Dotted.qualify parent decl.name = ""
  · have hName : decl.name = "" := by
      unfold Dotted.qualify at hEmpty
      split at hEmpty
      · exact hEmpty
      · simp at hEmpty
    simp [Entity.key, entityOf, hName, Json.truthy]
  · simp [Entity.key, entityOf, hEmpty, Json.truthy]

/-! ## Entries -/

/-- A number is that of the class of a declaration at top level. -/
def Lists (at? : Nat → Option Registered) (number : Nat) (top : TopLevel) : Prop :=
  ∃ registered, at? number = some registered ∧
    registered.unbuilt.entity = entityOf top.qualifiedName top.declaration

section Entries

variable {at? : Nat → Option Registered}

/-- The numbers of the declarations of a source are those of their classes. -/
theorem lists_of_sits {file number : Nat} {source : SourceFile} {decls : List TypeDecl}
    (sits : Sits at? number (registerAll file source.package [] number decls)) :
    List.Forall₂ (Lists at?) (numbersFrom number decls) (decls.map (⟨source, ·⟩)) := by
  induction decls generalizing number with
  | nil => exact .nil
  | cons decl rest ih =>
      obtain ⟨hFirst, hRest⟩ := Sits.of_append sits
      rw [register_length] at hRest
      refine .cons ?_ (ih hRest)
      cases decl
      exact ⟨_, hFirst.of_cons.1, rfl⟩

/-- The numbers of several sources, one after the other. -/
theorem filesFrom_lists {file number : Nat} {sources : List SourceFile}
    (sits : Sits at? number (registeredFrom file number sources)) :
    List.Forall₂ (Lists at?) ((filesFrom number sources).flatMap (·.entries))
      (topLevel sources) := by
  induction sources generalizing file number with
  | nil => exact .nil
  | cons source rest ih =>
      obtain ⟨hFirst, hRest⟩ := Sits.of_append sits
      rw [registerAll_length] at hRest
      exact List.rel_append (lists_of_sits hFirst) (ih hRest)

end Entries

namespace Registry

/-- **The entries of a registry** are the declarations at top level, in order. -/
theorem Holds.entries_list {sources : List SourceFile} {registry : Registry}
    (h : Holds sources registry) :
    List.Forall₂ (Lists (registry.declarations[·]?)) registry.entries (topLevel sources) := by
  unfold entries
  rw [h.files]
  refine (filesFrom_lists h.sits).imp ?_
  rintro number top ⟨unbuilt, hFound, hEntity⟩
  obtain ⟨registered, hRegistered, rfl⟩ :=
    Option.map_eq_some_iff.mp (List.getElem?_map.symm.trans hFound)
  exact ⟨registered, hRegistered, hEntity⟩

/-! ## Models of texts -/

namespace Reachable

variable {includeStatic : Bool} {sources : List SourceFile} {registry : Registry}

/-- Comments of fields are texts or missing. -/
theorem comment_isTextual (h : Reachable includeStatic sources registry) :
    ∀ registered ∈ registry.declarations, ∀ field ∈ registered.entity.fields,
      field.docComment.IsTextual := by
  induction h with
  | empty => simp [Registry.empty]
  | @add sources registry text source _ _ ih =>
      intro registered mem field hField
      simp only [Registry.add, List.mem_append] at mem
      rcases mem with mem | mem
      · exact ih registered mem field hField
      · rw [← registerAll_unbuilt, List.mem_map] at mem
        obtain ⟨unbuilt, _, rfl⟩ := mem
        cases hField
  | @build sources registry _ ih =>
      intro registered mem field hField
      simp only [Registry.build, List.mem_map] at mem
      obtain ⟨before, hBefore, rfl⟩ := mem
      rcases List.mem_append.mp hField with hOld | hNew
      · exact ih before hBefore field hOld
      · obtain ⟨decl, _, rfl⟩ := List.mem_map.mp hNew
        cases hComment : decl.docComment with
        | none => exact .inl (by simp [resolveField, hComment])
        | some comment => exact .inr ⟨comment, by simp [resolveField, hComment]⟩

/-- **The model of a registry is one of texts.** -/
theorem textual (h : Reachable includeStatic sources registry) : registry.model.Textual where
  name entity mem := by
    obtain ⟨registered, hRegistered, rfl⟩ := List.mem_map.mp mem
    obtain ⟨qualified, hQualified, _⟩ := (h.isNamed hRegistered).qualifiedName
    exact .inr ⟨qualified, hQualified⟩
  comment entity mem := by
    obtain ⟨registered, hRegistered, rfl⟩ := List.mem_map.mp mem
    exact h.comment_isTextual registered hRegistered

end Reachable

/-- Parsed sources can be added one after the other. -/
theorem reachable_of_parsed (includeStatic : Bool) {sources : List SourceFile}
    (parsed : ∀ source ∈ sources, ∃ text, parse text = .ok source) :
    Reachable includeStatic sources (sources.foldl add (empty includeStatic)) := by
  induction sources using List.reverseRecOn with
  | nil => exact .empty
  | append_singleton sources source ih =>
      obtain ⟨text, hParse⟩ := parsed source (by simp)
      rw [List.foldl_append]
      exact .add (ih fun other mem => parsed other (by simp [mem])) hParse

end Registry

/-! ## Building and compiling -/

/-- Building the model of a registry, and compiling it, gives what it should. -/
structure WellBuilt (registry : Registry) : Prop where
  /-- A declaration that a name means in another one is found, and imports matter only where there
  is none. -/
  found : ∀ registered ∈ registry.declarations, ∀ name, ∃ number,
    Option.Rel registry.Has ((registry.scopeOf registered).declared name) number ∧
      registry.findSimple name (registry.scopeOf registered) =
        number.or (registry.findImported name (registry.scopeOf registered).file.source)
  /-- Every class that a field mentions is there. -/
  targets : ∀ entity ∈ registry.build.model, ∀ field ∈ entity.fields,
    ∀ target ∈ field.type.targets, target < registry.build.model.length
  /-- Every class compiles, whatever was compiled before. -/
  compiles : ∀ number visited, ∃ schema visited',
    registry.build.model.compileClass number visited = (.ok schema, visited')

/-- **Building and compiling always succeed** where sources were parsed. -/
theorem Registry.Reachable.wellBuilt {includeStatic : Bool} {sources : List SourceFile}
    {registry : Registry} (h : Reachable includeStatic sources registry) : WellBuilt registry where
  found registered mem name := h.consistent.has_findSimple (h.consistent.scopes registered mem) name
  targets entity mem field hField target hTarget := by
    obtain ⟨registered, hRegistered, rfl⟩ := List.mem_map.mp mem
    have hLess := h.build.targets_lt registered hRegistered field hField target hTarget
    rwa [← List.length_map (·.entity)] at hLess
  compiles number visited := Recursive.exists_compileClass h.build.textual number visited

end ClassSchema.Java
