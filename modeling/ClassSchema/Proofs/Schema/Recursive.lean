import ClassSchema.Proofs.Schema.Meeting
import Mathlib.Data.List.Basic

/-!
# Schemas by recursion

The schema of a class is defined here the short way, by functions that call each
other: a class compiles its fields in order, a field compiles its type, and a
type that is a class compiles that class to its end before the next field is
looked at.  One visited set runs through all of it.

The functions are about models in which names and comments are texts or missing.
They have no stack, no errors and no half-built objects, and the walk that the
library runs agrees with them on the schema and on the visited set.

A call returns the visited set with a proof that no class became unvisited; that
is what makes the calls end on cyclic models.

## Main results

* `Recursive.compile_eq_outcome`: the walk computes what the recursion says, for
  classes, fields and types.
-/

namespace ClassSchema

/-! ## Models of texts -/

/-- A value that is a text or missing. -/
def Json.IsTextual (value : Json) : Prop := value = .null ∨ ∃ text, value = .str text

/-- The names and comments of a model are texts or missing. -/
structure Model.Textual (model : Model) : Prop where
  /-- Each class has a name that is a text or missing. -/
  name : ∀ entity ∈ model, entity.qualifiedName.IsTextual
  /-- Each field has a comment that is a text or missing. -/
  comment : ∀ entity ∈ model, ∀ field ∈ entity.fields, field.docComment.IsTextual

namespace Recursive

/-! ## Names, kinds and descriptions -/

/-- The key of a class: its qualified name, or the simple one where that is missing or empty. -/
def keyOf (entity : Entity) : String :=
  match entity.qualifiedName with
  | .str name => if name = "" then entity.simpleName else name
  | _ => entity.simpleName

/-- Whether a class is from the standard packages. -/
def isStandard (entity : Entity) : Bool :=
  match entity.qualifiedName with
  | .str name => Names.beginsWith Names.standardPackages name
  | _ => false

/-- The class of the model that a type refers to, standard classes left out. -/
def modelClass? (model : Model) : FieldType → Option Entity
  | .reference target => (model[target]?).filter (!isStandard ·)
  | _ => none

/-- The kind of a type, by its name. -/
def kindOf (model : Model) : FieldType → Kind
  | .array _ => .array
  | .scalar name => Names.kind name
  | .parameterized name _ => Names.kind name
  | .reference target =>
      match (model[target]?).map Entity.qualifiedName with
      | some (.str name) => Names.kind name
      | _ => .object

/-- The values of a map: a class is referred to and neither expanded nor visited. -/
def valueSchema (model : Model) (value : FieldType) : Schema :=
  match modelClass? model value with
  | some entity => .reference (keyOf entity)
  | none => .bare (kindOf model value)

/-- The description of a field, if it has a comment. -/
def description (field : Field) : Option String :=
  match field.docComment with
  | .str comment => some (Comment.clean comment)
  | _ => none

theorem key_eq {entity : Entity} (h : entity.qualifiedName.IsTextual) :
    entity.key = .str (keyOf entity) := by
  rcases h with hNull | ⟨name, hName⟩
  · simp [Entity.key, keyOf, hNull, Json.truthy]
  · by_cases hEmpty : name = "" <;> simp [Entity.key, keyOf, hName, hEmpty, Json.truthy]

theorem isStandard_eq {entity : Entity} (h : entity.qualifiedName.IsTextual) :
    entity.isStandard = .ok (isStandard entity) := by
  rcases h with hNull | ⟨name, hName⟩
  · simp [Entity.isStandard, isStandard, hNull]
  · simp [Entity.isStandard, isStandard, hName]

theorem descriptionOf_eq {field : Field} (h : field.docComment.IsTextual) :
    descriptionOf field.docComment = .ok (description field) := by
  rcases h with hNull | ⟨comment, hComment⟩
  · simp [descriptionOf, description, hNull]
  · simp [descriptionOf, description, hComment]

/-! ## The recursion -/

/-- What a call returns: a result, and the visited set, in which no key was lost. -/
structure Compiled (model : Model) (before : Visited) (α : Type) where
  /-- The result. -/
  result : α
  /-- The visited set behind the call. -/
  visited : Visited
  /-- The classes that are not visited did not become more. -/
  grown : Walk.unmet visited model ≤ Walk.unmet before model

namespace Compiled

variable {model : Model} {before : Visited} {α β : Type}

/-- A result that changes no visited set. -/
def pure (result : α) : Compiled model before α := ⟨result, before, Nat.le_refl _⟩

/-- Changes the result alone. -/
def map (f : α → β) (compiled : Compiled model before α) : Compiled model before β :=
  ⟨f compiled.result, compiled.visited, compiled.grown⟩

/-- A call as the library reports it. -/
def outcome (compiled : Compiled model before α) : Except CompileError α × Visited :=
  (.ok compiled.result, compiled.visited)

end Compiled

variable (model : Model) (textual : model.Textual)

include textual in
/-- Visiting a class leaves fewer classes that are not visited. -/
theorem unmet_lt {number : Nat} {entity : Entity} {visited : Visited}
    (found : model[number]? = some entity)
    (fresh : ¬ visited.has (.str (keyOf entity)) = true) :
    Walk.unmet (.str (keyOf entity) :: visited) model < Walk.unmet visited model := by
  have hKey := key_eq (textual.name entity (List.mem_of_getElem? found))
  rw [← hKey] at fresh ⊢
  have hFresh : visited.has entity.key = false := by simpa using fresh
  have hLess := Walk.unmet_cons_lt found (by rw [hKey]; rfl) hFresh
  omega

mutual

/-- The schema of a class: a reference if its key was met, else its constants or its fields. -/
def classSchema (number : Nat) (visited : Visited) : Compiled model visited Schema :=
  match found : model[number]? with
  | none => .pure (.bare .object)
  | some entity =>
      let key := keyOf entity
      if fresh : visited.has (.str key) then .pure (.reference key)
      else
        have less := unmet_lt model textual found fresh
        if entity.isEnum.truthy then
          ⟨.enumeration entity.simpleName entity.enumConstants, .str key :: visited,
            Nat.le_of_lt less⟩
        else
          let body := properties entity.fields [] (.str key :: visited)
          ⟨.object entity.simpleName body.result, body.visited,
            Nat.le_trans body.grown (Nat.le_of_lt less)⟩
termination_by (Walk.unmet visited model, 0, 0)
decreasing_by exact Prod.Lex.left _ _ less

/-- The schema of the element of a sequence: a class, or the kind of anything else. -/
def typeSchema (type : FieldType) (visited : Visited) : Compiled model visited Schema :=
  match type with
  | .reference target =>
      if (modelClass? model (.reference target)).isSome then classSchema target visited
      else .pure (.bare (kindOf model (.reference target)))
  | type => .pure (.bare (kindOf model type))
termination_by (Walk.unmet visited model, 1, 0)
decreasing_by exact Prod.Lex.right _ (Prod.Lex.left _ _ (by decide))

/-- The schema of the type of a field.  Arrays come first, then classes, then lists of one
argument, then maps whose keys and values are classes. -/
def fieldSchema (type : FieldType) (visited : Visited) : Compiled model visited Schema :=
  match type with
  | .array element => (typeSchema element visited).map .array
  | .reference target => typeSchema (.reference target) visited
  | .parameterized name [item] =>
      if name ∈ Names.lists then (typeSchema item visited).map .array
      else .pure (.bare (Names.kind name))
  | .parameterized name [key, value] =>
      if name ∈ Names.maps ∧ key.isClassLike ∧ value.isClassLike then
        .pure (.map (valueSchema model value))
      else .pure (.bare (Names.kind name))
  | type => .pure (.bare (kindOf model type))
termination_by (Walk.unmet visited model, 2, 0)
decreasing_by all_goals exact Prod.Lex.right _ (Prod.Lex.left _ _ (by decide))

/-- The property of a field: the schema of its type, and the text of its comment. -/
def property (field : Field) (visited : Visited) : Compiled model visited Property :=
  (fieldSchema field.type visited).map (⟨·, description field⟩)
termination_by (Walk.unmet visited model, 3, 0)
decreasing_by exact Prod.Lex.right _ (Prod.Lex.left _ _ (by decide))

/-- The properties of fields, one after the other, behind those that are there. -/
def properties (fields : List Field) (done : List (String × Property)) (visited : Visited) :
    Compiled model visited (List (String × Property)) :=
  match fields with
  | [] => .pure done
  | field :: fields =>
      let first := property field visited
      let others :=
        properties fields (OrderedMap.put field.name first.result done) first.visited
      ⟨others.result, others.visited, Nat.le_trans others.grown first.grown⟩
termination_by (Walk.unmet visited model, 4, fields.length)
decreasing_by
  · exact Prod.Lex.right _ (Prod.Lex.left _ _ (by decide))
  · rcases Nat.lt_or_eq_of_le first.grown with hLess | hEq
    · exact Prod.Lex.left _ _ hLess
    · rw [hEq]
      exact Prod.Lex.right _ (Prod.Lex.right _ (Nat.lt_succ_self _))

end

/-! ## The walk against the recursion -/

/-- The slot of a field has the name of the field. -/
theorem name_of_openField {field : Field} {visited visited' : Visited} {opened : Opened}
    {slot : Slot} (h : model.openField field visited = (.ok (opened, slot), visited')) :
    slot.name = field.name := by
  unfold Model.openField at h
  split at h
  · cases h
  · split at h
    · cases h
    · split at h <;> cases h
      rfl

section Agreement

variable {model}

include textual in
private theorem expandable_eq (type : FieldType) :
    model.expandable type =
      .ok (if (modelClass? model type).isSome then
        match type with
        | .reference target => some target
        | _ => none
      else none) := by
  cases type with
  | reference target =>
      cases hFound : model[target]? with
      | none => simp [Model.expandable, Model.isModelClass, modelClass?, hFound]
      | some entity =>
          have hStandard := isStandard_eq (textual.name entity (List.mem_of_getElem? hFound))
          cases hCase : isStandard entity <;>
            simp [Model.expandable, Model.isModelClass, modelClass?, hFound, hStandard, hCase,
              Except.map]
  | _ => simp [Model.expandable, Model.isModelClass, modelClass?]

include textual in
private theorem kindOf_eq (type : FieldType) :
    model.kindOf type = .ok (.bare (kindOf model type)) := by
  cases type with
  | reference target =>
      cases hFound : model[target]? with
      | none => simp [Model.kindOf, Model.resolveKind, Model.typeName, kindOf, hFound]
      | some entity =>
          rcases textual.name entity (List.mem_of_getElem? hFound) with hName | ⟨name, hName⟩ <;>
            simp [Model.kindOf, Model.resolveKind, Model.typeName, kindOf, hFound, hName]
  | _ => simp [Model.kindOf, Model.resolveKind, Model.typeName, kindOf]

include textual in
private theorem valueSchema_eq (value : FieldType) :
    model.valueSchema value = .ok (valueSchema model value) := by
  unfold Model.valueSchema
  rw [expandable_eq textual]
  cases value with
  | reference target =>
      cases hFound : model[target]? with
      | none => simp [modelClass?, valueSchema, hFound, kindOf_eq textual]
      | some entity =>
          have hKey := key_eq (textual.name entity (List.mem_of_getElem? hFound))
          cases hCase : isStandard entity <;>
            simp [modelClass?, valueSchema, hFound, hCase, hKey, referenceTo, Option.filter_some,
              kindOf_eq textual]
  | _ => simp [modelClass?, valueSchema, kindOf_eq textual]

variable {textual}

/-- A class agrees if the fields of the classes that are not visited do. -/
private theorem outcome_classSchema_of {number : Nat} {visited : Visited}
    (inner : ∀ entity ∈ model,
      Walk.unmet (.str (keyOf entity) :: visited) model < Walk.unmet visited model →
        CompilesFields model entity.fields [] (.str (keyOf entity) :: visited)
          (properties model textual entity.fields [] (.str (keyOf entity) :: visited)).result
          (properties model textual entity.fields [] (.str (keyOf entity) :: visited)).visited) :
    model.compileClass number visited =
      (classSchema model textual number visited).outcome := by
  rw [classSchema]
  split
  · next hMissing =>
      exact Model.compileClass_eq_ok_iff.mpr
        ⟨_, _, Model.openClass_eq_ok_iff.mpr (.missing hMissing), .closed _ _⟩
  · next entity hFound =>
      have hMem := List.mem_of_getElem? hFound
      have hKey := key_eq (textual.name entity hMem)
      have isKey : entity.key.isKey = true := by
        rw [hKey]
        rfl
      dsimp only
      split
      · next hKnown =>
          exact Model.compileClass_eq_ok_iff.mpr
            ⟨_, _, Model.openClass_eq_ok_iff.mpr (.known hFound hKey (hKey ▸ hKnown)), .closed _ _⟩
      · next hFresh =>
          have hLess := unmet_lt model textual hFound hFresh
          rw [← hKey, Bool.not_eq_true] at hFresh
          split
          · next hEnum =>
              have hClass := Model.openClass_eq_ok_iff.mpr (.constants hFound isKey hFresh hEnum)
              rw [hKey] at hClass
              exact Model.compileClass_eq_ok_iff.mpr ⟨_, _, hClass, .closed _ _⟩
          · next hEnum =>
              have hClass := Model.openClass_eq_ok_iff.mpr
                (.fields hFound isKey hFresh (by simpa using hEnum))
              rw [hKey] at hClass
              exact Model.compileClass_eq_ok_iff.mpr
                ⟨_, _, hClass, .pending (inner entity hMem hLess)⟩

private theorem outcome_typeSchema_of {type : FieldType} {visited : Visited}
    (inner : ∀ target,
      model.compileClass target visited = (classSchema model textual target visited).outcome) :
    model.compileType type visited = (typeSchema model textual type visited).outcome := by
  unfold Model.compileType Model.openType
  rw [expandable_eq textual]
  cases type with
  | reference target =>
      rw [typeSchema]
      by_cases hClass : (modelClass? model (.reference target)).isSome = true
      · simp only [hClass, if_true]
        exact inner target
      · simp [hClass, kindOf_eq textual, Except.map, Model.finish,
          Compiled.outcome, Compiled.pure]
  | _ =>
      rw [typeSchema]
      · simp [modelClass?, kindOf_eq textual, Except.map, Model.finish,
          Compiled.outcome, Compiled.pure]
      · intro target hType
        cases hType

/-- A field whose type is a sequence agrees if its element does. -/
private theorem outcome_listed {field : Field} {element : FieldType} {visited : Visited}
    (comment : field.docComment.IsTextual)
    (shape : model.shape field.type = .ok (.listOf element))
    (inner : model.compileType element visited =
      (typeSchema model textual element visited).outcome) :
    model.compileField field visited =
      (((typeSchema model textual element visited).map .array).map
        (⟨·, description field⟩ : Schema → Property)).outcome := by
  obtain ⟨opened, visited₁, hOpened, hFinishes⟩ := Model.compileType_eq_ok_iff.mp inner
  refine Model.compileField_eq_ok_iff.mpr
    ⟨opened, ⟨field.name, true, description field⟩, visited₁, _, ?_, hFinishes, rfl⟩
  simp [Model.openField, shape, Model.openShape, hOpened, Except.map, descriptionOf_eq comment]

/-- A field whose type decides its schema agrees. -/
private theorem outcome_fixed {field : Field} {schema : Schema} {visited : Visited}
    (comment : field.docComment.IsTextual)
    (shape : model.shape field.type = .ok (.fixed schema)) :
    model.compileField field visited =
      ((Compiled.pure schema : Compiled model visited Schema).map
        (⟨·, description field⟩ : Schema → Property)).outcome := by
  refine Model.compileField_eq_ok_iff.mpr
    ⟨.closed schema, ⟨field.name, false, description field⟩, visited, schema, ?_,
      .closed schema visited, rfl⟩
  simp [Model.openField, shape, Model.openShape, descriptionOf_eq comment]

/-- A type with arguments is no list and no map unless it has one or two of them. -/
private theorem outcome_other {field : Field} {visited : Visited} {name : String}
    {arguments : List FieldType}
    (comment : field.docComment.IsTextual) (hType : field.type = .parameterized name arguments)
    (hList : ∀ item, arguments ≠ [item]) (hMap : ∀ key value, arguments ≠ [key, value]) :
    model.compileField field visited =
      ((fieldSchema model textual (.parameterized name arguments) visited).map
        (⟨·, description field⟩ : Schema → Property)).outcome := by
  rw [fieldSchema]
  · refine outcome_fixed comment ?_
    rcases arguments with _ | ⟨first, _ | ⟨second, _ | ⟨third, others⟩⟩⟩
    · simp [hType, Model.shape, kindOf_eq textual, Except.map]
    · exact absurd rfl (hList first)
    · exact absurd rfl (hMap first second)
    · simp [hType, Model.shape, kindOf_eq textual, Except.map]
  all_goals simp_all

private theorem outcome_property_of {field : Field} {visited : Visited}
    (comment : field.docComment.IsTextual)
    (inner : ∀ target,
      model.compileClass target visited = (classSchema model textual target visited).outcome) :
    model.compileField field visited = (property model textual field visited).outcome := by
  have elements : ∀ element, model.compileType element visited =
      (typeSchema model textual element visited).outcome :=
    fun _ => outcome_typeSchema_of inner
  rw [property]
  cases hType : field.type with
  | array element =>
      rw [fieldSchema]
      exact outcome_listed comment (by rw [hType]; rfl) (elements element)
  | reference target =>
      rw [fieldSchema, typeSchema]
      by_cases hClass : (modelClass? model (.reference target)).isSome = true
      · rw [if_pos hClass]
        obtain ⟨opened, visited₁, hOpened, hFinishes⟩ :=
          Model.compileClass_eq_ok_iff.mp (inner target)
        refine Model.compileField_eq_ok_iff.mpr
          ⟨opened, ⟨field.name, false, description field⟩, visited₁, _, ?_, hFinishes, rfl⟩
        simp [Model.openField, hType, Model.shape, expandable_eq textual, hClass,
          Model.openShape, hOpened, Except.map, descriptionOf_eq comment]
      · rw [if_neg hClass]
        refine outcome_fixed comment ?_
        simp [hType, Model.shape, expandable_eq textual, hClass,
          kindOf_eq textual, Except.map]
  | scalar name =>
      rw [fieldSchema]
      · refine outcome_fixed comment ?_
        simp [hType, Model.shape, kindOf_eq textual, Except.map]
      all_goals simp
  | parameterized name arguments =>
      rcases arguments with _ | ⟨first, _ | ⟨second, _ | ⟨third, others⟩⟩⟩
      · exact outcome_other comment hType (by simp) (by simp)
      · rw [fieldSchema]
        by_cases hList : name ∈ Names.lists
        · rw [if_pos hList]
          exact outcome_listed comment (by simp [hType, Model.shape, hList]) (elements first)
        · rw [if_neg hList]
          refine outcome_fixed comment ?_
          simp [hType, Model.shape, hList, kindOf_eq textual, kindOf, Except.map]
      · rw [fieldSchema]
        by_cases hMap : name ∈ Names.maps ∧ first.isClassLike ∧ second.isClassLike
        · rw [if_pos hMap]
          refine outcome_fixed comment ?_
          simp [hType, Model.shape, hMap, valueSchema_eq textual, Except.map]
        · rw [if_neg hMap]
          refine outcome_fixed comment ?_
          simp [hType, Model.shape, hMap, kindOf_eq textual, kindOf, Except.map]
      · exact outcome_other comment hType (by simp) (by simp)

/-- **Fields agree.**  The induction is on a bound for the work in classes that are not visited;
opening one of them makes the bound smaller. -/
private theorem compilesFields_properties (bound : Nat) {visited : Visited}
    (bounded : Walk.unmet visited model < bound) {fields : List Field}
    (comments : ∀ field ∈ fields, field.docComment.IsTextual)
    (done : List (String × Property)) :
    CompilesFields model fields done visited
      (properties model textual fields done visited).result
      (properties model textual fields done visited).visited := by
  induction bound generalizing visited fields done with
  | zero => omega
  | succ bound ihBound =>
      induction fields generalizing visited done with
      | nil =>
          rw [properties]
          exact .done done visited
      | cons field fields ihFields =>
          have hClasses : ∀ target, model.compileClass target visited =
              (classSchema model textual target visited).outcome := by
            intro target
            refine outcome_classSchema_of fun entity hMem hLess => ?_
            exact ihBound (by omega) (textual.comment entity hMem) []
          have hField := outcome_property_of (comments field (by simp)) hClasses
          obtain ⟨opened, slot, visited₁, schema, hOpened, hFinishes, hProperty⟩ :=
            Model.compileField_eq_ok_iff.mp hField
          have hName := name_of_openField model hOpened
          have hGrown := (property model textual field visited).grown
          have hBound :
              Walk.unmet (property model textual field visited).visited model < bound + 1 := by
            omega
          have hRest := ihFields hBound (fun other hMem => comments other (by simp [hMem]))
            (OrderedMap.put slot.name (slot.fill schema) done)
          rw [properties]
          dsimp only
          rw [hProperty, ← hName]
          cases hFinishes with
          | closed => exact .closed hOpened hRest
          | pending hInner => exact .nested hOpened hInner hRest

/-- On a model of texts every class has a schema. -/
theorem exists_compileClass (textual : model.Textual) (number : Nat) (visited : Visited) :
    ∃ schema visited', model.compileClass number visited = (.ok schema, visited') := by
  have hClass : model.compileClass number visited =
      (classSchema model textual number visited).outcome :=
    outcome_classSchema_of fun entity hMem _ =>
      compilesFields_properties _ (Nat.lt_succ_self _) (textual.comment entity hMem) []
  exact ⟨_, _, hClass⟩

end Agreement

/-- **The walk computes the recursion.**  On a model of texts, for every visited set, a class, a
field and a type have the schema and leave the visited set that the recursion gives. -/
theorem compile_eq_outcome (visited : Visited) :
    (∀ number, model.compileClass number visited =
      (classSchema model textual number visited).outcome) ∧
    (∀ field, field.docComment.IsTextual →
      model.compileField field visited = (property model textual field visited).outcome) ∧
    (∀ type, model.compileType type visited =
      (typeSchema model textual type visited).outcome) := by
  have hClasses : ∀ number, model.compileClass number visited =
      (classSchema model textual number visited).outcome := fun number =>
    outcome_classSchema_of fun entity hMem _ =>
      compilesFields_properties _ (Nat.lt_succ_self _) (textual.comment entity hMem) []
  exact ⟨hClasses, fun field comment => outcome_property_of comment hClasses,
    fun type => outcome_typeSchema_of hClasses⟩

/-- A class that refers to itself twice under one name. -/
def selfReferring : Model :=
  [{ simpleName := "Node"
     qualifiedName := .str "a.Node"
     isEnum := .bool false
     isInterface := .bool false
     enumConstants := []
     fields :=
       [⟨"next", .reference 0, .null, .bool false⟩,
        ⟨"next", .parameterized "java.util.List" [.reference 0], .null, .bool false⟩] }]

theorem selfReferring_textual : selfReferring.Textual where
  name := by simp [selfReferring, Json.IsTextual]
  comment := by simp [selfReferring, Json.IsTextual]

/-- The second field replaces the first one in its place, and both end at the key of the class. -/
theorem compile_selfReferring :
    selfReferring.Textual ∧ Json.IsTextual .null ∧
      selfReferring.compileClass 0 [] =
        (.ok (.object "Node" [("next", ⟨.array (.reference "a.Node"), none⟩)]),
          [.str "a.Node"]) ∧
      selfReferring.compileField ⟨"head", .array (.reference 0), .null, .bool false⟩
          [.str "a.Node"] =
        (.ok ⟨.array (.reference "a.Node"), none⟩, [.str "a.Node"]) := by
  refine ⟨selfReferring_textual, .inl rfl, ?_, ?_⟩
  · rw [(compile_eq_outcome selfReferring selfReferring_textual []).1 0]
    cbv
  · rw [(compile_eq_outcome selfReferring selfReferring_textual _).2.1 _ (.inl rfl)]
    cbv

end Recursive

end ClassSchema
