import ClassSchema.Proofs.Schema.Mentions
import Mathlib.Data.List.Induction

/-!
# The forms of a document

A node of a document has one of six forms, which the names of its members tell apart.
The items of a sequence are of the first four, and the values of a map are references or
bare kinds, so sequences of sequences and maps of maps end after one level.

A description stands behind the members of a property and nowhere else: not at the top, not
on items, not on the values of a map.  It is there if the field that gave the property has a
comment.  Of several fields with one name the first gives the place and the last the
property.

`IsNode` says all this of JSON values, and reads them along the types of the model, so that it
can say which class and which field a part of the document belongs to.

## Main results

* `IsNode.form_eq`: no node has two forms.
* `IsProperty.isDraft7`: what has these forms is a schema.
* `CompilesFields.produced`: the properties that fields come to have the forms of
  properties.
* `Model.isNode_of_compileClass`: the document of a class is a node.
* `Model.document_forms`: what a document looks like.
-/

namespace ClassSchema

/-! ## Forms -/

/-- The forms of the nodes of a document. -/
inductive Form where
  | reference
  | enumeration
  | object
  | bare
  | array
  | map
  deriving DecidableEq

namespace Form

/-- The names of the members of a node, in order. -/
def names : Form → List String
  | reference => ["$ref"]
  | enumeration => ["type", "title", "enum"]
  | object => ["type", "title", "properties"]
  | bare => ["type"]
  | array => ["type", "items"]
  | map => ["type", "additionalProperties"]

/-- The forms of the items of a sequence. -/
def items : List Form := [reference, enumeration, object, bare]

/-- The forms of the values of a map. -/
def values : List Form := [reference, bare]

/-- The kinds that a node can name. -/
def kinds : List String := ["integer", "boolean", "number", "string", "array", "object"]

end Form

/-- The last of some fields that has a name. -/
def lastNamed (fields : List Field) (name : String) : Option Field :=
  fields.reverse.find? (·.name = name)

mutual

/-- The members of a node that stands for a type. -/
inductive IsNode (model : Model) : Form → FieldType → List (String × Json) → Prop where
  /-- A class that has its body elsewhere, by its key. -/
  | reference {type : FieldType} {key : String} :
      model.keyAt (some type) = .str key →
      IsNode model .reference type [("$ref", .str ("#/definitions/" ++ key))]
  /-- The constants of an enum. -/
  | enumeration {type : FieldType} {entity : Entity} :
      model.classAt (some type) = some entity → entity.isEnum.truthy = true →
      IsNode model .enumeration type
        [("type", .str "string"), ("title", .str entity.simpleName),
         ("enum", .arr entity.enumConstants)]
  /-- The body of a class: each name of a field where it first stands. -/
  | object {type : FieldType} {entity : Entity} {properties : List (String × Json)} :
      model.classAt (some type) = some entity → entity.isEnum.truthy = false →
      OrderedMap.keys properties = (entity.fields.map (·.name)).eraseDups →
      AreProperties model entity.fields properties →
      IsNode model .object type
        [("type", .str "object"), ("title", .str entity.simpleName),
         ("properties", .obj properties)]
  /-- A value of which only the kind is known. -/
  | bare {type : FieldType} {kind : String} :
      kind ∈ Form.kinds → IsNode model .bare type [("type", .str kind)]
  /-- A sequence. -/
  | array {type element : FieldType} {form : Form} {items : List (String × Json)} :
      type.item? = some element → form ∈ Form.items → IsNode model form element items →
      IsNode model .array type [("type", .str "array"), ("items", .obj items)]
  /-- A map. -/
  | map {type value : FieldType} {form : Form} {values : List (String × Json)} :
      type.value? = some value → form ∈ Form.values → IsNode model form value values →
      IsNode model .map type [("type", .str "object"), ("additionalProperties", .obj values)]

/-- The members under the properties of a class, each given by the last field of its name. -/
inductive AreProperties (model : Model) : List Field → List (String × Json) → Prop where
  | nil {fields : List Field} : AreProperties model fields []
  | cons {fields : List Field} {field : Field} {name : String} {value : List (String × Json)}
      {rest : List (String × Json)} :
      lastNamed fields name = some field → IsProperty model field value →
      AreProperties model fields rest → AreProperties model fields ((name, .obj value) :: rest)

/-- The members of a property: those of the type of a field, and a description behind them if the
field has a comment. -/
inductive IsProperty (model : Model) : Field → List (String × Json) → Prop where
  | plain {field : Field} {form : Form} {members : List (String × Json)} :
      field.docComment = .null → IsNode model form field.type members →
      IsProperty model field members
  | described {field : Field} {form : Form} {members : List (String × Json)} {comment : String} :
      field.docComment = .str comment → IsNode model form field.type members →
      IsProperty model field (members ++ [("description", .str (Comment.clean comment))])

end

/-! ## One form for each node -/

/-- The form of a node is told by the names of its members. -/
theorem IsNode.keys_eq {model : Model} {form : Form} {type : FieldType}
    {members : List (String × Json)} (h : IsNode model form type members) :
    OrderedMap.keys members = form.names := by
  cases h <;> rfl

theorem Schema.keys_withDescription (members : List (String × Json))
    (description : Option String) :
    OrderedMap.keys (withDescription members description) =
      OrderedMap.keys members ++ if description.isSome then ["description"] else [] := by
  cases description <;> simp [withDescription, OrderedMap.keys]

/-- **No node has two forms**, with a description behind it or without. -/
theorem IsNode.form_eq {model : Model} {form form' : Form} {type type' : FieldType}
    {members members' : List (String × Json)} {description description' : Option String}
    (h : IsNode model form type members) (h' : IsNode model form' type' members')
    (same : Schema.withDescription members description =
      Schema.withDescription members' description') : form = form' := by
  have hKeys := congrArg OrderedMap.keys same
  rw [Schema.keys_withDescription, Schema.keys_withDescription, h.keys_eq, h'.keys_eq] at hKeys
  cases description <;> cases description' <;> cases form <;> cases form' <;>
    simp [Form.names] at hKeys ⊢

/-! ## Schemas of Draft 7 -/

/-- The words that the meta-schema allows as a type. -/
def Draft7.types : List String :=
  ["array", "boolean", "integer", "null", "number", "object", "string"]

mutual

/-- A value that the meta-schema of Draft 7 accepts, with its rules for the eight keywords that
documents use.  The format of a reference is an annotation there, and any string will do. -/
inductive IsDraft7 : Json → Prop where
  | object {members : List (String × Json)} :
      (OrderedMap.keys members).Nodup → AreKeywords members → IsDraft7 (.obj members)

/-- Members whose values suit their names. -/
inductive AreKeywords : List (String × Json) → Prop where
  | nil : AreKeywords []
  | cons {name : String} {value : Json} {rest : List (String × Json)} :
      IsKeyword name value → AreKeywords rest → AreKeywords ((name, value) :: rest)

/-- A value that suits a keyword. -/
inductive IsKeyword : String → Json → Prop where
  | reference (text : String) : IsKeyword "$ref" (.str text)
  | type {word : String} : word ∈ Draft7.types → IsKeyword "type" (.str word)
  | title (text : String) : IsKeyword "title" (.str text)
  | description (text : String) : IsKeyword "description" (.str text)
  | enum (constants : List Json) : IsKeyword "enum" (.arr constants)
  | items {schema : Json} : IsDraft7 schema → IsKeyword "items" schema
  | additionalProperties {schema : Json} : IsDraft7 schema →
      IsKeyword "additionalProperties" schema
  | properties {properties : List (String × Json)} :
      (OrderedMap.keys properties).Nodup → AreSchemas properties →
      IsKeyword "properties" (.obj properties)

/-- Schemas under names. -/
inductive AreSchemas : List (String × Json) → Prop where
  | nil : AreSchemas []
  | cons {name : String} {schema : Json} {rest : List (String × Json)} :
      IsDraft7 schema → AreSchemas rest → AreSchemas ((name, schema) :: rest)

end

theorem AreKeywords.concat {members : List (String × Json)} {name : String} {value : Json}
    (h : AreKeywords members) (keyword : IsKeyword name value) :
    AreKeywords (members ++ [(name, value)]) := by
  induction members with
  | nil => exact .cons keyword .nil
  | cons member rest ih =>
      cases h with
      | cons first others => exact .cons first (ih others)

theorem Form.nodup_names (form : Form) : form.names.Nodup := by
  cases form <;> decide

theorem Form.description_notMem_names (form : Form) : "description" ∉ form.names := by
  cases form <;> decide

theorem Form.mem_types_of_mem_kinds {kind : String} (h : kind ∈ kinds) : kind ∈ Draft7.types := by
  revert kind
  decide

/-- A name that comes again is left out. -/
theorem eraseDups_concat {α : Type} [DecidableEq α] (names : List α) (name : α) :
    (names ++ [name]).eraseDups =
      if name ∈ names then names.eraseDups else names.eraseDups ++ [name] := by
  by_cases hMem : name ∈ names <;>
    simp [List.eraseDups_append, List.removeAll, List.eraseDups_cons, hMem]

theorem nodup_eraseDups {α : Type} [DecidableEq α] (names : List α) : names.eraseDups.Nodup := by
  induction names using List.reverseRecOn with
  | nil => simp
  | append_singleton names name ih =>
      rw [eraseDups_concat]
      split
      · exact ih
      · next hNew =>
          rw [List.nodup_append]
          refine ⟨ih, by simp, ?_⟩
          intro other hOther same hSame hEq
          rw [List.mem_singleton] at hSame
          subst hSame hEq
          exact hNew (List.mem_eraseDups.mp hOther)

/-- **Nodes are made of keywords**, and so are properties. -/
theorem IsProperty.isDraft7 {model : Model} {field : Field} {members : List (String × Json)}
    (h : IsProperty model field members) : IsDraft7 (.obj members) := by
  induction h using IsProperty.rec
    (motive_1 := fun _ _ members _ => AreKeywords members)
    (motive_2 := fun _ members _ => AreSchemas members) with
  | reference => exact .cons (.reference _) .nil
  | enumeration => exact .cons (.type (by decide)) (.cons (.title _) (.cons (.enum _) .nil))
  | object _ _ names _ ih =>
      exact .cons (.type (by decide)) (.cons (.title _)
        (.cons (.properties (names ▸ nodup_eraseDups _) ih) .nil))
  | bare mem => exact .cons (.type (Form.mem_types_of_mem_kinds mem)) .nil
  | @array _ _ form _ _ _ items ih =>
      exact .cons (.type (by decide))
        (.cons (.items (.object (items.keys_eq ▸ form.nodup_names) ih)) .nil)
  | @map _ _ form _ _ _ values ih =>
      exact .cons (.type (by decide))
        (.cons (.additionalProperties (.object (values.keys_eq ▸ form.nodup_names) ih)) .nil)
  | nil => exact .nil
  | cons _ _ _ ihProperty ihRest => exact .cons ihProperty ihRest
  | @plain _ form _ _ node ih => exact .object (node.keys_eq ▸ form.nodup_names) ih
  | @described _ form members comment _ node ih =>
      have hKeys : OrderedMap.keys
          (members ++ [("description", .str (Comment.clean comment))]) =
            form.names ++ ["description"] := by
        rw [← node.keys_eq]
        simp [OrderedMap.keys]
      refine .object ?_ (ih.concat (.description _))
      rw [hKeys, List.nodup_append]
      refine ⟨form.nodup_names, by simp, ?_⟩
      intro name hName other hOther hEq
      rw [List.mem_singleton] at hOther
      exact form.description_notMem_names (hOther ▸ hEq ▸ hName)

/-- A node by itself is that of a property without a comment. -/
theorem IsNode.isDraft7 {model : Model} {form : Form} {type : FieldType}
    {members : List (String × Json)} (h : IsNode model form type members) :
    IsDraft7 (.obj members) :=
  @IsProperty.isDraft7 model ⟨"", type, .null, .null⟩ members (.plain rfl h)

/-! ## Properties -/

/-- The last field of a name is the one that is put last. -/
theorem lastNamed_concat (fields : List Field) (field : Field) (name : String) :
    lastNamed (fields ++ [field]) name =
      if field.name = name then some field else lastNamed fields name := by
  by_cases hName : field.name = name <;> simp [lastNamed, hName]

/-- The properties that some fields of a class have come to. -/
structure Produced (model : Model) (fields : List Field) (properties : List (String × Property)) :
    Prop where
  /-- Each name stands where it first came. -/
  names : OrderedMap.keys properties = (fields.map (·.name)).eraseDups
  /-- Each property is that of the last field of its name. -/
  properties : ∀ name property, (name, property) ∈ properties →
    ∃ field, lastNamed fields name = some field ∧ IsProperty model field property.members

namespace Produced

variable {model : Model} {fields : List Field} {properties : List (String × Property)}

theorem nil : Produced model [] [] := ⟨rfl, by simp⟩

/-- One more field writes its property. -/
theorem put (h : Produced model fields properties) {field : Field} {property : Property}
    (isProperty : IsProperty model field property.members) :
    Produced model (fields ++ [field]) (OrderedMap.put field.name property properties) where
  names := by
    rw [OrderedMap.keys_put, h.names, List.map_append, List.map_singleton, eraseDups_concat]
    simp only [List.mem_eraseDups]
  properties := by
    intro name other hMem
    have hNodup : (OrderedMap.keys properties).Nodup := h.names ▸ nodup_eraseDups _
    rw [lastNamed_concat]
    rcases OrderedMap.mem_put hNodup hMem with ⟨hName, rfl⟩ | ⟨hName, hOld⟩
    · exact ⟨field, if_pos hName, isProperty⟩
    · rw [if_neg hName]
      exact h.properties name other hOld

theorem keys_propertyMembers (properties : List (String × Property)) :
    OrderedMap.keys (Schema.propertyMembers properties) = OrderedMap.keys properties := by
  induction properties with
  | nil => rfl
  | cons pair rest ih =>
      obtain ⟨name, content, description⟩ := pair
      rw [Schema.propertyMembers]
      exact congrArg (name :: ·) ih

theorem areProperties (h : Produced model fields properties) :
    AreProperties model fields (Schema.propertyMembers properties) := by
  obtain ⟨-, hEach⟩ := h
  induction properties with
  | nil => exact .nil
  | cons pair rest ih =>
      obtain ⟨name, content, description⟩ := pair
      obtain ⟨field, hLast, isProperty⟩ := hEach name ⟨content, description⟩ (by simp)
      rw [Schema.propertyMembers]
      exact .cons hLast isProperty (ih fun name property hMem => hEach name property (by simp [hMem]))

/-- The body of a class whose fields are compiled. -/
theorem isNode {type : FieldType} {entity : Entity}
    (h : Produced model entity.fields properties)
    (hClass : model.classAt (some type) = some entity) (hEnum : entity.isEnum.truthy = false) :
    IsNode model .object type (Schema.object entity.simpleName properties).members := by
  rw [Schema.members]
  exact .object hClass hEnum ((keys_propertyMembers properties).trans h.names) h.areProperties

end Produced

/-! ## Classes, types and fields -/

section Meeting

variable {model : Model} {visited visited' : Visited} {opened : Opened}

/-- What a type gives where it is met as an item: a node of one of the forms for items, or a class
whose body comes next. -/
inductive GivesItem (model : Model) (type : FieldType) : Opened → Prop where
  | closed {schema : Schema} {form : Form} :
      form ∈ Form.items → IsNode model form type schema.members →
      GivesItem model type (.closed schema)
  | pending {entity : Entity} :
      model.classAt (some type) = some entity → entity.isEnum.truthy = false →
      GivesItem model type (.pending entity.simpleName entity.fields)

theorem Kind.word_mem_kinds (kind : Kind) : kind.word ∈ Form.kinds := by
  cases kind <;> decide

theorem Kind.isNode (kind : Kind) (type : FieldType) :
    IsNode model .bare type (Schema.bare kind).members := by
  rw [Schema.members]
  exact .bare kind.word_mem_kinds

/-- A reference to the class that a type stands for. -/
theorem isNode_reference {number : Nat} {entity : Entity} {key : String}
    (found : model[number]? = some entity) (hKey : entity.key = .str key) :
    IsNode model .reference (.reference number) (Schema.reference key).members := by
  rw [Schema.members]
  exact .reference (by simp [Model.keyAt, Model.classAt, found, hKey])

theorem GivesItem.of_openClass {number : Nat}
    (h : model.openClass number visited = (.ok opened, visited')) :
    GivesItem model (.reference number) opened := by
  cases Model.openClass_eq_ok_iff.mp h with
  | missing => exact @GivesItem.closed _ _ _ .bare (by decide) (Kind.object.isNode _)
  | known found hKey _ =>
      exact @GivesItem.closed _ _ _ .reference (by decide) (isNode_reference found hKey)
  | constants found _ _ isEnum =>
      exact @GivesItem.closed _ _ _ .enumeration (by decide) (.enumeration found isEnum)
  | fields found _ _ notEnum => exact .pending found notEnum

theorem GivesItem.of_openType {type : FieldType}
    (h : model.openType type visited = (.ok opened, visited')) :
    GivesItem model type opened := by
  rcases Model.openType_cases h with ⟨target, ⟨_, _⟩, hClass⟩ | ⟨_, ⟨kind, _, rfl⟩, _⟩
  · exact .of_openClass hClass
  · exact @GivesItem.closed _ _ _ .bare (by decide) (kind.isNode type)

/-- The values of a map are a reference to a class or a bare kind. -/
theorem Model.isNode_of_valueSchema {type : FieldType} {schema : Schema}
    (h : model.valueSchema type = .ok schema) :
    ∃ form ∈ Form.values, IsNode model form type schema.members := by
  rcases Model.valueSchema_cases h with ⟨_, _, _, ⟨_, _⟩, found, hKey, rfl⟩ | ⟨kind, _, rfl⟩
  · exact ⟨.reference, by decide, isNode_reference found hKey⟩
  · exact ⟨.bare, by decide, kind.isNode type⟩

/-- A type whose schema is fixed is a map or a bare kind. -/
theorem Model.isNode_of_shape {type : FieldType} {schema : Schema}
    (h : model.shape type = .ok (.fixed schema)) :
    ∃ form, IsNode model form type schema.members := by
  cases Model.unwraps_of_shape h with
  | @map _ _ value _ _ _ _ hValues =>
      obtain ⟨form, hForm, hNode⟩ := Model.isNode_of_valueSchema hValues
      rw [Schema.members]
      exact ⟨.map, @IsNode.map _ _ value _ _ rfl hForm hNode⟩
  | @whole _ kind => exact ⟨.bare, kind.isNode type⟩

/-- A node with the description of a field, if it has one, is that of a property. -/
theorem IsNode.isProperty {field : Field} {form : Form} {schema : Schema}
    {description : Option String} (h : IsNode model form field.type schema.members)
    (described : descriptionOf field.docComment = .ok description) :
    IsProperty model field (Property.members ⟨schema, description⟩) := by
  unfold descriptionOf at described
  split at described
  · next hNull =>
      cases described
      exact .plain hNull h
  · next comment hComment =>
      cases described
      exact .described hComment h
  · cases described

/-- What a field gives where it is met: its property, or a class whose body makes its property. -/
inductive GivesProperty (model : Model) (field : Field) (slot : Slot) : Opened → Prop where
  | closed {schema : Schema} :
      IsProperty model field (slot.fill schema).members →
      GivesProperty model field slot (.closed schema)
  | pending {entity : Entity} :
      (∀ properties, Produced model entity.fields properties →
        IsProperty model field (slot.fill (.object entity.simpleName properties)).members) →
      GivesProperty model field slot (.pending entity.simpleName entity.fields)

/-- An item of a field is put in its place. -/
theorem GivesItem.givesProperty {field : Field} {slot : Slot} {type : FieldType}
    (h : GivesItem model type opened)
    (placed : ∀ (schema : Schema) (form : Form), form ∈ Form.items →
      IsNode model form type schema.members → IsProperty model field (slot.fill schema).members) :
    GivesProperty model field slot opened := by
  cases h with
  | closed hForm hNode => exact .closed (placed _ _ hForm hNode)
  | pending hClass hEnum =>
      refine .pending fun properties hProduced => ?_
      exact placed _ .object (by decide) (hProduced.isNode hClass hEnum)

theorem GivesProperty.of_openField {field : Field} {slot : Slot}
    (h : model.openField field visited = (.ok (opened, slot), visited')) :
    GivesProperty model field slot opened := by
  obtain ⟨shape, listed, description, hShape, opensAs, hDescription, rfl⟩ :=
    Model.exists_opensAs h
  cases opensAs with
  | fixed schema =>
      obtain ⟨form, hNode⟩ := Model.isNode_of_shape hShape
      exact .closed (hNode.isProperty hDescription)
  | @expand target _ _ hClass =>
      have hType := Model.reference_of_shape hShape
      refine (GivesItem.of_openClass hClass).givesProperty fun schema form _ hNode => ?_
      exact (hType ▸ hNode).isProperty hDescription
  | @listOf element _ _ hType =>
      refine (GivesItem.of_openType hType).givesProperty fun schema form hForm hNode => ?_
      have hArray : IsNode model .array field.type (Schema.array schema).members := by
        rw [Schema.members]
        exact .array (Model.item_of_shape hShape) hForm hNode
      exact hArray.isProperty hDescription

end Meeting

/-! ## Documents -/

/-- **Fields come to properties.**  The induction is over what is compiled; a class that is met is
begun with no fields behind it and no properties. -/
theorem CompilesFields.produced {model : Model} {fields : List Field}
    {properties properties' : List (String × Property)} {visited visited' : Visited}
    (h : CompilesFields model fields properties visited properties' visited')
    {done : List Field} (before : Produced model done properties) :
    Produced model (done ++ fields) properties' := by
  induction h generalizing done with
  | done => simpa using before
  | @closed field fields _ _ _ _ _ _ _ opened _ ih =>
      have hName := Recursive.name_of_openField model opened
      rcases GivesProperty.of_openField opened with ⟨isProperty⟩ | _
      have hAfter := ih (hName ▸ before.put isProperty)
      rwa [List.append_assoc] at hAfter
  | @nested field fields inner _ _ _ _ _ _ _ _ _ opened _ _ ihInner ih =>
      have hName := Recursive.name_of_openField model opened
      rcases GivesProperty.of_openField opened with _ | ⟨isProperty⟩
      have hInner := ihInner Produced.nil
      have hAfter := ih (hName ▸ before.put (isProperty _ hInner))
      rwa [List.append_assoc] at hAfter

/-- **The document of a class is a node** of one of the forms for items. -/
theorem Model.isNode_of_compileClass {model : Model} {number : Nat} {visited visited' : Visited}
    {schema : Schema} (h : model.compileClass number visited = (.ok schema, visited')) :
    ∃ form ∈ Form.items, IsNode model form (.reference number) schema.members := by
  obtain ⟨opened, visited₁, hOpened, hFinishes⟩ := Model.compileClass_eq_ok_iff.mp h
  cases GivesItem.of_openClass hOpened with
  | closed hForm hNode =>
      cases hFinishes
      exact ⟨_, hForm, hNode⟩
  | pending hClass hEnum =>
      cases hFinishes with
      | pending fields =>
          have hProduced := fields.produced Produced.nil
          exact ⟨.object, by decide, Produced.isNode hProduced hClass hEnum⟩

/-- **What a document looks like.**  On a model of texts every class has a document, whatever was
visited before.  The document of a class is a node of one of the first four forms; so are the items
in it, and each value of a map is a reference or a bare kind; its properties are those of the fields
of the class that the node belongs to, and only they have descriptions, exactly where a field has a
comment.  No node has two forms, and the document is a schema. -/
theorem Model.document_forms {model : Model} (number : Nat) (visited : Visited) :
    (model.Textual →
      ∃ schema visited', model.compileClass number visited = (.ok schema, visited')) ∧
    (∀ schema visited', model.compileClass number visited = (.ok schema, visited') →
      ∃ members form, schema.toJson = .obj members ∧ form ∈ Form.items ∧
        IsNode model form (.reference number) members ∧ IsDraft7 schema.toJson) ∧
    (∀ form form' type type' members members' description description',
      IsNode model form type members → IsNode model form' type' members' →
        Schema.withDescription members description =
          Schema.withDescription members' description' → form = form') := by
  refine ⟨fun textual => Recursive.exists_compileClass textual number visited, ?_,
    fun _ _ _ _ _ _ _ _ hNode hOther same => hNode.form_eq hOther same⟩
  intro schema visited' h
  obtain ⟨form, hForm, hNode⟩ := Model.isNode_of_compileClass h
  exact ⟨schema.members, form, rfl, hForm, hNode, hNode.isDraft7⟩

/-- A book with a title that is declared twice, a genre, authors, and pages in rows.  It knows the
next book, and its authors by name. -/
def library : Model :=
  [⟨"Book", .str "l.Book", .bool false, .bool false, [],
    [⟨"title", .scalar "int", .null, .bool false⟩,
     ⟨"genre", .reference 1, .str "/** Its genre. */", .bool false⟩,
     ⟨"authors", .parameterized "java.util.List" [.reference 2], .str "/***/", .bool false⟩,
     ⟨"next", .reference 0, .null, .bool false⟩,
     ⟨"byName", .parameterized "java.util.Map" [.scalar "java.lang.String", .reference 2], .null,
       .bool false⟩,
     ⟨"rows", .array (.array (.reference 2)), .null, .bool false⟩,
     ⟨"title", .scalar "java.lang.String", .str "/** On the\n * cover */", .bool false⟩]⟩,
   ⟨"Genre", .null, .bool true, .bool false, [.str "POEM", .int 7], []⟩,
   ⟨"Author", .str "l.Author", .bool false, .bool false, [], []⟩]

/-- The document of a book. -/
def librarySchema : Schema :=
  .object "Book"
    [("title", ⟨.bare .string, some "On the cover"⟩),
     ("genre", ⟨.enumeration "Genre" [.str "POEM", .int 7], some "Its genre."⟩),
     ("authors", ⟨.array (.object "Author" []), some ""⟩),
     ("next", ⟨.reference "l.Book", none⟩),
     ("byName", ⟨.map (.reference "l.Author"), none⟩),
     ("rows", ⟨.array (.bare .array), none⟩)]

theorem library_textual : library.Textual where
  name := by simp [library, Json.IsTextual]
  comment := by simp [library, Json.IsTextual]

theorem compile_library :
    library.compileClass 0 [] =
      (.ok librarySchema, [.str "l.Author", .str "Genre", .str "l.Book"]) := by
  have genre : Comment.clean "/** Its genre. */" = "Its genre." := by cbv
  have authors : Comment.clean "/***/" = "" := by cbv
  have title : Comment.clean "/** On the\n * cover */" = "On the cover" := by cbv
  refine Model.compileClass_eq_ok_iff.mpr ⟨_, _, rfl, ?_⟩
  rw [librarySchema, ← genre, ← authors, ← title]
  exact .pending (.closed rfl (.closed rfl (.nested rfl (.done _ _) (.closed rfl (.closed rfl
    (.closed rfl (.closed rfl (.done _ _))))))))

/-- All forms occur in the document of a book.  The second declaration of the title gives the
property, in the place of the first one. -/
theorem document_of_library :
    library.Textual ∧
      library.compileClass 0 [] =
        (.ok librarySchema, [.str "l.Author", .str "Genre", .str "l.Book"]) ∧
      IsNode library .object (.reference 0) librarySchema.members ∧
      (∀ form, IsNode library form (.reference 0) librarySchema.members → form = .object) ∧
      IsDraft7 librarySchema.toJson := by
  have forms := @Model.document_forms library 0 []
  obtain ⟨members, form, hJson, -, hNode, isDraft7⟩ := forms.2.1 _ _ compile_library
  cases hJson
  have hForm : form = .object := by
    have hNames := hNode.keys_eq
    revert hNames
    cases form <;> decide
  subst hForm
  refine ⟨library_textual, compile_library, hNode, fun other hOther => ?_, isDraft7⟩
  exact forms.2.2 _ _ _ _ _ _ none none hOther hNode rfl

end ClassSchema
