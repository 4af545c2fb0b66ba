import ClassSchema.Publish.Workspace

/-!
# Publishing schemas

Each selected entry is compiled on its own, so that its document is complete.
A document goes to a file in a directory, or is printed.  The file is named
after the simple name of the class; if that is taken, after its key.  An entry
whose schema says no more than that there is an object gets no document, only a
remark.

## Main results

* `documentName_eq_ok_iff`, `documentName_eq_error_iff`: a document is named after its
  class, or has no name.
-/

namespace ClassSchema

/-- Where documents go. -/
inductive Destination where
  /-- They are printed. -/
  | console
  /-- Each one is written to a file in a directory. -/
  | directory (path : String)
  deriving DecidableEq, Repr

/-- The destination for an optional directory; an empty one is none. -/
def Destination.ofPath? : Option String → Destination
  | none => console
  | some path => if path = "" then console else directory path

/-- What to publish, and where. -/
structure Request where
  /-- Where documents go. -/
  destination : Destination
  /-- The simple or qualified name of the entry that is asked for; all of them without one. -/
  className : Option String
  deriving DecidableEq, Repr

/-- A schema together with the key of its class. -/
structure Published where
  /-- The key of the class. -/
  key : Json
  /-- The schema of the class. -/
  schema : Schema
  deriving Repr

namespace Publish

/-- The name of the document of an entry among those that are taken. -/
def documentName (taken : List String) (entity : Entity) : Except Json String :=
  if entity.simpleName ∈ taken then
    match entity.key with
    | .str key => .ok key
    | key => .error key
  else .ok entity.simpleName

/-- A document is named after its class, by the simple name or, where that is taken, by the key. -/
theorem documentName_eq_ok_iff {taken : List String} {entity : Entity} {name : String} :
    documentName taken entity = .ok name ↔
      (name = entity.simpleName ∧ entity.simpleName ∉ taken) ∨
        (entity.key = .str name ∧ entity.simpleName ∈ taken) := by
  unfold documentName
  split
  · next hTaken =>
      split
      · next key hKey => simp [hKey, hTaken]
      · next noText => simpa [hTaken] using noText name
  · next hFree => simp [hFree, eq_comm]

/-- A document has no name where that would be a key that is no text. -/
theorem documentName_eq_error_iff {taken : List String} {entity : Entity} {key : Json} :
    documentName taken entity = .error key ↔
      key = entity.key ∧ (∀ text, entity.key ≠ .str text) ∧ entity.simpleName ∈ taken := by
  unfold documentName
  split
  · next hTaken =>
      split
      · next text hKey => simp [hKey]
      · next noText => simpa [hTaken, eq_comm] using fun _ => noText
  · next hFree => simp [hFree]

/-- The file of a document in a directory. -/
def documentPath (directory name : String) : String := Path.join directory (name ++ ".json")

/-- The remark on an entry without a document. -/
def emptyRemark (entity : Entity) : String :=
  "No schema defined for class: " ++ entity.simpleName

/-- Delivers the document of an entry; the answer is the names that are taken then. -/
def deliver (destination : Destination) (taken : List String) (entity : Entity)
    (schema : Schema) : Session (List String) :=
  if Schema.definesContent schema.members then
    match destination with
    | .console => do
        Session.printLine schema.toJson.pretty
        return taken
    | .directory path => do
        let name ← Session.orFail .documentName (documentName taken entity)
        Session.writeFile (documentPath path name) schema.toJson.pretty
        Session.printLine ("Schema saved to: " ++ documentPath path name)
        return name :: taken
  else do
    Session.printLine (emptyRemark entity)
    return taken

/-- Publishes entries one after the other. -/
def publishAll (model : Model) (destination : Destination) (taken : List String) :
    List Nat → Session (List Published)
  | [] => return []
  | number :: rest =>
      match model[number]? with
      | none => publishAll model destination taken rest
      | some entity => do
          let schema ← Session.orFail .compile (model.compileClass number []).1
          let taken ← deliver destination taken entity schema
          let others ← publishAll model destination taken rest
          return ⟨entity.key, schema⟩ :: others

/-- Makes the directory for the documents if there is to be one. -/
def prepare : Destination → Session Unit
  | .console => return ()
  | .directory path => Session.prepareDirectory path

/-- Publishes the entries of a model that are asked for. -/
def publish (model : Model) (entries : List Nat) (request : Request) :
    Session (List Published) := do
  prepare request.destination
  let selected ← Session.orFail .notFound (model.select entries request.className)
  publishAll model request.destination [] selected

end Publish

end ClassSchema
