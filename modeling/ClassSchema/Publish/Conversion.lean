import ClassSchema.Java.Resolution
import ClassSchema.Publish.Documents

/-!
# Conversions

There are two kinds of input: a document that describes a model, and Java
sources from which a model is built.  All sources are read before anything is
published, in the order in which they are given.
-/

namespace ClassSchema

namespace Publish

/-- Publishes the model that a document describes. -/
def convertDocument (request : Request) (bytes : List Nat) : Session (List Published) := do
  let model ← Session.orFail .load (Model.ofBytes bytes)
  publish model (List.range model.length) request

/-- Publishes the model in a file. -/
def convertModel (path : String) (request : Request) : Session (List Published) := do
  convertDocument request (← Session.readFile path)

/-- The declarations in a file; an empty file has none to speak of. -/
def readSource (path : String) : Session (Option Java.SourceFile) := do
  let bytes ← Session.readFile path
  Session.orFail .source (Java.parseBytes .utf8 bytes)

/-- The declarations in each of several files, less those that are empty. -/
def readSources : List String → Session (List Java.SourceFile)
  | [] => return []
  | path :: rest => do
      let source ← readSource path
      let others ← readSources rest
      return source.toList ++ others

/-- Publishes the model of several sources, with or without their static fields. -/
def convertSources (paths : List String) (includeStatic : Bool) (request : Request) :
    Session (List Published) := do
  let sources ← readSources paths
  let registry := Java.buildModel sources includeStatic
  publish registry.model registry.entries request

end Publish

end ClassSchema
