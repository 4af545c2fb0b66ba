import ClassSchema.Command.Words
import ClassSchema.Publish.Documents

/-!
# Invocations

What a command line asks for.  The options of the program come first, then the
name of a command, then its options and operands.  Help is given as soon as it
is asked for.  All else that is wrong makes the whole command line a misuse,
even if it is not the first thing that is wrong.

One command takes several operands, which have to be neighbours.  The other one
takes one operand or none.
-/

namespace ClassSchema.Command

/-- What can be done. -/
inductive Task where
  /-- Converts Java sources. -/
  | sources
  /-- Converts a model. -/
  | model
  deriving DecidableEq, Repr

namespace Task

/-- The name of a command. -/
def name : Task → String
  | sources => "j2jsons"
  | model => "m2jsons"

/-- What a command does. -/
def description : Task → String
  | sources => "Convert Java classes to JSON schema"
  | model => "Convert a JSON type model to JSON schema"

/-- The command of a name. -/
def ofName? (name : String) : Option Task := [sources, model].find? (·.name == name)

/-- The options of a command. -/
def switches : Task → List Switch
  | sources =>
      [.flag .help, .setting .out, .setting .className, .flag .skipStatic]
  | model => [.flag .help, .setting .out, .setting .className]

end Task

/-- The options in front of the command. -/
def mainSwitches : List Switch := [.flag .help, .flag .version]

/-- What a command line asks for. -/
inductive Invocation where
  /-- It is not understood. -/
  | misuse
  /-- It asks for help on the program or on a command. -/
  | help (topic : Option Task)
  /-- It asks for the version. -/
  | version
  /-- It asks for the conversion of Java sources. -/
  | convertSources (paths : List String) (includeStatic : Bool) (request : Request)
  /-- It asks for the conversion of a model; without a path, the one on the standard input. -/
  | convertModel (path : Option String) (request : Request)
  deriving DecidableEq, Repr

/-! ## The words of a command -/

/-- How far the operands have been taken. -/
inductive Progress where
  /-- There were none so far. -/
  | waiting
  /-- The last word was one of them. -/
  | taking
  /-- No more can be taken. -/
  | complete
  deriving DecidableEq, Repr

/-- What the words so far say. -/
structure Gathered where
  /-- The operands. -/
  operands : List String
  /-- How far the operands have been taken. -/
  progress : Progress
  /-- The directory for the documents. -/
  out : Option String
  /-- The class that is asked for. -/
  className : Option String
  /-- Whether static fields are left out. -/
  skipStatic : Bool
  /-- Whether there was a word too many. -/
  surplus : Bool
  deriving DecidableEq, Repr

namespace Gathered

/-- What no words say. -/
def nothing : Gathered := ⟨[], .waiting, none, none, false, false⟩

/-- A word too many. -/
def refuse (gathered : Gathered) : Gathered := { gathered with surplus := true }

/-- Ends a row of operands. -/
def interrupt (gathered : Gathered) : Gathered :=
  match gathered.progress with
  | .taking => { gathered with progress := .complete }
  | _ => gathered

/-- Takes an operand. -/
def operand (task : Task) (word : String) (gathered : Gathered) : Gathered :=
  match gathered.progress with
  | .complete => gathered.refuse
  | _ =>
      match task, gathered.operands with
      | .model, _ :: _ => gathered.refuse
      | _, operands => { gathered with operands := operands ++ [word], progress := .taking }

/-- Takes the end of the options, which counts as a neighbour of operands. -/
def separator (gathered : Gathered) : Gathered :=
  match gathered.progress with
  | .complete => gathered.refuse
  | _ => { gathered with progress := .taking }

/-- Sets an option that has a value. -/
def set (setting : Setting) (value : String) (gathered : Gathered) : Gathered :=
  match setting with
  | .out => { gathered.interrupt with out := some value }
  | .className => { gathered.interrupt with className := some value }

/-- The request that was gathered. -/
def request (gathered : Gathered) : Request :=
  ⟨.ofPath? gathered.out, gathered.className⟩

/-- The conversion that was gathered; one of sources has to name some. -/
def invocation (task : Task) (gathered : Gathered) : Invocation :=
  if gathered.surplus then .misuse
  else
    match task, gathered.operands with
    | .sources, [] => .misuse
    | .sources, paths => .convertSources paths (!gathered.skipStatic) gathered.request
    | .model, operands => .convertModel operands.head? gathered.request

end Gathered

/-- Goes through the words of a command. -/
def gather (task : Task) (gathered : Gathered) : List Word → Invocation
  | [] => gathered.invocation task
  | (_, .flag .help) :: _ => .help (some task)
  | (_, .flag .skipStatic) :: rest =>
      gather task { gathered.interrupt with skipStatic := true } rest
  | (_, .setting setting (some value)) :: rest => gather task (gathered.set setting value) rest
  | (_, .setting setting none) :: (value, .operand) :: rest =>
      gather task (gathered.set setting value) rest
  | (word, .operand) :: rest => gather task (gathered.operand task word) rest
  | (_, .separator) :: rest => gather task gathered.separator rest
  | (_, .unknown) :: rest => gather task gathered.interrupt.refuse rest
  | _ :: _ => .misuse

/-- What the words behind the name of a command ask for. -/
def parseTask (task : Task) (words : List String) : Invocation :=
  let words := roles task.switches words
  if words.any (·.2 = .ambiguous) then .misuse else gather task .nothing words

/-! ## The whole line -/

/-- What the words in front of the command make of what it asks for. -/
def settle (version surplus : Bool) : Invocation → Invocation
  | .misuse => .misuse
  | .help topic => .help topic
  | conversion => if surplus then .misuse else if version then .version else conversion

/-- Goes through the words in front of the command; `version` and `surplus` tell whether the
version was asked for and whether there was a word too many. -/
def parseFrom (version surplus : Bool) : List Word → Invocation
  | [] => if surplus then .misuse else if version then .version else .help none
  | (_, .flag .help) :: _ => .help none
  | (_, .flag .version) :: rest => parseFrom true surplus rest
  | (_, .unknown) :: rest => parseFrom version true rest
  | (name, .operand) :: rest =>
      match Task.ofName? name with
      | some task => settle version surplus (parseTask task (rest.map (·.1)))
      | none => .misuse
  | _ :: _ => .misuse

/-- What a command line asks for. -/
def parse (words : List String) : Invocation :=
  let words := roles mainSwitches words
  if words.any (·.2 = .ambiguous) then .misuse else parseFrom false false words

end ClassSchema.Command
