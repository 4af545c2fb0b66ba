import ClassSchema.Text.Word

/-!
# Words of a command line

A command line is a list of words.  A word that begins with a dash names an
option, in full or by any beginning that fits one option only; a value can be
attached to it behind an equals sign.  Other words are operands, and so are a
dash alone, negative numbers, and words with a blank that name no option.  Two
dashes end the options: all words behind them are operands.

## Main results

* `length_roles`: each word has one role.
* `roles_after_separator`: behind two dashes there are only operands.
-/

namespace ClassSchema.Command

/-- The options that stand alone. -/
inductive Flag where
  /-- Asks for help. -/
  | help
  /-- Asks for the version. -/
  | version
  /-- Leaves static fields out. -/
  | skipStatic
  deriving DecidableEq, Repr

/-- The options that have a value. -/
inductive Setting where
  /-- The directory for the documents. -/
  | out
  /-- The class that is asked for. -/
  | className
  deriving DecidableEq, Repr

/-- An option. -/
inductive Switch where
  /-- One that stands alone. -/
  | flag (flag : Flag)
  /-- One that has a value. -/
  | setting (setting : Setting)
  deriving DecidableEq, Repr

/-- The name of an option in full. -/
def Switch.name : Switch → String
  | flag .help => "--help"
  | flag .version => "--version"
  | flag .skipStatic => "--skip-static"
  | setting .out => "--out"
  | setting .className => "--class"

/-- What a word stands for. -/
inductive Role where
  /-- Something to work on, or the value of an option. -/
  | operand
  /-- The end of the options. -/
  | separator
  /-- An option that stands alone. -/
  | flag (flag : Flag)
  /-- An option that has a value, with the one that is attached. -/
  | setting (setting : Setting) (attached : Option String)
  /-- An option that is used in a wrong way. -/
  | misused
  /-- The beginning of several options. -/
  | ambiguous
  /-- An option that nobody knows. -/
  | unknown
  deriving DecidableEq, Repr

namespace Role

/-- Cuts a word at its first equals sign. -/
def cutValue (word : List Char) : List Char × Option String :=
  match word.dropWhile (· ≠ '=') with
  | [] => (word, none)
  | _ :: value => (word.takeWhile (· ≠ '='), some (String.ofList value))

/-- The options that a name fits: the one with exactly this name, or those that begin with it. -/
def matching (known : List Switch) (name : List Char) : List Switch :=
  match known.find? (·.name.toList == name) with
  | some switch => [switch]
  | none => known.filter fun switch => name.isPrefixOf switch.name.toList

/-- An option together with what is attached to it. -/
def ofSwitch : Switch → Option String → Role
  | .flag alone, none => .flag alone
  | .flag _, some _ => .misused
  | .setting kind, attached => .setting kind attached

/-- Whether a word is a dash and a decimal number; a line feed may follow. -/
def isNegativeNumber (word : List Char) : Bool :=
  match word with
  | '-' :: number =>
      let number := if number.getLast? = some '\n' then number.dropLast else number
      let fraction := number.dropWhile Text.isDigit
      match fraction with
      | [] => !number.isEmpty
      | '.' :: digits => !digits.isEmpty && digits.all Text.isDigit
      | _ => false
  | _ => false

/-- A word with a dash that names no option. -/
def ofUnmatched (word : List Char) : Role :=
  if isNegativeNumber word || word.contains ' ' then .operand else .unknown

/-- The letters behind the short name of the help option; it may be repeated, and what follows
may begin neither with an equals sign nor with a dash. -/
def ofHelpLetters : List Char → Role
  | [] => .flag .help
  | 'h' :: rest => ofHelpLetters rest
  | c :: _ => if c = '=' ∨ c = '-' then .misused else .flag .help

/-- The role of a word in front of the end of the options. -/
def ofWord (known : List Switch) (word : List Char) : Role :=
  match word with
  | '-' :: '-' :: [] => .separator
  | '-' :: '-' :: _ =>
      let (name, attached) := cutValue word
      match matching known name with
      | [] => ofUnmatched word
      | [switch] => ofSwitch switch attached
      | _ => .ambiguous
  | '-' :: 'h' :: letters => ofHelpLetters letters
  | '-' :: _ :: _ => ofUnmatched word
  | _ => .operand

end Role

/-- A word with its role. -/
abbrev Word := String × Role

/-- The words of a command line with their roles, given the options that are known. -/
def roles (known : List Switch) : List String → List Word
  | [] => []
  | word :: rest =>
      match Role.ofWord known word.toList with
      | .separator => (word, .separator) :: rest.map fun word => (word, .operand)
      | role => (word, role) :: roles known rest

/-- Each word has one role. -/
theorem length_roles (known : List Switch) (words : List String) :
    (roles known words).length = words.length := by
  induction words with
  | nil => rfl
  | cons word rest ih =>
      unfold roles
      split <;> simp [ih]

/-- Behind two dashes there are only operands. -/
theorem roles_after_separator (known : List Switch) (rest : List String) :
    roles known ("--" :: rest) = ("--", .separator) :: rest.map fun word => (word, .operand) := rfl

end ClassSchema.Command
