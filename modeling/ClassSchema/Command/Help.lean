import ClassSchema.Command.Invocation

/-!
# Help

The program explains itself in 80 columns: how it is used, and what each operand
and option means.
-/

namespace ClassSchema.Command

/-- The name of the program. -/
def programName : String := "classtojsons"

/-- The version of the program. -/
def programVersion : String := "0.1.0"

/-- Help on the program. -/
def mainHelp : List String :=
  ["usage: classtojsons [-h] [--version] \x7bj2jsons,m2jsons\x7d ...",
   "",
   "Convert class declarations to JSON schema.",
   "",
   "positional arguments:",
   "  \x7bj2jsons,m2jsons\x7d",
   "    j2jsons          Convert Java classes to JSON schema",
   "    m2jsons          Convert a JSON type model to JSON schema",
   "",
   "options:",
   "  -h, --help         show this help message and exit",
   "  --version          Print the version of classtojsons."]

/-- The options that both commands have. -/
def sharedHelp : List String :=
  ["  -h, --help          show this help message and exit",
   "  --out OUT           Output directory for the JSON schema files. Schemas are",
   "                      printed when omitted.",
   "  --class CLASS_NAME  Only convert the class with this simple or qualified",
   "                      name."]

/-- Help on a command. -/
def Task.help : Task → List String
  | sources =>
      ["usage: classtojsons j2jsons [-h] [--out OUT] [--class CLASS_NAME]",
       "                            [--skip-static]",
       "                            input [input ...]",
       "",
       "positional arguments:",
       "  input               Path(s) to the Java source file(s).",
       "",
       "options:"]
      ++ sharedHelp
      ++ ["  --skip-static       Leave static fields out of the schemas."]
  | model =>
      ["usage: classtojsons m2jsons [-h] [--out OUT] [--class CLASS_NAME] [input]",
       "",
       "positional arguments:",
       "  input               Path to the type model file. Read from stdin when",
       "                      omitted.",
       "",
       "options:"]
      ++ sharedHelp

/-- Help on a topic, or on the program. -/
def helpText : Option Task → List String
  | none => mainHelp
  | some task => task.help

end ClassSchema.Command
