import NodeRollout.Text.Digits
/-!
The values of command-line options and of the variables that stand in for them.
-/
namespace NodeRollout.CommandLine

/-- Why the command line gives no configuration; help and version end the program as well. -/
inductive Fault where
  | displayHelp
  | displayVersion
  | displayHelpOnMissing
  | missingSubcommand
  | invalidSubcommand
  | unknownArgument
  | invalidValue
  | valueValidation
  | argumentConflict
  | missingRequiredArgument
  | tooManyValues
  deriving DecidableEq, Inhabited, Repr

/-- Asking for help or for the version is no mistake. -/
def Fault.exitCode : Fault → Nat
  | .displayHelp | .displayVersion => 0
  | _ => 2

inductive LogFormat where
  | json
  | pretty
  deriving DecidableEq, Inhabited, Repr

/-- Reads a log format; the readable one has three names. -/
def readLogFormat (text : String) : Except Fault LogFormat :=
  if text = "json" then .ok .json
  else if text = "pretty" ∨ text = "compact" ∨ text = "text" then .ok .pretty
  else .error .invalidValue

def readPath (text : String) : Except Fault String :=
  if text.isEmpty then .error .invalidValue else .ok text

/-- Reads a number of 64 bits, after a plus sign or none. -/
def readUnsigned (text : String) : Except Fault Nat :=
  match Text.readUnsigned text.toList with
  | some n => .ok n
  | none => .error .valueValidation

/-- Reads a number below the limit; a minus sign is allowed for zero alone. -/
def readBelow (limit : Nat) (text : String) : Except Fault Nat :=
  let signed := match text.toList with
    | '-' :: cs => (Text.readDigits cs).filter (· = 0)
    | '+' :: cs => Text.readDigits cs
    | cs => Text.readDigits cs
  match signed with
  | some n => if n < limit then .ok n else .error .valueValidation
  | none => .error .valueValidation

def readPort : String → Except Fault Nat := readBelow (1 <<< 16)

def readGroup : String → Except Fault Nat := readBelow (1 <<< 32)

/-- What the value of an option may be. -/
inductive Kind where
  | format
  | text
  | path
  | unsigned
  | port
  | group
  deriving DecidableEq, Inhabited, Repr

def Kind.check : Kind → String → Except Fault Unit
  | .format, value => (readLogFormat value).map fun _ => ()
  | .text, _ => .ok ()
  | .path, value => (readPath value).map fun _ => ()
  | .unsigned, value => (readUnsigned value).map fun _ => ()
  | .port, value => (readPort value).map fun _ => ()
  | .group, value => (readGroup value).map fun _ => ()

/-- An option with the variable that stands in for it; without a default it has to be given. -/
structure Flag where
  name : String
  envName : String
  kind : Kind
  default : Option String
  deriving DecidableEq, Inhabited, Repr

end NodeRollout.CommandLine
