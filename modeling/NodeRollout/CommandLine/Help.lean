import NodeRollout.CommandLine.Parse
/-!
What is told to someone who asks for help, or who got the command line wrong.
-/
namespace NodeRollout.CommandLine

def Flag.help (flag : Flag) : String :=
  let default := match flag.default with
    | some value => s!", {value} if neither is given"
    | none => ""
  s!"  --{flag.name}, or the variable {flag.envName}{default}\n"

def Subcommand.help (subcommand : Subcommand) : String :=
  s!"{subcommand.name}\n" ++ String.join (subcommand.flags.map Flag.help)

def help : String :=
  "Usage: nodeup [options] <subcommand> [options]\n\n" ++
    String.join (globalFlags.map Flag.help) ++ "\n" ++
    "\n".intercalate (Subcommand.all.map Subcommand.help)

def Fault.message : Fault → String
  | .displayHelp | .displayVersion => ""
  | .displayHelpOnMissing | .missingSubcommand => "a subcommand is missing"
  | .invalidSubcommand => "there is no such subcommand"
  | .unknownArgument => "there is no such option"
  | .invalidValue => "a value is missing or is none of the allowed ones"
  | .valueValidation => "a value is no number, or out of range"
  | .argumentConflict => "an option is given twice"
  | .missingRequiredArgument => "an option without a default is missing"
  | .tooManyValues => "an option that takes no value has one"

end NodeRollout.CommandLine
