import NodeRollout.CommandLine.Help
import NodeRollout.Service
/-!
The program as an executable. It has the command line, the log and the file system; this build has no
sockets, so a service ends where it would connect or listen.
-/
namespace NodeRollout

def noSockets : String := "this build has no sockets"

/-- Runs an action on the file system; its refusal becomes a cause. -/
def attemptFile (action : IO Unit) : IO (Except IoCause Unit) := do
  try
    action
    return .ok ()
  catch
  | .noFileOrDirectory .. => return .error .notFound
  | e => return .error (.other (toString e))

def callFiles : SocketCall → IO (Except IoCause Unit)
  | .makeDirectories path => attemptFile (IO.FS.createDirAll path)
  | .removeFile path => attemptFile (IO.FS.removeFile path)
  | .listen _ | .setMode .. | .setOwner .. => return .error (.other noSockets)

/-- Tells the user what is wrong; help that was asked for is not. -/
def tell : Complaint → IO Unit
  | .commandLine fault =>
    if fault.exitCode = 0 then IO.print CommandLine.help
    else IO.eprint s!"error: {fault.message}\n\n{CommandLine.help}"
  | .leftOut directive => IO.eprintln s!"ignoring {directive.quote}: invalid filter directive"
  | .tornFilter => IO.eprintln "a directive of the log filter is cut inside a character"

def callWorld : (call : ServiceCall) → IO call.Answer
  | .print text => IO.print text
  | .complain complaint => tell complaint
  | .record format event => IO.println (event.line format)
  | .connect => return .error noSockets
  | .listen _ => return .error (.other noSockets)
  | .control | .answer _ => return
  | .files call => callFiles call

def variableNames : List String :=
  "RUST_LOG" :: ((CommandLine.Subcommand.all.flatMap (·.flags)) ++ CommandLine.globalFlags).map
    (·.envName)

def readEnvironment : IO CommandLine.Environment := do
  let given ← variableNames.filterMapM fun name => do
    return (← IO.getEnv name).map (name, ·)
  return fun name => given.lookup name

end NodeRollout

def main (words : List String) : IO UInt32 := do
  let env ← NodeRollout.readEnvironment
  return (← (NodeRollout.Service.run env words).run NodeRollout.callWorld).toUInt32
