import NodeRollout.Agent.Signal
import NodeRollout.Failure
import NodeRollout.Text.Blank
import NodeRollout.Text.Utf8
/-!
The host commands of the agent, and what the end of a process means.
-/
namespace NodeRollout

/-- A program with its arguments. -/
structure Command where
  program : String
  args : List String
  deriving DecidableEq, Inhabited, Repr

/-- The program and its arguments with a space between them. -/
def Command.text (command : Command) : String := " ".intercalate (command.program :: command.args)

namespace Command

/-- Pulls the image without checking a signature, and stages it for the next boot. -/
def rebase (imageUrl : String) : Command :=
  ⟨"rpm-ostree", ["rebase", "--experimental", "ostree-unverified-registry:" ++ imageUrl]⟩

def reboot : Command := ⟨"systemctl", ["reboot"]⟩

def kubeadmVersion : Command := ⟨"kubeadm", ["version", "-o", "short"]⟩

def restartKubelet : Command := ⟨"systemctl", ["restart", "kubelet"]⟩

/-- A control-plane node applies the version, a worker follows. -/
def kubeadmUpgrade (kubeVersion : String) (controlPlane : Bool) : Command :=
  if controlPlane then ⟨"kubeadm", ["upgrade", "apply", kubeVersion, "--yes"]⟩
  else ⟨"kubeadm", ["upgrade", "node"]⟩

end Command

/-- How a process ended. -/
inductive ProcessEnd where
  | exited (code : Nat)
  /-- A signal ended it, and perhaps left its memory behind. -/
  | killed (signal : Nat) (dumped : Bool)
  deriving DecidableEq, Inhabited, Repr

def ProcessEnd.text : ProcessEnd → String
  | .exited code => s!"exit status: {code}"
  | .killed signal dumped =>
    let name := (Signal.name? signal).elim "" fun name => s!" (SIG{name})"
    let dump := if dumped then " (core dumped)" else ""
    s!"signal: {signal}{name}{dump}"

/-- A process that ended, with what it wrote. -/
structure ProcessOutput where
  ended : ProcessEnd
  stdout : List UInt8
  stderr : List UInt8

/-- Why a process did not start. -/
inductive StartFault where
  | os (cause : IoCause)
  /-- An argument holds a NUL. -/
  | nulInArgument
  deriving DecidableEq, Inhabited, Repr

def StartFault.message : StartFault → String
  | .os cause => cause.message
  | .nulInArgument => "nul byte found in provided data"

/-- What running a command gives: its output, or the reason of its failure with what it wrote to the
error stream. -/
def Command.result (command : Command) : Except StartFault ProcessOutput → Except Failure String
  | .error fault => .error (.commandFailed command.text fault.message)
  | .ok output =>
    if output.ended = .exited 0 then .ok (Text.ofBytesLossy output.stdout)
    else
      let stderr := Text.trim (Text.ofBytesLossy output.stderr)
      .error (.commandFailed command.text s!"{output.ended.text}: {stderr}")

end NodeRollout
