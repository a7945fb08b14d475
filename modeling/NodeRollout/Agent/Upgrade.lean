import NodeRollout.Agent.Command
import NodeRollout.Agent.OsRelease
import NodeRollout.Agent.Stamp
import NodeRollout.Program
import NodeRollout.PushRequest
/-!
What the agent does for a request. The OS comes first: a node on another image is rebased and
rebooted, and nothing more. On the right image the Kubernetes version is applied, unless its stamp
tells that this was done; the stamp is written last.
-/
namespace NodeRollout

/-- What the agent asks of its host. -/
inductive HostCall where
  | osRelease
  | fileExists (path : String)
  | run (command : Command)
  | makeDirectories (path : String)
  | writeTime (path : String)

def HostCall.Answer : HostCall → Type
  | .osRelease => Except IoCause (List UInt8)
  | .fileExists _ => Except IoCause Bool
  | .run _ => Except Failure String
  | .makeDirectories _ => Except IoCause Unit
  | .writeTime _ => Except IoCause Unit

def Host : Interface := ⟨HostCall, HostCall.Answer⟩

abbrev HostProcedure (α : Type) := ExceptT Failure (Program Host) α

namespace Host

def osImage : HostProcedure String :=
  ExceptT.mk do return OsRelease.ofFile (← Program.call (I := Host) .osRelease)

def fileExists (path : String) : HostProcedure Bool :=
  ExceptT.mk do return (← Program.call (I := Host) (.fileExists path)).mapError .io

def run (command : Command) : HostProcedure String :=
  ExceptT.mk (Program.call (I := Host) (.run command))

def makeDirectories (path : String) : HostProcedure Unit :=
  ExceptT.mk do return (← Program.call (I := Host) (.makeDirectories path)).mapError .io

def writeTime (path : String) : HostProcedure Unit :=
  ExceptT.mk do return (← Program.call (I := Host) (.writeTime path)).mapError .io

end Host

namespace Agent

/-- Brings the OS to the requested image; tells whether a reboot was started. -/
def upgradeOs (request : PushRequest) : HostProcedure Bool := do
  let current ← Host.osImage
  if current = request.osVersion then return false
  if request.osImageUrl.isEmpty then
    throw (.protocol s!"OS version {request.osVersion} requested without an image URL")
  let _ ← Host.run (.rebase request.osImageUrl)
  let _ ← Host.run .reboot
  return true

/-- Brings the node to the requested Kubernetes version, and stamps it. -/
def upgradeKubernetes (stampDir : String) (request : PushRequest) : HostProcedure Unit := do
  let stamp := Stamp.path stampDir request.kubeVersion
  if ← Host.fileExists stamp then return
  let installed := Text.trim (← Host.run .kubeadmVersion)
  if installed ≠ request.kubeVersion then
    let _ ← Host.run .restartKubelet
    let _ ← Host.run (.kubeadmUpgrade request.kubeVersion request.controlPlane)
  Host.makeDirectories stampDir
  Host.writeTime stamp

def upgrade (stampDir : String) (request : PushRequest) : HostProcedure Unit := do
  if !request.osVersion.isEmpty then
    if ← upgradeOs request then return
  if !request.kubeVersion.isEmpty then upgradeKubernetes stampDir request

end Agent

end NodeRollout
