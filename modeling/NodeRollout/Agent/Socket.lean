import NodeRollout.Failure
import NodeRollout.Program
/-!
The socket file of the agent. What a former agent left at the path is replaced, and only the owner and
one group may connect.
-/
namespace NodeRollout

/-- What binding the socket asks of the file system. -/
inductive SocketCall where
  | makeDirectories (path : String)
  | removeFile (path : String)
  | listen (path : String)
  | setMode (path : String) (mode : Nat)
  | setOwner (path : String) (user group : Nat)
  deriving DecidableEq, Inhabited, Repr

def SocketFiles : Interface := ⟨SocketCall, fun _ => Except IoCause Unit⟩

abbrev SocketProcedure (α : Type) := ExceptT Failure (Program SocketFiles) α

namespace Socket

/-- Read and write for the owner and the group, nothing for others. -/
def mode : Nat := 0o660

/-- The parts of a path between its slashes; an empty part and a single dot name nothing. -/
def parts (path : String) : List String :=
  (path.splitOn "/").filter fun part => !part.isEmpty && part != "."

/-- The directory of a file; a path without parts is in none. -/
def directory? (path : String) : Option String :=
  match (parts path).reverse with
  | [] => none
  | _ :: above =>
    let root := if path.startsWith "/" then "/" else ""
    some (root ++ "/".intercalate above.reverse)

/-- Asks the file system; its refusal is the failure of the procedure. -/
def ask (call : SocketCall) : SocketProcedure Unit :=
  ExceptT.mk do return (← Program.call (I := SocketFiles) call).mapError .io

def removeStale (path : String) : SocketProcedure Unit :=
  ExceptT.mk do
    match ← Program.call (I := SocketFiles) (.removeFile path) with
    | .ok () | .error .notFound => return .ok ()
    | .error cause => return .error (.io cause)

/-- Binds the socket, and hands it to a group where one is given. -/
def bind (path : String) (group : Option Nat) : SocketProcedure Unit := do
  if let some dir := directory? path then ask (.makeDirectories dir)
  removeStale path
  ask (.listen path)
  ask (.setMode path mode)
  if let some group := group then ask (.setOwner path 0 group)

end Socket

end NodeRollout
