/-!
Stamp files, one for each Kubernetes version the agent has finished. The version comes from outside,
so what would separate directories is replaced, and the file stays in its directory.
-/
namespace NodeRollout.Stamp

def replace (c : Char) : Char := if c = '/' ∨ c = '\\' then '_' else c

def fileName (version : String) : String :=
  "kubeadm-upgrade-" ++ String.ofList (version.toList.map replace) ++ ".done"

/-- A path as it is seen from a directory. One from the root stays as it is; before any other stands
the directory, with a slash between unless the directory is empty or ends in one. -/
def join (dir path : String) : String :=
  if path.toList.head? = some '/' then path
  else if dir.isEmpty ∨ dir.toList.getLast? = some '/' then dir ++ path
  else dir ++ "/" ++ path

def path (dir version : String) : String := join dir (fileName version)

end NodeRollout.Stamp
