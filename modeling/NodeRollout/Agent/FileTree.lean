import NodeRollout.Agent.Socket
/-!
A tree of files held in memory, in which the agent can bind its socket and keep its stamps. A path is
followed from the root, name by name; every name on the way must be that of a directory.
-/
namespace NodeRollout

/-- What a path leads to. -/
inductive FileEntry where
  | directory
  | file (mode user group : Nat) (text : String)
  deriving DecidableEq, Inhabited, Repr

/-- The entries below the root by the names on the way to them. -/
structure FileTree where
  entries : List (List String × FileEntry) := []

/-- A step in a tree, which the tree may refuse. -/
abbrev FileStep (α : Type) := ExceptT IoCause (StateM FileTree) α

namespace FileTree

def pathLimit : Nat := 4095

def nameLimit : Nat := 255

def socketPathLimit : Nat := 107

/-- The group that stands for no change of the group. -/
def keptGroup : Nat := 4294967295

/-- The names of a path between its slashes; empty ones name nothing. -/
def names (path : String) : List String :=
  ((path.toList.splitOn '/').filter (!·.isEmpty)).map String.ofList

/-- The root is a directory that is in no other. -/
def entryAt? (tree : FileTree) (place : List String) : Option FileEntry :=
  if place.isEmpty then some .directory else tree.entries.lookup place

def insert (place : List String) (entry : FileEntry) (tree : FileTree) : FileTree :=
  ⟨(place, entry) :: tree.entries.filter (·.1 != place)⟩

def erase (place : List String) (tree : FileTree) : FileTree :=
  ⟨tree.entries.filter (·.1 != place)⟩

def checkPath (path : String) : FileStep Unit := do
  if path.toList.contains '\x00' then throw .nulInName
  if pathLimit < path.utf8ByteSize then throw .nameTooLong

/-- The place of a name in a directory; two dots name the directory above. -/
def step (place : List String) (name : String) : FileStep (List String) := do
  if nameLimit < name.utf8ByteSize then throw .nameTooLong
  if name = "." then return place
  if name = ".." then return place.dropLast
  return place ++ [name]

def follow (place : List String) : List String → FileStep (List String)
  | [] => return place
  | name :: rest => do
    let next ← step place name
    match (← get).entryAt? next with
    | some .directory => follow next rest
    | some (.file ..) => throw .notDirectory
    | none => throw .notFound

/-- Follows names through directories, and makes those that are missing. -/
def makeAll (place : List String) : List String → FileStep Unit
  | [] => return
  | name :: rest => do
    let next ← step place name
    match (← get).entryAt? next with
    | some .directory => pure ()
    | some (.file ..) => throw (if rest.isEmpty then .alreadyExists else .notDirectory)
    | none => modify (insert next .directory)
    makeAll next rest

/-- The last name of a path and the place of the directory that it is in. -/
def target (path : String) : FileStep (List String × String) := do
  checkPath path
  let place ← follow [] (names path).dropLast
  return (place, (names path).getLastD ".")

/-- Removes a file. A slash behind its name asks for a directory, which cannot be removed. -/
def remove (path : String) : FileStep Unit := do
  let (place, name) ← target path
  if name = "." ∨ name = ".." then throw .isDirectory
  let place ← step place name
  match (← get).entryAt? place with
  | some .directory => throw .isDirectory
  | some (.file ..) => if path.endsWith "/" then throw .notDirectory else modify (erase place)
  | none => throw .notFound

/-- Writes a text into a file, which is made if it is missing. -/
def write (path text : String) : FileStep Unit := do
  let (place, name) ← target path
  let place ← step place name
  match (← get).entryAt? place with
  | some .directory => throw .isDirectory
  | some (.file mode user group _) => modify (insert place (.file mode user group text))
  | none => modify (insert place (.file 0o644 0 0 text))

/-- The path leads to something; it is an error if it leads through a file. -/
def reaches (path : String) : FileStep Bool :=
  tryCatch
    (do
      let (place, name) ← target path
      let place ← step place name
      return ((← get).entryAt? place).isSome)
    fun cause => if cause = .notFound then return false else throw cause

def listen (path : String) : FileStep Unit := do
  if socketPathLimit < path.utf8ByteSize then throw .socketPathTooLong
  let (place, name) ← target path
  let place ← step place name
  if ((← get).entryAt? place).isSome then throw (.other "Address in use (os error 98)")
  if path.endsWith "/" then throw .notFound
  modify (insert place (.file 0o755 0 0 ""))

def find (path : String) : FileStep (List String × FileEntry) := do
  let (place, name) ← target path
  let place ← step place name
  match (← get).entryAt? place with
  | some entry => return (place, entry)
  | none => throw .notFound

def carryOut : SocketCall → FileStep Unit
  | .makeDirectories path => do
    checkPath path
    makeAll [] (names path)
  | .removeFile path => remove path
  | .listen path => listen path
  | .setMode path mode => do
    if let (place, .file _ user group text) ← find path then
      modify (insert place (.file mode user group text))
  | .setOwner path user group => do
    if let (place, .file mode _ old text) ← find path then
      modify (insert place (.file mode user (if group = keptGroup then old else group) text))

def perform {α : Type} (procedure : SocketProcedure α) : StateM FileTree (Except Failure α) :=
  Program.run (I := SocketFiles) (fun call => (carryOut call).run) procedure.run

end FileTree

end NodeRollout
