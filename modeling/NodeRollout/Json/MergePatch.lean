import NodeRollout.Json.Value
/-!
Merge patches of JSON values. An object as a patch changes the members it names, and a null removes
one; any other patch replaces the value.
-/
namespace NodeRollout.Json

/-- Sets the value of a member; a new one stands last. -/
def setMember (name : String) (value : Value) (members : List (String × Value)) :
    List (String × Value) :=
  if members.any (·.1 == name) then
    members.map fun member => if member.1 = name then (name, value) else member
  else members ++ [(name, value)]

def removeMember (name : String) (members : List (String × Value)) : List (String × Value) :=
  members.filter (·.1 != name)

mutual

def Value.mergePatch (target : Value) : Value → Value
  | .object changes => .object (mergeMembers target.members changes)
  | patch => patch

/-- The members that the members of a patch make of others, one after another. -/
def mergeMembers (members : List (String × Value)) :
    List (String × Value) → List (String × Value)
  | [] => members
  | (name, change) :: rest =>
    let changed := match change with
      | .null => removeMember name members
      | change =>
        let old := ((Value.object members).get? name).getD .null
        setMember name (old.mergePatch change) members
    mergeMembers changed rest

end

end NodeRollout.Json
