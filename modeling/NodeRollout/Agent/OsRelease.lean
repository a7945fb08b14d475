import NodeRollout.Failure
import NodeRollout.Text.Blank
import NodeRollout.Text.Utf8
/-!
The name of the running OS image: the `PRETTY_NAME` of the os-release file, which is also what a node
reports as its OS image.
-/
namespace NodeRollout.OsRelease

/-- The lines of a text. A carriage return at the end of a line stays with it. -/
def lines : List Char → List (List Char)
  | [] => [[]]
  | c :: rest =>
    if c = '\n' then [] :: lines rest
    else match lines rest with
      | line :: more => (c :: line) :: more
      | [] => [[c]]

def key : List Char := "PRETTY_NAME=".toList

def isQuote (c : Char) : Bool := c == '"' || c == '\''

/-- The value a line gives to the name, without the quotes around it. -/
def valueOf? (line : List Char) : Option (List Char) :=
  let line := Text.stripEnds Text.isBlank line
  if key.isPrefixOf line then some (Text.stripEnds isQuote (line.drop key.length)) else none

/-- The name of the OS image, empty when the file gives none; the first line that gives one counts. -/
def imageName (content : String) : String :=
  String.ofList (((lines content.toList).findSome? valueOf?).getD [])

/-- The name of the OS image from what reading the file gave. -/
def ofFile : Except IoCause (List UInt8) → Except Failure String
  | .error cause => .error (.io cause)
  | .ok bytes =>
    match Text.ofBytes? bytes with
    | some content => .ok (imageName content)
    | none => .error (.io .invalidText)

end NodeRollout.OsRelease
