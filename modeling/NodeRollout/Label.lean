/-!
Label names, and the rule that turns any version text into a legal label value.

`sanitize` replaces every character that labels do not allow, cuts to the length limit and trims
what may not stand at an end. It works character by character, so no character is cut in two.
-/
namespace NodeRollout.Label

/-- Carried by control-plane nodes; only its presence matters. -/
def controlPlane : String := "node-role.kubernetes.io/control-plane"

/-- Marks a node that shall upgrade now; the value names the target. -/
def selection : String := "nodeup.io/upgrading"

/-- Start of the label that records a finished upgrade. -/
def completedStart : String := "nodeup.io/completed-"

def completedValue : String := "true"

/-- The most characters of a label value, and of the part of a label name after its slash. -/
def maxLength : Nat := 63

/-- The characters a legal label may start and end with. -/
def isEdge (c : Char) : Bool := c.isAlphanum

def isAllowed (c : Char) : Bool := c.isAlphanum || c == '-' || c == '_' || c == '.'

def replace (c : Char) : Char := if isAllowed c then c else '-'

/-- Drops the characters at both ends that may not stand there. -/
def trim (cs : List Char) : List Char :=
  (((cs.dropWhile (!isEdge ·)).reverse).dropWhile (!isEdge ·)).reverse

/-- The legal label text nearest to `raw`, of at most `limit` characters. -/
def sanitize (limit : Nat) (raw : String) : String :=
  String.ofList (trim ((raw.toList.map replace).take limit))

/-- The characters a completion label has for its version. -/
def completedRoom : Nat := maxLength - "completed-".length

/-- The name of the label that records a finished upgrade to `version`. -/
def completed (version : String) : String := completedStart ++ sanitize completedRoom version

/-- A legal label text: allowed characters only, at most 63, and empty or with legal ends. -/
def IsLegal (text : List Char) : Prop :=
  text.length ≤ maxLength ∧ (∀ c ∈ text, isAllowed c) ∧
    (∀ c, text.head? = some c → isEdge c) ∧ (∀ c, text.getLast? = some c → isEdge c)

end NodeRollout.Label
