/-!
Sets of characters as the lengths of alternating runs of characters outside and inside the set, from
U+0000 on. Every character behind the last run is outside.
-/
namespace NodeRollout.Text

/-- Whether the character `n` places behind the start of these runs is in the set; the first run is
inside it or not. -/
def inRunsFrom (inside : Bool) (n : Nat) : List Nat → Bool
  | [] => false
  | run :: rest => if n < run then inside else inRunsFrom (!inside) (n - run) rest

def inRuns (runs : List Nat) (c : Char) : Bool := inRunsFrom false c.toNat runs

end NodeRollout.Text
