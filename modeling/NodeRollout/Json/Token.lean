import NodeRollout.Json.Number
import NodeRollout.Text.Digits
/-!
The words of a JSON text. A string or number that is well formed but has no value, such as a lone
surrogate escape or a number beyond binary64, is still a word: it can be skipped, only not be read.
Where the text stops being JSON the word `bad` stands, and nothing follows it.
-/
namespace NodeRollout.Json

/-- A word of a JSON text. -/
inductive Token where
  | openObject
  | closeObject
  | openArray
  | closeArray
  | colon
  | comma
  | null
  | bool (b : Bool)
  | number (n : Option Number)
  | string (s : Option String)
  | bad
  deriving DecidableEq, Inhabited, Repr

namespace Token

def isSpace (c : Char) : Bool := c == ' ' || c == '\n' || c == '\t' || c == '\r'

def hex4? (a b c d : Char) : Option Nat := do
  let high := 16 * (← Text.hexDigit? a) + (← Text.hexDigit? b)
  return (16 * high + (← Text.hexDigit? c)) * 16 + (← Text.hexDigit? d)

def escaped? : Char → Option Char
  | '"' => some '"'
  | '\\' => some '\\'
  | '/' => some '/'
  | 'b' => some '\x08'
  | 'f' => some '\x0c'
  | 'n' => some '\n'
  | 'r' => some '\r'
  | 't' => some '\t'
  | _ => none

def isHighSurrogate (n : Nat) : Bool := 0xD800 ≤ n && n < 0xDC00

def isLowSurrogate (n : Nat) : Bool := 0xDC00 ≤ n && n < 0xE000

def pair (high low : Nat) : Char := Char.ofNat (0x10000 + (high - 0xD800) * 0x400 + (low - 0xDC00))

/-- The rest of a string whose opening quote was read; `taken` holds what was read of it in reverse,
or `none` once it has no value. The result is `none` when the text is no string. -/
def readString (taken : Option (List Char)) : List Char → Option (Option String × List Char)
  | [] => none
  | '"' :: rest => some (taken.map fun cs => String.ofList cs.reverse, rest)
  | '\\' :: 'u' :: a :: b :: c :: d :: rest =>
    match hex4? a b c d with
    | none => none
    | some n =>
      if isLowSurrogate n then readString none rest
      else if isHighSurrogate n then
        match rest with
        | '\\' :: 'u' :: e :: f :: g :: h :: after =>
          match hex4? e f g h with
          | none => none
          | some m =>
            if isLowSurrogate m then readString (taken.map (pair n m :: ·)) after
            else readString none after
        | rest => readString none rest
      else readString (taken.map (Char.ofNat n :: ·)) rest
  | '\\' :: e :: rest =>
    match escaped? e with
    | none => none
    | some c => readString (taken.map (c :: ·)) rest
  | c :: rest => if c.toNat < 0x20 then none else readString (taken.map (c :: ·)) rest

theorem length_of_readString {taken : Option (List Char)} {cs : List Char} {s : Option String}
    {rest : List Char} (h : readString taken cs = some (s, rest)) : rest.length < cs.length := by
  fun_induction readString taken cs with
  | case1 => simp at h
  | case2 => simp_all
  | case3 => simp at h
  | case4 _ _ _ _ _ _ _ _ _ ih => have := ih h; simp only [List.length_cons]; omega
  | case5 => simp at h
  | case6 _ _ _ _ _ _ _ _ _ _ _ _ _ _ _ _ _ ih =>
    have := ih h; simp only [List.length_cons]; omega
  | case7 _ _ _ _ _ _ _ _ _ _ _ _ _ _ _ _ _ ih =>
    have := ih h; simp only [List.length_cons]; omega
  | case8 _ _ _ _ _ _ _ _ _ _ _ ih => have := ih h; simp only [List.length_cons]; omega
  | case9 _ _ _ _ _ _ _ _ _ _ ih => have := ih h; simp only [List.length_cons]; omega
  | case10 => simp at h
  | case11 _ _ _ _ _ _ ih => have := ih h; simp only [List.length_cons]; omega
  | case12 => simp at h
  | case13 _ _ _ _ _ _ _ ih => have := ih h; simp only [List.length_cons]; omega

def readWord (token : Token) : (letters cs : List Char) → Option (Token × List Char)
  | [], cs => some (token, cs)
  | _, [] => none
  | l :: letters, c :: cs => if l = c then readWord token letters cs else none

/-- The word that starts with `c`, and what follows it; `none` when no word starts so. -/
def read (c : Char) (cs : List Char) : Option (Token × List Char) :=
  match c with
  | '{' => some (.openObject, cs)
  | '}' => some (.closeObject, cs)
  | '[' => some (.openArray, cs)
  | ']' => some (.closeArray, cs)
  | ':' => some (.colon, cs)
  | ',' => some (.comma, cs)
  | '"' => (readString (some []) cs).map fun (s, rest) => (.string s, rest)
  | 'n' => readWord .null ['u', 'l', 'l'] cs
  | 't' => readWord (.bool true) ['r', 'u', 'e'] cs
  | 'f' => readWord (.bool false) ['a', 'l', 's', 'e'] cs
  | c => (Numeral.read (c :: cs)).map fun (n, rest) => (.number n.number?, rest)

theorem length_of_readWord {token t : Token} {letters cs rest : List Char}
    (h : readWord token letters cs = some (t, rest)) : rest.length ≤ cs.length := by
  fun_induction readWord token letters cs with
  | case1 => simp_all
  | case2 => simp at h
  | case3 _ _ _ ih => have := ih h; simp only [List.length_cons]; omega
  | case4 => simp at h

theorem length_of_read {c : Char} {cs rest : List Char} {t : Token}
    (h : read c cs = some (t, rest)) : rest.length ≤ cs.length := by
  unfold read at h
  split at h
  all_goals try (simp only [Option.some.injEq, Prod.mk.injEq] at h; exact h.2 ▸ Nat.le_refl _)
  · simp only [Option.map_eq_some_iff, Prod.exists, Prod.mk.injEq] at h
    obtain ⟨s, rest, hs, -, rfl⟩ := h
    exact Nat.le_of_lt (length_of_readString hs)
  · exact length_of_readWord h
  · exact length_of_readWord h
  · exact length_of_readWord h
  · simp only [Option.map_eq_some_iff, Prod.exists, Prod.mk.injEq] at h
    obtain ⟨n, rest, hn, -, rfl⟩ := h
    exact Nat.le_of_lt_succ (Numeral.length_of_read hn)

def lex : List Char → List Token
  | [] => []
  | c :: cs =>
    if isSpace c then lex cs
    else match _h : read c cs with
      | none => [.bad]
      | some (token, rest) => token :: lex rest
termination_by cs => cs.length
decreasing_by
  · simp
  · have := length_of_read _h
    simp only [List.length_cons]
    omega

end Token

end NodeRollout.Json
