import NodeRollout.Proofs.JsonText
import NodeRollout.Proofs.Numerals

/-! The spellings of JSON. A character may stand in a string as itself or behind one of several
escapes, a number may be any numeral, and space may stand around every word. Whatever the spelling,
the words of the text are the same. -/
namespace NodeRollout.Json

section Strings

/-- A hexadecimal digit of this value, in either case. -/
inductive HexDigit (n : Nat) : Char → Prop where
  | lower (h : n < 16) : HexDigit n (Nat.digitChar n)
  | upper (h : n < 16) : HexDigit n (Nat.digitChar n).toUpper

/-- Four hexadecimal digits of this value. -/
inductive Hex4 : Nat → List Char → Prop where
  | mk {a b c d : Nat} {w x y z : Char} (ha : HexDigit a w) (hb : HexDigit b x)
      (hc : HexDigit c y) (hd : HexDigit d z) :
      Hex4 (((16 * a + b) * 16 + c) * 16 + d) [w, x, y, z]

theorem hexDigit?_digitChar : ∀ n < 16, Text.hexDigit? (Nat.digitChar n) = some n ∧
    Text.hexDigit? (Nat.digitChar n).toUpper = some n := by
  decide

theorem HexDigit.read {n : Nat} {c : Char} (h : HexDigit n c) : Text.hexDigit? c = some n := by
  cases h with
  | lower h => exact (hexDigit?_digitChar n h).1
  | upper h => exact (hexDigit?_digitChar n h).2

theorem Hex4.exists_digits {n : Nat} {digits : List Char} (h : Hex4 n digits) :
    ∃ w x y z, digits = [w, x, y, z] ∧ Token.hex4? w x y z = some n := by
  cases h with
  | @mk a b c d w x y z ha hb hc hd =>
    refine ⟨w, x, y, z, rfl, ?_⟩
    simp only [Token.hex4?, ha.read, hb.read, hc.read, hd.read, Option.pure_def,
      Option.bind_eq_bind, Option.bind_some]
    congr 1
    omega

/-- The ways in which a character may stand in a string: those in which it is written, and escapes
by one or two code units of UTF-16. -/
inductive Spelling (c : Char) : List Char → Prop where
  | written {cs : List Char} (h : Spelled c cs) : Spelling c cs
  | unit {digits : List Char} (h : Hex4 c.toNat digits) : Spelling c ('\\' :: 'u' :: digits)
  | surrogates {high low : Nat} {ds es : List Char} (hhigh : Hex4 high ds) (hlow : Hex4 low es)
      (isHigh : 0xD800 ≤ high ∧ high < 0xDC00) (isLow : 0xDC00 ≤ low ∧ low < 0xE000)
      (means : c.toNat = 0x10000 + (high - 0xD800) * 0x400 + (low - 0xDC00)) :
      Spelling c ('\\' :: 'u' :: (ds ++ '\\' :: 'u' :: es))

/-- The code units that stand for themselves are not halves of a pair. -/
theorem not_surrogate (c : Char) :
    Token.isLowSurrogate c.toNat = false ∧ Token.isHighSurrogate c.toNat = false := by
  have hvalid : c.toNat < 0xD800 ∨ 0xDFFF < c.toNat ∧ c.toNat < 0x110000 := c.valid
  constructor
  · simp [Token.isLowSurrogate]
    omega
  · simp [Token.isHighSurrogate]
    omega

theorem Spelling.readString {c : Char} {cs : List Char} (h : Spelling c cs)
    (taken rest : List Char) :
    Token.readString (some taken) (cs ++ rest) = Token.readString (some (c :: taken)) rest := by
  cases h with
  | written h => exact h.readString taken rest
  | unit h =>
    obtain ⟨w, x, y, z, rfl, hmeans⟩ := h.exists_digits
    simp only [List.cons_append, List.nil_append]
    rw [Token.readString.eq_3]
    simp only [hmeans, (not_surrogate c).1, (not_surrogate c).2, Bool.false_eq_true, if_false,
      Option.map_some, Char.ofNat_toNat]
  | @surrogates high low ds es hhigh hlow isHigh isLow means =>
    obtain ⟨w, x, y, z, rfl, hreadHigh⟩ := hhigh.exists_digits
    obtain ⟨w', x', y', z', rfl, hreadLow⟩ := hlow.exists_digits
    have hnotLow : Token.isLowSurrogate high = false := by
      simp [Token.isLowSurrogate]
      omega
    have hisHigh : Token.isHighSurrogate high = true := by simp [Token.isHighSurrogate, isHigh]
    have hisLow : Token.isLowSurrogate low = true := by simp [Token.isLowSurrogate, isLow]
    have hpair : Token.pair high low = c := by rw [Token.pair, ← means, Char.ofNat_toNat]
    simp only [List.cons_append, List.nil_append]
    rw [Token.readString.eq_3]
    simp only [hreadHigh, hreadLow, hnotLow, hisHigh, hisLow, hpair, Bool.false_eq_true, if_false,
      if_true, Option.map_some]

/-- A text of this string, with each character in any of its spellings. -/
inductive StringText (s : String) : List Char → Prop where
  | mk {pieces : List (List Char)} (spelled : List.Forall₂ Spelling s.toList pieces) :
      StringText s ('"' :: (pieces.flatten ++ ['"']))

theorem readString_flatten {cs : List Char} {pieces : List (List Char)}
    (h : List.Forall₂ Spelling cs pieces) (taken rest : List Char) :
    Token.readString (some taken) (pieces.flatten ++ '"' :: rest) =
      some (some (String.ofList (taken.reverse ++ cs)), rest) := by
  induction h generalizing taken with
  | nil =>
    rw [List.flatten_nil, List.nil_append, Token.readString.eq_2, List.append_nil]
    rfl
  | cons hfirst _ ih =>
    rw [List.flatten_cons, List.append_assoc, hfirst.readString, ih]
    simp

theorem stringText_writeString (s : String) : StringText s (writeString s) := by
  have hspelled : List.Forall₂ Spelling s.toList (s.toList.map escape) := by
    rw [List.forall₂_map_right_iff]
    exact List.forall₂_same.mpr fun c _ => .written (spelled_escape c)
  have htext := StringText.mk hspelled
  rwa [← List.flatMap_def] at htext

end Strings

section Words

variable {text rest cs : List Char} {token : Token} {tokens : List Token}

/-- The words that have one spelling. -/
def fixedWords : List (List Char × Token) := [
  (['{'], .openObject), (['}'], .closeObject), (['['], .openArray), ([']'], .closeArray),
  ([':'], .colon), ([','], .comma), (['n', 'u', 'l', 'l'], .null),
  (['t', 'r', 'u', 'e'], .bool true), (['f', 'a', 'l', 's', 'e'], .bool false)]

/-- The spellings of a word. -/
inductive Word : List Char → Token → Prop where
  | fixed {text : List Char} {token : Token} (h : (text, token) ∈ fixedWords) : Word text token
  | string {s : String} {text : List Char} (h : StringText s text) : Word text (.string (some s))
  | number {n : Numeral} {text : List Char} (h : n.Written text) : Word text (.number n.number?)

/-- A number ends where it does not go on; every other word tells its end. -/
def EndsBefore (token : Token) (rest : List Char) : Prop :=
  ∀ x, token = .number x → Numeral.Ends rest

/-- The text is made of these words, with any space around them. -/
inductive Spells : List Char → List Token → Prop where
  | nil : Spells [] []
  | space {c : Char} {rest : List Char} {tokens : List Token} (h : Token.isSpace c = true)
      (more : Spells rest tokens) : Spells (c :: rest) tokens
  | word {text rest : List Char} {token : Token} {tokens : List Token} (h : Word text token)
      (ends : EndsBefore token rest) (more : Spells rest tokens) :
      Spells (text ++ rest) (token :: tokens)

theorem Numeral.Written.exists_head {n : Numeral} (h : n.Written text) :
    ∃ c cs, text = c :: cs ∧ (c = '-' ∨ c.isDigit = true) := by
  cases h with
  | @mk power legal power_text =>
    obtain ⟨c, cs, hcs⟩ := List.exists_cons_of_ne_nil legal.whole.1
    rw [hcs, signText]
    cases n.negative with
    | true => exact ⟨'-', _, rfl, .inl rfl⟩
    | false => exact ⟨c, _, rfl, .inr (legal.whole.2 c (hcs ▸ List.mem_cons_self))⟩

/-- A word that begins like a numeral is read as one. -/
theorem read_numeral {c : Char} (hc : c = '-' ∨ c.isDigit = true) :
    Token.read c cs = (Numeral.read (c :: cs)).map fun (n, rest) => (.number n.number?, rest) := by
  unfold Token.read
  split
  case h_11 => rfl
  all_goals
    rcases hc with hc | hc <;> cases hc

theorem isSpace_numeral {c : Char} (hc : c = '-' ∨ c.isDigit = true) : Token.isSpace c = false := by
  by_contra hspace
  rw [Bool.not_eq_false, Token.isSpace] at hspace
  simp only [Bool.or_eq_true, beq_iff_eq] at hspace
  rcases hspace with ((rfl | rfl) | rfl) | rfl <;>
    rcases hc with hc | hc <;> cases hc

theorem Word.read (h : Word text token) (hends : EndsBefore token rest) :
    ∃ c cs, text = c :: cs ∧ Token.isSpace c = false ∧
      Token.read c (cs ++ rest) = some (token, rest) := by
  cases h with
  | fixed h =>
    simp only [fixedWords, List.mem_cons, Prod.mk.injEq, List.not_mem_nil, or_false] at h
    rcases h with h | h | h | h | h | h | h | h | h <;>
    · obtain ⟨rfl, rfl⟩ := h
      exact ⟨_, _, rfl, rfl, rfl⟩
  | @string s _ h =>
    cases h with
    | @mk pieces spelled =>
      have hread := readString_flatten spelled [] rest
      rw [List.reverse_nil, List.nil_append, String.ofList_toList] at hread
      refine ⟨'"', _, rfl, rfl, ?_⟩
      rw [List.append_assoc, List.singleton_append, Token.read, hread]
      rfl
  | @number n _ h =>
    obtain ⟨c, cs, rfl, hc⟩ := h.exists_head
    refine ⟨c, cs, rfl, isSpace_numeral hc, ?_⟩
    rw [read_numeral hc, ← List.cons_append, Numeral.read_written h (hends _ rfl)]
    rfl

/-- Every spelling of a text is read as its words. -/
theorem Spells.lex_eq (h : Spells text tokens) : Token.lex text = tokens := by
  induction h with
  | nil => exact Token.lex.eq_1
  | space hspace _ ih =>
    rw [Token.lex, if_pos hspace, ih]
  | word h ends _ ih =>
    obtain ⟨c, cs, rfl, hspace, hread⟩ := h.read ends
    rw [List.cons_append, lex_cons hspace hread, ih]

end Words

end NodeRollout.Json
