import Mathlib.Data.List.Forall2
import NodeRollout.Json.Printer
import NodeRollout.Json.Record

/-! Written JSON. No control character stands in it, and the words of what was written are the ones
that were meant, whatever follows. -/
namespace NodeRollout.Json

/-- No control character stands in the text. -/
def Visible (cs : List Char) : Prop := ∀ c ∈ cs, 0x20 ≤ c.toNat

theorem visible_nil : Visible [] := nofun

theorem visible_cons {c : Char} {cs : List Char} :
    Visible (c :: cs) ↔ 0x20 ≤ c.toNat ∧ Visible cs :=
  List.forall_mem_cons

theorem visible_append {cs ds : List Char} : Visible (cs ++ ds) ↔ Visible cs ∧ Visible ds :=
  List.forall_mem_append

/-- The ways in which a character is written inside a string. -/
inductive Spelled (c : Char) : List Char → Prop where
  | plain (quote : c ≠ '"') (backslash : c ≠ '\\') (visible : 0x20 ≤ c.toNat) : Spelled c [c]
  | short {e : Char} (visible : 0x20 ≤ e.toNat) (letter : e ≠ 'u')
      (means : Token.escaped? e = some c) : Spelled c ['\\', e]
  | numbered {h l : Char} (visible : 0x20 ≤ h.toNat ∧ 0x20 ≤ l.toNat) (control : c.toNat < 0x20)
      (means : Token.hex4? '0' '0' h l = some c.toNat) : Spelled c ['\\', 'u', '0', '0', h, l]

theorem hex_digits_of_control : ∀ n < 0x20,
    (0x20 ≤ (hexDigit (n / 16)).toNat ∧ 0x20 ≤ (hexDigit (n % 16)).toNat) ∧
      Token.hex4? '0' '0' (hexDigit (n / 16)) (hexDigit (n % 16)) = some n := by
  decide

theorem spelled_escape (c : Char) : Spelled c (escape c) := by
  unfold escape
  split
  · exact .short (by decide) (by decide) rfl
  · exact .short (by decide) (by decide) rfl
  · exact .short (by decide) (by decide) rfl
  · exact .short (by decide) (by decide) rfl
  · exact .short (by decide) (by decide) rfl
  · exact .short (by decide) (by decide) rfl
  · exact .short (by decide) (by decide) rfl
  next hquote hbackslash _ _ _ _ _ =>
    split
    next hcontrol =>
      obtain ⟨hvisible, hmeans⟩ := hex_digits_of_control c.toNat hcontrol
      exact .numbered hvisible hcontrol hmeans
    next hvisible => exact .plain hquote hbackslash (Nat.not_lt.mp hvisible)

namespace Spelled

variable {c : Char} {cs : List Char}

theorem visible (h : Spelled c cs) : Visible cs := by
  cases h with
  | plain _ _ hvisible => simpa [Visible] using hvisible
  | short hvisible => simpa [Visible] using hvisible
  | numbered hvisible => simpa [Visible] using hvisible

/-- A spelled character is read as itself. -/
theorem readString (h : Spelled c cs) (taken rest : List Char) :
    Token.readString (some taken) (cs ++ rest) = Token.readString (some (c :: taken)) rest := by
  cases h with
  | plain hquote hbackslash hvisible =>
    have hnone : ¬ c.toNat < 0x20 := Nat.not_lt.mpr hvisible
    rw [List.singleton_append, Token.readString.eq_5 _ _ _ hquote, if_neg hnone]
    · rfl
    · exact fun _ _ _ _ _ hc _ => hbackslash hc
    · exact fun _ _ hc _ => hbackslash hc
  | @short e _ hletter hmeans =>
    rw [List.cons_append, List.singleton_append, Token.readString.eq_4, hmeans]
    · rfl
    · exact fun _ _ _ _ _ hu _ => hletter hu
  | @numbered h l _ hcontrol hmeans =>
    have hlow : Token.isLowSurrogate c.toNat = false := by
      simp [Token.isLowSurrogate]
      omega
    have hhigh : Token.isHighSurrogate c.toNat = false := by
      simp [Token.isHighSurrogate]
      omega
    simp only [List.cons_append, List.nil_append, Token.readString.eq_3, hmeans, hlow, hhigh]
    simp

end Spelled

theorem visible_writeString (s : String) : Visible (writeString s) := by
  have hbody : Visible (s.toList.flatMap escape) := by
    intro c hc
    obtain ⟨d, -, hd⟩ := List.mem_flatMap.mp hc
    exact (spelled_escape d).visible c hd
  have hquote : Visible ['"'] := by simp [Visible]
  exact visible_append.mpr ⟨visible_cons.mpr ⟨by decide, hbody⟩, hquote⟩

theorem readString_writeString (cs taken rest : List Char) :
    Token.readString (some taken) (cs.flatMap escape ++ '"' :: rest) =
      some (some (String.ofList (taken.reverse ++ cs)), rest) := by
  induction cs generalizing taken with
  | nil =>
    rw [List.flatMap_nil, List.nil_append, Token.readString.eq_2, List.append_nil]
    rfl
  | cons c cs ih =>
    rw [List.flatMap_cons, List.append_assoc, (spelled_escape c).readString, ih]
    simp

/-- One word, and what follows it. -/
theorem lex_cons {c : Char} {cs rest : List Char} {token : Token} (hspace : Token.isSpace c = false)
    (hread : Token.read c cs = some (token, rest)) :
    Token.lex (c :: cs) = token :: Token.lex rest := by
  rw [Token.lex]
  simp only [hspace, Bool.false_eq_true, if_false]
  split
  next hnone =>
    rw [hread] at hnone
    cases hnone
  next token' rest' hsome =>
    rw [hread] at hsome
    cases hsome
    rfl

/-- The text is made of these words, whatever follows it. -/
def Lexes (text : List Char) (tokens : List Token) : Prop :=
  ∀ rest, Token.lex (text ++ rest) = tokens ++ Token.lex rest

namespace Lexes

variable {text more : List Char} {tokens others : List Token}

theorem nil : Lexes [] [] := fun _ => rfl

theorem append (h : Lexes text tokens) (h' : Lexes more others) :
    Lexes (text ++ more) (tokens ++ others) := by
  intro rest
  calc Token.lex (text ++ more ++ rest)
    _ = Token.lex (text ++ (more ++ rest)) := by rw [List.append_assoc]
    _ = tokens ++ (others ++ Token.lex rest) := by rw [h, h']
    _ = tokens ++ others ++ Token.lex rest := by rw [List.append_assoc]

theorem lex_eq (h : Lexes text tokens) : Token.lex text = tokens := by
  have hall := h []
  rwa [List.append_nil, Token.lex.eq_1, List.append_nil] at hall

/-- One word, from how it is read. -/
theorem of_read {c : Char} {cs : List Char} {token : Token} (hspace : Token.isSpace c = false)
    (hread : ∀ rest, Token.read c (cs ++ rest) = some (token, rest)) : Lexes (c :: cs) [token] := by
  intro rest
  rw [List.cons_append, lex_cons hspace (hread rest)]
  rfl

theorem string (s : String) : Lexes (writeString s) [.string (some s)] := by
  show Lexes ('"' :: (s.toList.flatMap escape ++ ['"'])) _
  refine of_read (by decide) fun rest => ?_
  have hread := readString_writeString s.toList [] rest
  rw [List.reverse_nil, List.nil_append, String.ofList_toList] at hread
  rw [List.append_assoc, List.singleton_append, Token.read, hread]
  rfl

theorem bool (b : Bool) : Lexes (writeBool b) [.bool b] := by
  cases b with
  | true => exact of_read (by decide) fun _ => rfl
  | false => exact of_read (by decide) fun _ => rfl

theorem member (name : String) (h : Lexes text tokens) :
    Lexes (writeMember name text) (.string (some name) :: .colon :: tokens) := by
  have hcolon : Lexes [':'] [.colon] := of_read (by decide) fun _ => rfl
  exact (string name).append (hcolon.append h)

theorem intercalate {texts : List (List Char)} {words : List (List Token)}
    (h : List.Forall₂ Lexes texts words) :
    Lexes (List.intercalate [','] texts) (List.intercalate [.comma] words) := by
  have hcomma : Lexes [','] [.comma] := of_read (by decide) fun _ => rfl
  induction h with
  | nil => exact nil
  | @cons text tokens texts words htext hrest ih =>
    cases hrest with
    | nil => simpa using htext
    | cons _ _ =>
      rw [List.intercalate_cons_cons, List.intercalate_cons_cons]
      exact (htext.append hcomma).append ih

theorem object {texts : List (List Char)} {words : List (List Token)}
    (h : List.Forall₂ Lexes texts words) :
    Lexes (writeObject texts)
      (.openObject :: (List.intercalate [.comma] words ++ [.closeObject])) := by
  have hopen : Lexes ['{'] [.openObject] := of_read (by decide) fun _ => rfl
  have hclose : Lexes ['}'] [.closeObject] := of_read (by decide) fun _ => rfl
  exact hopen.append ((intercalate h).append hclose)

end Lexes

theorem visible_writeBool (b : Bool) : Visible (writeBool b) := by
  cases b with
  | true => simp [Visible, writeBool]
  | false => simp [Visible, writeBool]

theorem visible_writeMember {value : List Char} (name : String) (h : Visible value) :
    Visible (writeMember name value) :=
  visible_append.mpr ⟨visible_writeString name, visible_cons.mpr ⟨by decide, h⟩⟩

theorem visible_intercalate {separator : List Char} {texts : List (List Char)}
    (hseparator : Visible separator) (h : ∀ text ∈ texts, Visible text) :
    Visible (List.intercalate separator texts) := by
  induction texts with
  | nil => exact visible_nil
  | cons text texts ih =>
    obtain ⟨htext, hrest⟩ := List.forall_mem_cons.mp h
    cases texts with
    | nil => simpa using htext
    | cons _ _ =>
      rw [List.intercalate_cons_cons]
      exact visible_append.mpr ⟨visible_append.mpr ⟨htext, hseparator⟩, ih hrest⟩

theorem visible_writeObject {members : List (List Char)} (h : ∀ member ∈ members, Visible member) :
    Visible (writeObject members) := by
  have hcomma : Visible [','] := by simp [Visible]
  have hclose : Visible ['}'] := by simp [Visible]
  have hbody : Visible (List.intercalate [','] members) := visible_intercalate hcomma h
  exact visible_cons.mpr ⟨by decide, visible_append.mpr ⟨hbody, hclose⟩⟩

section Reading

variable {σ α : Type} {record : Record σ α} {draft : σ} {name : String} {token : Token}
  {fill : Seen → Decoded σ} {rest : List Token}

/-- The name of a member as it stands behind others or first. -/
def keyTokens (first : Bool) (name : String) : List Token :=
  if first then [.string (some name)] else [.comma, .string (some name)]

theorem nextKey_keyTokens (first : Bool) (name : String) (rest : List Token) :
    nextKey first (keyTokens first name ++ rest) = .ok (some name, rest) := by
  cases first <;> rfl

namespace Record

theorem readMembers_closeObject (first : Bool) :
    record.readMembers draft first (.closeObject :: rest) = .ok (draft, rest) := by
  rw [readMembers]
  rfl

/-- One member, from its name on. -/
theorem readMembers_keyTokens (draft : σ) (first : Bool) (name : String) (token : Token)
    (rest : List Token) :
    record.readMembers draft first (keyTokens first name ++ .colon :: token :: rest) =
      match record.slot draft name with
      | .filled => .error (.duplicateField name)
      | .unknown =>
        match skip (token :: rest) with
        | none => .error .malformed
        | some rest => record.readMembers draft false rest
      | .free fill =>
        match token.seen >>= fill with
        | .error fault => .error fault
        | .ok draft => record.readMembers draft false rest := by
  rw [readMembers]
  -- the words begin with the name of a member, so one case is left
  split
  all_goals
    rename_i hkey
    rw [nextKey_keyTokens] at hkey
    cases hkey
  cases record.slot draft name with
  | filled => rfl
  | free fill => rfl
  | unknown =>
    dsimp only [skipMember]
    cases skip (token :: rest) <;> rfl

/-- A member whose field is free fills it. -/
theorem readMembers_free (filled : σ) (first : Bool) (hslot : record.slot draft name = .free fill)
    (hfill : token.seen >>= fill = .ok filled) :
    record.readMembers draft first (keyTokens first name ++ .colon :: token :: rest) =
      record.readMembers filled false rest := by
  rw [readMembers_keyTokens]
  simp only [hslot, hfill]

end Record

end Reading

end NodeRollout.Json
