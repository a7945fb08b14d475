import NodeRollout.Proofs.JsonText
import NodeRollout.Proofs.Spelling

/-! The words of a value. A value can be passed over and is read back from its words, whatever is
open around it and whatever follows. -/
namespace NodeRollout.Json

/-- What stands before an element of an array. -/
def commaTokens (first : Bool) : List Token := if first then [] else [.comma]

mutual

/-- The words of a value; what is unreadable is a number that is too large. -/
def Value.tokens : Value → List Token
  | .null => [.null]
  | .bool b => [.bool b]
  | .number n => [.number (some n)]
  | .string s => [.string (some s)]
  | .array items => .openArray :: elementTokens true items
  | .object members => .openObject :: memberTokens true members
  | .unreadable => [.number none]

/-- The words of elements up to the end of their array. -/
def elementTokens (first : Bool) : List Value → List Token
  | [] => [.closeArray]
  | value :: rest => commaTokens first ++ (value.tokens ++ elementTokens false rest)

/-- The words of members up to the end of their object. -/
def memberTokens (first : Bool) : List (String × Value) → List Token
  | [] => [.closeObject]
  | (name, value) :: rest =>
    keyTokens first name ++ .colon :: (value.tokens ++ memberTokens false rest)

end

/-- The text is one of this value: its strings and numbers are spelled in some way, with any space
around its words. -/
def Value.Text (value : Value) (text : String) : Prop := Spells text.toList value.tokens

/-- The value of a numeral. -/
def Value.ofNumeral (n : Numeral) : Value := n.number?.elim .unreadable .number

theorem Value.tokens_ofNumeral (n : Numeral) : (ofNumeral n).tokens = [.number n.number?] := by
  rw [ofNumeral]
  cases n.number? with
  | none => rfl
  | some _ => rfl

namespace Value

/-- A value begins with a word that shows its kind, and ends there unless it is a container. -/
theorem tokens_eq_cons (value : Value) :
    ∃ token rest, value.tokens = token :: rest ∧ token.seen = value.seen ∧
      token ∉ [.closeArray, .closeObject, .comma] ∧
      (value.seen ≠ .ok .sequence → value.seen ≠ .ok .map → rest = []) := by
  cases value with
  | null | bool _ | number _ | string _ | unreadable =>
    exact ⟨_, [], rfl, rfl, by simp, fun _ _ => rfl⟩
  | array items => exact ⟨_, _, rfl, rfl, by simp, fun hsequence _ => absurd rfl hsequence⟩
  | object members => exact ⟨_, _, rfl, rfl, by simp, fun _ hmap => absurd rfl hmap⟩

end Value

theorem nextElement_commaTokens (first : Bool) (value : Value) (rest : List Token) :
    nextElement first (commaTokens first ++ (value.tokens ++ rest)) =
      .ok (true, value.tokens ++ rest) := by
  obtain ⟨token, more, htokens, -, hmark, -⟩ := value.tokens_eq_cons
  rw [htokens]
  cases first with
  | true => cases token <;> first | rfl | simp at hmark
  | false => cases token <;> first | rfl | simp at hmark

section Skipping

variable {stack : List Enclosing} {rest : List Token}

theorem skipValue_openArray (value : Value) :
    skipValue stack (.openArray :: (value.tokens ++ rest)) =
      skipValue (.array :: stack) (value.tokens ++ rest) := by
  obtain ⟨token, more, htokens, -, hclose, -⟩ := value.tokens_eq_cons
  simp only [List.mem_cons, not_or] at hclose
  rw [htokens, List.cons_append, skipValue]
  intro after hafter
  exact hclose.1 (List.cons.inj hafter).1

mutual

theorem skipValue_tokens (stack : List Enclosing) (value : Value) (rest : List Token) :
    skipValue stack (value.tokens ++ rest) = skipRest stack rest := by
  cases value with
  | null | bool _ | number _ | string _ | unreadable => rfl
  | array items =>
    cases items with
    | nil => rfl
    | cons first items =>
      calc skipValue stack ((Value.array (first :: items)).tokens ++ rest)
        _ = skipValue stack
              (.openArray :: (first.tokens ++ (elementTokens false items ++ rest))) := by
            rw [Value.tokens, elementTokens, commaTokens, if_pos rfl, List.nil_append,
              List.cons_append, List.append_assoc]
        _ = skipValue (.array :: stack) (first.tokens ++ (elementTokens false items ++ rest)) :=
            skipValue_openArray first
        _ = skipRest (.array :: stack) (elementTokens false items ++ rest) :=
            skipValue_tokens _ first _
        _ = skipRest stack rest := skipRest_elementTokens stack items rest
  | object members =>
    cases members with
    | nil => rfl
    | cons first members =>
      obtain ⟨name, value⟩ := first
      calc skipValue stack ((Value.object ((name, value) :: members)).tokens ++ rest)
        _ = skipValue (.object :: stack) (value.tokens ++ memberTokens false members ++ rest) := rfl
        _ = skipRest (.object :: stack) (memberTokens false members ++ rest) := by
            rw [List.append_assoc, skipValue_tokens]
        _ = skipRest stack rest := skipRest_memberTokens stack members rest

theorem skipRest_elementTokens (stack : List Enclosing) (items : List Value) (rest : List Token) :
    skipRest (.array :: stack) (elementTokens false items ++ rest) = skipRest stack rest := by
  cases items with
  | nil => rfl
  | cons first items =>
    calc skipRest (.array :: stack) (elementTokens false (first :: items) ++ rest)
      _ = skipValue (.array :: stack) (first.tokens ++ elementTokens false items ++ rest) := rfl
      _ = skipRest (.array :: stack) (elementTokens false items ++ rest) := by
          rw [List.append_assoc, skipValue_tokens]
      _ = skipRest stack rest := skipRest_elementTokens stack items rest

theorem skipRest_memberTokens (stack : List Enclosing) (members : List (String × Value))
    (rest : List Token) :
    skipRest (.object :: stack) (memberTokens false members ++ rest) = skipRest stack rest := by
  cases members with
  | nil => rfl
  | cons first members =>
    obtain ⟨name, value⟩ := first
    calc skipRest (.object :: stack) (memberTokens false ((name, value) :: members) ++ rest)
      _ = skipValue (.object :: stack) (value.tokens ++ memberTokens false members ++ rest) := rfl
      _ = skipRest (.object :: stack) (memberTokens false members ++ rest) := by
          rw [List.append_assoc, skipValue_tokens]
      _ = skipRest stack rest := skipRest_memberTokens stack members rest

end

theorem skip_tokens (value : Value) (rest : List Token) :
    skip (value.tokens ++ rest) = some rest := by
  rw [skip, skipValue_tokens, skipRest]

theorem skipMember_tokens (value : Value) (rest : List Token) :
    skipMember (.colon :: (value.tokens ++ rest)) = .ok rest := by
  rw [skipMember, skip_tokens]

end Skipping

section Reading

variable {stack : List Partial} {rest : List Token}

theorem readValue_openArray (value : Value) :
    readValue stack (.openArray :: (value.tokens ++ rest)) =
      readValue (.items [] :: stack) (value.tokens ++ rest) := by
  obtain ⟨token, more, htokens, -, hclose, -⟩ := value.tokens_eq_cons
  simp only [List.mem_cons, not_or] at hclose
  rw [htokens, List.cons_append, readValue]
  intro after hafter
  exact hclose.1 (List.cons.inj hafter).1

/-- Members whose names were all read. -/
def named (members : List (String × Value)) : List (Option String × Value) :=
  members.map fun (name, value) => (some name, value)

theorem mapM_named (members : List (String × Value)) :
    (named members).mapM (fun (name, value) => name.map (·, value)) = some members := by
  induction members with
  | nil => rfl
  | cons member members ih =>
    rw [named, List.map_cons, List.mapM_cons, ← named, ih]
    rfl

theorem Value.ofMembers_named (members : List (String × Value)) :
    ofMembers (named members) = .object members := by
  rw [ofMembers, mapM_named]

mutual

theorem readValue_tokens (stack : List Partial) (value : Value) (rest : List Token) :
    readValue stack (value.tokens ++ rest) = readRest stack value rest := by
  cases value with
  | null | bool _ | number _ | string _ | unreadable => rfl
  | array items =>
    cases items with
    | nil => rfl
    | cons first items =>
      calc readValue stack ((Value.array (first :: items)).tokens ++ rest)
        _ = readValue stack
              (.openArray :: (first.tokens ++ (elementTokens false items ++ rest))) := by
            rw [Value.tokens, elementTokens, commaTokens, if_pos rfl, List.nil_append,
              List.cons_append, List.append_assoc]
        _ = readValue (.items [] :: stack) (first.tokens ++ (elementTokens false items ++ rest)) :=
            readValue_openArray first
        _ = readRest (.items [] :: stack) first (elementTokens false items ++ rest) :=
            readValue_tokens _ first _
        _ = readRest stack (.array (first :: items)) rest :=
            readRest_elementTokens stack [] first items rest
  | object members =>
    cases members with
    | nil => rfl
    | cons first members =>
      obtain ⟨name, value⟩ := first
      calc readValue stack ((Value.object ((name, value) :: members)).tokens ++ rest)
        _ = readValue (.members [] (some name) :: stack)
              (value.tokens ++ memberTokens false members ++ rest) := rfl
        _ = readRest (.members [] (some name) :: stack) value
              (memberTokens false members ++ rest) := by
            rw [List.append_assoc, readValue_tokens]
        _ = readRest stack (.ofMembers (named ((name, value) :: members))) rest :=
            readRest_memberTokens stack [] name value members rest
        _ = readRest stack (.object ((name, value) :: members)) rest := by
            rw [Value.ofMembers_named]

theorem readRest_elementTokens (stack : List Partial) (done : List Value) (value : Value)
    (items : List Value) (rest : List Token) :
    readRest (.items done :: stack) value (elementTokens false items ++ rest) =
      readRest stack (.array (done.reverse ++ value :: items)) rest := by
  cases items with
  | nil =>
    show readRest stack (.array (value :: done).reverse) rest = _
    rw [List.reverse_cons]
  | cons next items =>
    calc readRest (.items done :: stack) value (elementTokens false (next :: items) ++ rest)
      _ = readValue (.items (value :: done) :: stack)
            (next.tokens ++ elementTokens false items ++ rest) := rfl
      _ = readRest (.items (value :: done) :: stack) next (elementTokens false items ++ rest) := by
          rw [List.append_assoc, readValue_tokens]
      _ = readRest stack (.array ((value :: done).reverse ++ next :: items)) rest :=
          readRest_elementTokens stack (value :: done) next items rest
      _ = readRest stack (.array (done.reverse ++ value :: next :: items)) rest := by
          rw [List.reverse_cons, List.append_assoc, List.singleton_append]

theorem readRest_memberTokens (stack : List Partial) (done : List (Option String × Value))
    (name : String) (value : Value) (members : List (String × Value)) (rest : List Token) :
    readRest (.members done (some name) :: stack) value (memberTokens false members ++ rest) =
      readRest stack (.ofMembers (done.reverse ++ named ((name, value) :: members))) rest := by
  cases members with
  | nil =>
    show readRest stack (.ofMembers ((some name, value) :: done).reverse) rest = _
    rw [List.reverse_cons]
    rfl
  | cons next members =>
    obtain ⟨nextName, next⟩ := next
    calc readRest (.members done (some name) :: stack) value
          (memberTokens false ((nextName, next) :: members) ++ rest)
      _ = readValue (.members ((some name, value) :: done) (some nextName) :: stack)
            (next.tokens ++ memberTokens false members ++ rest) := rfl
      _ = readRest (.members ((some name, value) :: done) (some nextName) :: stack) next
            (memberTokens false members ++ rest) := by
          rw [List.append_assoc, readValue_tokens]
      _ = readRest stack (.ofMembers
            (((some name, value) :: done).reverse ++ named ((nextName, next) :: members))) rest :=
          readRest_memberTokens stack _ nextName next members rest
      _ = readRest stack (.ofMembers
            (done.reverse ++ named ((name, value) :: (nextName, next) :: members))) rest := by
          rw [List.reverse_cons, List.append_assoc, List.singleton_append]
          rfl

end

/-- A value is read from its words as long as it fits. -/
theorem Value.read_tokens (limit : Nat) (value : Value) (rest : List Token) :
    Value.read limit (value.tokens ++ rest) =
      if value.fits limit then some (value, rest) else none := by
  rw [Value.read, readValue_tokens, readRest, Option.filter_some]

end Reading

section Writing

variable {text more : List Char} {token : Token} {tokens others : List Token}

/-- A mark of one character ends at once. -/
theorem Spells.mark {c : Char} {rest : List Char} (h : ([c], token) ∈ fixedWords)
    (hmore : Spells rest tokens) : Spells (c :: rest) (token :: tokens) := by
  apply Spells.word (.fixed h)
  · intro x hx
    subst hx
    simp [fixedWords] at h
  · exact hmore

/-- The text spells the words before everything that does not go on a numeral. -/
def Utters (text : List Char) (tokens : List Token) : Prop :=
  ∀ rest others, Numeral.Ends rest → Spells rest others → Spells (text ++ rest) (tokens ++ others)

namespace Utters

theorem word (h : Word text token) : Utters text [token] := by
  intro rest others hends hrest
  exact .word h (fun _ _ => hends) hrest

theorem append (h : Utters text tokens) (h' : Utters more others)
    (hends : ∀ rest, Numeral.Ends (more ++ rest)) : Utters (text ++ more) (tokens ++ others) := by
  intro rest after hafter hrest
  rw [List.append_assoc, List.append_assoc]
  apply h
  · exact hends rest
  · exact h' rest after hafter hrest

theorem string (s : String) : Utters (writeString s) [.string (some s)] :=
  word (.string (stringText_writeString s))

theorem bool (b : Bool) : Utters (writeBool b) [.bool b] := by
  cases b with
  | true => exact word (.fixed (by simp [writeBool, fixedWords]))
  | false => exact word (.fixed (by simp [writeBool, fixedWords]))

theorem numeral {n : Numeral} (h : n.Written text) : Utters text (Value.ofNumeral n).tokens := by
  rw [Value.tokens_ofNumeral]
  exact word (.number h)

theorem mark {c : Char} (h : Utters text tokens) (hmark : ([c], token) ∈ fixedWords) :
    Utters (c :: text) (token :: tokens) :=
  fun rest others hends hrest => .mark hmark (h rest others hends hrest)

theorem spells (h : Utters text tokens) : Spells text tokens := by
  have hend : Numeral.Ends [] := by simp [Numeral.Ends]
  have hall := h [] [] hend .nil
  rwa [List.append_nil, List.append_nil] at hall

end Utters

/-- The words of a member. -/
def memberWords (member : String × Value) : List Token :=
  keyTokens true member.1 ++ .colon :: member.2.tokens

/-- The text is one of this member. -/
def UttersMember (text : List Char) (member : String × Value) : Prop :=
  ∃ value, text = writeMember member.1 value ∧ Utters value member.2.tokens

theorem ends_cons {c : Char} (h : Numeral.continues c = false) (rest : List Char) :
    Numeral.Ends (c :: rest) := by
  intro d hd
  rwa [← Option.some.inj hd]

theorem UttersMember.utters {member : String × Value} (h : UttersMember text member) :
    Utters text (memberWords member) := by
  obtain ⟨written, rfl, hwritten⟩ := h
  have hbody : Utters (':' :: written) (.colon :: member.2.tokens) :=
    hwritten.mark (by simp [fixedWords])
  -- the name ends before its colon, so only the value has to end before what follows
  exact (Utters.string member.1).append hbody fun rest => ends_cons (by decide) _

/-- Parts with commas between them, up to the mark that ends them. -/
theorem utters_joined {α : Type} {words : α → List Token} {close : Char} {closing : Token}
    (hclose : ([close], closing) ∈ fixedWords) (hends : Numeral.continues close = false)
    {texts : List (List Char)} {parts : List α}
    (h : List.Forall₂ (fun text part => Utters text (words part)) texts parts) :
    Utters (List.intercalate [','] texts ++ [close])
      (List.intercalate [.comma] (parts.map words) ++ [closing]) := by
  have hend : Utters [close] [closing] := .word (.fixed hclose)
  induction h with
  | nil => exact hend
  | @cons text part texts parts hfirst hrest ih =>
    cases hrest with
    | nil => simpa using hfirst.append hend (ends_cons hends)
    | @cons next nextPart texts parts hnext hmore =>
      -- behind the comma the rest is what it would be at the beginning
      have hcomma : ([','], Token.comma) ∈ fixedWords := by simp [fixedWords]
      have htail := ih.mark hcomma
      have hall := hfirst.append htail fun rest => ends_cons (by decide) _
      simpa [List.intercalate_cons_cons] using hall

theorem elementTokens_eq (items : List Value) : elementTokens true items =
    List.intercalate [.comma] (items.map Value.tokens) ++ [.closeArray] := by
  induction items with
  | nil => rfl
  | cons item items ih =>
    cases items with
    | nil => simp [elementTokens, commaTokens]
    | cons next items =>
      show item.tokens ++ .comma :: elementTokens true (next :: items) = _
      rw [ih]
      simp [List.intercalate_cons_cons]

theorem memberTokens_eq (members : List (String × Value)) : memberTokens true members =
    List.intercalate [.comma] (members.map memberWords) ++ [.closeObject] := by
  induction members with
  | nil => rfl
  | cons member members ih =>
    cases members with
    | nil => simp [memberTokens, memberWords]
    | cons next members =>
      have hcons : memberTokens true (member :: next :: members) =
          memberWords member ++ .comma :: memberTokens true (next :: members) := by
        simp [memberTokens, memberWords, keyTokens]
      rw [hcons, ih]
      simp [List.intercalate_cons_cons]

/-- The compact text of an array spells it. -/
theorem Utters.array {texts : List (List Char)} {items : List Value}
    (h : List.Forall₂ (fun text item => Utters text item.tokens) texts items) :
    Utters ('[' :: (List.intercalate [','] texts ++ [']'])) (Value.array items).tokens := by
  rw [Value.tokens, elementTokens_eq]
  exact (utters_joined (by simp [fixedWords]) (by decide) h).mark (by simp [fixedWords])

/-- The compact text of an object spells it. -/
theorem Utters.object {texts : List (List Char)} {members : List (String × Value)}
    (h : List.Forall₂ UttersMember texts members) :
    Utters (writeObject texts) (Value.object members).tokens := by
  rw [Value.tokens, memberTokens_eq]
  have hparts := h.imp fun _ _ hmember => hmember.utters
  exact (utters_joined (by simp [fixedWords]) (by decide) hparts).mark (by simp [fixedWords])

theorem Utters.text_ofList {value : Value} (h : Utters text value.tokens) :
    value.Text (String.ofList text) := by
  rw [Value.Text, String.toList_ofList]
  exact h.spells

end Writing

end NodeRollout.Json
