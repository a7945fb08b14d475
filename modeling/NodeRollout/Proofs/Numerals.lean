import Mathlib.Data.List.TakeWhile
import NodeRollout.Json.Fault
import NodeRollout.Json.Printer

/-! The numerals of JSON. A numeral is read back from any text of it that does not go on, and an
integer from its decimal digits. -/
namespace NodeRollout.Json

namespace Numeral

variable {n : Numeral} {ds rest text power : List Char}

def Digits (ds : List Char) : Prop := ds ≠ [] ∧ ∀ c ∈ ds, c.isDigit = true

/-- A numeral has digits in each of its parts, and a leading zero stands alone. -/
structure Legal (n : Numeral) : Prop where
  whole : Digits n.whole
  leading : ∀ rest, n.whole = '0' :: rest → rest = []
  fraction : ∀ ds ∈ n.fraction, Digits ds
  exponent : ∀ e ∈ n.exponent, Digits e.2

def signText (negative : Bool) : List Char := if negative then ['-'] else []

def fractionText : Option (List Char) → List Char
  | some ds => '.' :: ds
  | none => []

/-- The texts of an exponent: its letter is in either case, and a plus sign may be left out. -/
inductive PowerText : Option (Bool × List Char) → List Char → Prop where
  | none : PowerText none []
  | minus {e : Char} {ds : List Char} (he : e = 'e' ∨ e = 'E') :
      PowerText (some (true, ds)) (e :: '-' :: ds)
  | plus {e : Char} {ds : List Char} (he : e = 'e' ∨ e = 'E') :
      PowerText (some (false, ds)) (e :: '+' :: ds)
  | bare {e : Char} {ds : List Char} (he : e = 'e' ∨ e = 'E') :
      PowerText (some (false, ds)) (e :: ds)

/-- The texts of a numeral. -/
inductive Written (n : Numeral) : List Char → Prop where
  | mk {power : List Char} (legal : n.Legal) (power_text : PowerText n.exponent power) :
      Written n (signText n.negative ++ (n.whole ++ (fractionText n.fraction ++ power)))

/-- A numeral may go on with this character. -/
def continues (c : Char) : Bool := c.isDigit || c == '.' || c == 'e' || c == 'E'

/-- The text does not go on a numeral. -/
def Ends (rest : List Char) : Prop := ∀ c ∈ rest.head?, continues c = false

section Reading

theorem digits_append (hds : ∀ c ∈ ds, c.isDigit = true)
    (hrest : ∀ c ∈ rest.head?, c.isDigit = false) : digits (ds ++ rest) = (ds, rest) := by
  rw [digits, List.takeWhile_append_of_pos hds, List.dropWhile_append_of_pos hds]
  cases rest with
  | nil => rw [List.takeWhile_nil, List.dropWhile_nil, List.append_nil]
  | cons c rest =>
    have hc : ¬ c.isDigit = true := by simp [hrest c rfl]
    rw [List.takeWhile_cons_of_neg hc, List.dropWhile_cons_of_neg hc, List.append_nil]

theorem readWhole_append (hds : Digits ds) (hleading : ∀ after, ds = '0' :: after → after = [])
    (hrest : ∀ c ∈ rest.head?, c.isDigit = false) : readWhole (ds ++ rest) = some (ds, rest) := by
  unfold readWhole
  rw [digits_append hds.2 hrest]
  split
  next hnil =>
    obtain ⟨rfl, -⟩ := Prod.mk.inj hnil
    exact absurd rfl hds.1
  next hzero =>
    obtain ⟨rfl, -⟩ := Prod.mk.inj hzero
    cases hleading _ rfl
  next heq =>
    obtain ⟨rfl, rfl⟩ := Prod.mk.inj heq
    rfl

theorem readFraction_append {fraction : Option (List Char)} (hds : ∀ ds ∈ fraction, Digits ds)
    (hrest : ∀ c ∈ rest.head?, c.isDigit = false ∧ c ≠ '.') :
    readFraction (fractionText fraction ++ rest) = some (fraction, rest) := by
  have hdigit : ∀ c ∈ rest.head?, c.isDigit = false := fun c hc => (hrest c hc).1
  cases fraction with
  | some ds =>
    have hds : Digits ds := hds ds rfl
    obtain ⟨c, cs, rfl⟩ := List.exists_cons_of_ne_nil hds.1
    rw [fractionText, List.cons_append, readFraction, digits_append hds.2 hdigit]
  | none =>
    rw [fractionText, List.nil_append, readFraction]
    rintro cs rfl
    exact (hrest '.' rfl).2 rfl

theorem readPower_append (negative : Bool) (hds : Digits ds)
    (hrest : ∀ c ∈ rest.head?, c.isDigit = false) :
    readPower negative (ds ++ rest) = some (some (negative, ds), rest) := by
  obtain ⟨c, cs, rfl⟩ := List.exists_cons_of_ne_nil hds.1
  rw [readPower, digits_append hds.2 hrest]

theorem readExponent_append {exponent : Option (Bool × List Char)}
    (h : PowerText exponent power) (hds : ∀ e ∈ exponent, Digits e.2) (hrest : Ends rest) :
    readExponent (power ++ rest) = some (exponent, rest) := by
  have hdigit : ∀ c ∈ rest.head?, c.isDigit = false := by
    intro c hc
    have hends := hrest c hc
    simp only [continues, Bool.or_eq_false_iff] at hends
    exact hends.1.1.1
  cases h with
  | none =>
    cases rest with
    | nil => rfl
    | cons c rest =>
      have hends := hrest c rfl
      simp only [continues, Bool.or_eq_false_iff, beq_eq_false_iff_ne] at hends
      have hc : ¬ (c = 'e' ∨ c = 'E') := not_or.mpr ⟨hends.1.2, hends.2⟩
      show (if c = 'e' ∨ c = 'E' then _ else some (none, c :: rest)) = _
      exact if_neg hc
  | minus he =>
    rw [List.cons_append, List.cons_append, readExponent, if_pos he]
    exact readPower_append true (hds _ rfl) hdigit
  | plus he =>
    rw [List.cons_append, List.cons_append, readExponent, if_pos he]
    exact readPower_append false (hds _ rfl) hdigit
  | @bare e ds he =>
    have hdigits : Digits ds := hds _ rfl
    obtain ⟨c, cs, rfl⟩ := List.exists_cons_of_ne_nil hdigits.1
    have hc : c.isDigit = true := hdigits.2 c List.mem_cons_self
    rw [List.cons_append, readExponent, if_pos he]
    · exact readPower_append false hdigits hdigit
    · rintro _ ⟨⟩
      cases hc
    · rintro _ ⟨⟩
      cases hc

/-- What stands behind the whole part is no digit. -/
theorem head_power {exponent : Option (Bool × List Char)} (h : PowerText exponent power)
    (hrest : Ends rest) :
    ∀ c ∈ (power ++ rest).head?, c.isDigit = false ∧ c ≠ '.' := by
  cases h with
  | none =>
    intro c hc
    have hends := hrest c hc
    simp only [continues, Bool.or_eq_false_iff, beq_eq_false_iff_ne] at hends
    exact ⟨hends.1.1.1, hends.1.1.2⟩
  | minus he | plus he | bare he =>
    rintro c ⟨⟩
    rcases he with rfl | rfl <;> decide

/-- The sign is told by the first character. -/
theorem read_signText (negative : Bool) {c : Char} (hc : c ≠ '-') (body : List Char) :
    read (signText negative ++ c :: body) = (do
      let (whole, cs) ← readWhole (c :: body)
      let (fraction, cs) ← readFraction cs
      let (exponent, cs) ← readExponent cs
      return (⟨negative, whole, fraction, exponent⟩, cs)) := by
  cases negative with
  | true => rfl
  | false =>
    rw [signText, if_neg Bool.false_ne_true, List.nil_append, read]
    rintro cs ⟨⟩
    exact hc rfl

theorem read_written (h : n.Written text) (hrest : Ends rest) :
    read (text ++ rest) = some (n, rest) := by
  cases h with
  | @mk power legal power_text =>
    have hpower := head_power power_text hrest
    have hfraction := readFraction_append legal.fraction hpower
    have hhead : ∀ c ∈ (fractionText n.fraction ++ (power ++ rest)).head?, c.isDigit = false := by
      cases hn : n.fraction with
      | some ds =>
        rintro c ⟨⟩
        rfl
      | none => exact fun c hc => (hpower c hc).1
    have hwhole := readWhole_append legal.whole legal.leading hhead
    have hexponent := readExponent_append power_text legal.exponent hrest
    obtain ⟨c, cs, hcs⟩ := List.exists_cons_of_ne_nil legal.whole.1
    have hc : c ≠ '-' := by
      rintro rfl
      have hdigit : Char.isDigit '-' = true := legal.whole.2 _ (hcs ▸ List.mem_cons_self)
      cases hdigit
    have hsign := read_signText n.negative hc (cs ++ (fractionText n.fraction ++ (power ++ rest)))
    rw [← List.cons_append, ← hcs, hwhole] at hsign
    simp only [hfraction, hexponent, Option.bind_eq_bind, Option.bind_some] at hsign
    simp only [List.append_assoc]
    exact hsign

end Reading

section Integers

variable {i : Int}

/-- The integer of a numeral that has neither fraction nor exponent. -/
def integer (n : Numeral) : Int := if n.negative then -(value n.whole) else value n.whole

/-- The numeral of an integer in decimal digits. -/
def ofInt (i : Int) : Numeral := ⟨i < 0, Nat.toDigits 10 i.natAbs, none, none⟩

theorem eq_nil_of_toDigits (k : Nat) : ∀ rest, Nat.toDigits 10 k = '0' :: rest → rest = [] := by
  -- the digits before the last one are those of a smaller number, which is not zero
  induction k using Nat.strongRecOn with
  | ind k ih =>
    intro rest hdigits
    by_cases hk : k < 10
    · rw [Nat.toDigits_of_lt_base hk] at hdigits
      exact (List.cons.inj hdigits).2.symm
    · have hlast := Nat.toDigits_of_base_le (b := 10) (by decide) (Nat.not_lt.mp hk)
      rw [hlast] at hdigits
      obtain ⟨c, cs, hfirst⟩ := List.exists_cons_of_ne_nil
        (Nat.toDigits_ne_nil : Nat.toDigits 10 (k / 10) ≠ [])
      rw [hfirst, List.cons_append] at hdigits
      obtain ⟨rfl, -⟩ := List.cons.inj hdigits
      obtain rfl := ih (k / 10) (by omega) cs hfirst
      have hvalue : Nat.ofDigitChars 10 (Nat.toDigits 10 (k / 10)) 0 = k / 10 :=
        Nat.ofDigitChars_ten_toDigits
      rw [hfirst] at hvalue
      have hzero : Nat.ofDigitChars 10 ['0'] 0 = 0 := rfl
      omega

theorem legal_ofInt (i : Int) : (ofInt i).Legal where
  whole := ⟨Nat.toDigits_ne_nil, fun _ hc =>
    Nat.isDigit_of_mem_toDigits (by decide) (by decide) hc⟩
  leading := eq_nil_of_toDigits i.natAbs
  fraction := nofun
  exponent := nofun

theorem toList_toString (i : Int) :
    (toString i).toList = signText (i < 0) ++ Nat.toDigits 10 i.natAbs := by
  cases i with
  | ofNat k =>
    have hsign : ¬ (Int.ofNat k < 0) := Int.not_lt.mpr (Int.natCast_nonneg k)
    rw [decide_eq_false hsign]
    exact Nat.toList_repr
  | negSucc k =>
    rw [decide_eq_true (Int.negSucc_lt_zero k)]
    show ("-" ++ (k + 1).repr).toList = _
    rw [String.toList_append, Nat.toList_repr]
    rfl

theorem written_ofInt (i : Int) : (ofInt i).Written (writeInt i) := by
  have htext : writeInt i = signText (i < 0) ++ (Nat.toDigits 10 i.natAbs ++ ([] ++ [])) := by
    rw [writeInt, toList_toString, List.append_nil, List.append_nil]
  rw [htext]
  exact .mk (legal_ofInt i) .none

theorem value_toDigits (k : Nat) : value (Nat.toDigits 10 k) = k := Nat.ofDigitChars_ten_toDigits

end Integers

end Numeral

/-- An integer as the value of a numeral. -/
def Number.ofInt (i : Int) : Number := if 0 ≤ i then .natural i.toNat else .negative i.natAbs

/-- An integer of 64 bits with sign is kept as what it is. -/
theorem Numeral.number?_ofInt (i : Int64) :
    (ofInt i.toInt).number? = some (Number.ofInt i.toInt) := by
  have hleast := i.le_toInt
  have hmost := i.toInt_lt
  have hbound : (1 : Nat) <<< 64 = 2 ^ 64 ∧ (1 : Nat) <<< 63 = 2 ^ 63 := by decide
  unfold number?
  simp only [ofInt, Option.isNone_none, Bool.and_self, if_true, value_toDigits]
  rw [hbound.1, hbound.2, Number.ofInt]
  by_cases hi : 0 ≤ i.toInt
  · have hnatural : (!decide (i.toInt < 0) && decide (i.toInt.natAbs < 2 ^ 64)) = true := by
      rw [decide_eq_false (Int.not_lt.mpr hi), Bool.not_false, Bool.true_and, decide_eq_true_eq]
      omega
    have habs : i.toInt.natAbs = i.toInt.toNat := by omega
    rw [if_pos hnatural, if_pos hi, habs]
  · have hsign : i.toInt < 0 := Int.not_le.mp hi
    have hk : 0 < i.toInt.natAbs ∧ i.toInt.natAbs ≤ 2 ^ 63 := by omega
    have hnatural : ¬ (!decide (i.toInt < 0) && decide (i.toInt.natAbs < 2 ^ 64)) = true := by
      rw [decide_eq_true hsign, Bool.not_true, Bool.false_and]
      exact Bool.false_ne_true
    have hnegative : (decide (i.toInt < 0) && decide (0 < i.toInt.natAbs) &&
        decide (i.toInt.natAbs ≤ 2 ^ 63)) = true := by
      rw [decide_eq_true hsign, decide_eq_true hk.1, decide_eq_true hk.2]
      rfl
    rw [if_neg hnatural, if_pos hnegative, if_neg hi]

theorem Seen.asInt64_ofInt (i : Int64) : (Seen.number (.ofInt i.toInt)).asInt64 = .ok i := by
  have hleast := i.le_toInt
  have hmost := i.toInt_lt
  rw [Number.ofInt]
  split
  next hi =>
    have hk : i.toInt.toNat < 1 <<< 63 := by
      rw [Nat.one_shiftLeft]
      omega
    have hcast : ((i.toInt.toNat : Nat) : Int) = i.toInt := Int.toNat_of_nonneg hi
    rw [asInt64, if_pos hk, hcast, Int64.ofInt_toInt]
  next hi =>
    have hcast : -((i.toInt.natAbs : Nat) : Int) = i.toInt := by omega
    rw [asInt64, hcast, Int64.ofInt_toInt]

/-- The numeral is no integer of 64 bits with sign: it has a fraction or an exponent, or it is out of
range. -/
def Numeral.Foreign (n : Numeral) : Prop :=
  n.fraction.isSome ∨ n.exponent.isSome ∨ n.integer < Int64.minValue.toInt ∨
    Int64.maxValue.toInt < n.integer

theorem Seen.asInt64_foreign {n : Numeral} {x : Number} (h : n.Foreign) (hx : n.number? = some x) :
    ∃ fault, (Seen.number x).asInt64 = .error fault := by
  have hreal : ∀ {bits : Option UInt64}, bits.map Number.real = some x →
      ∃ fault, (Seen.number x).asInt64 = .error fault := by
    intro bits hbits
    obtain ⟨bits, -, rfl⟩ := Option.map_eq_some_iff.mp hbits
    exact ⟨_, rfl⟩
  have hbound : (1 : Nat) <<< 64 = 2 ^ 64 ∧ (1 : Nat) <<< 63 = 2 ^ 63 := by decide
  unfold Numeral.number? at hx
  split at hx
  next hplain =>
    obtain ⟨hfraction, hexponent⟩ := Bool.and_eq_true_iff.mp hplain
    have hrange : n.integer < -2 ^ 63 ∨ 2 ^ 63 ≤ n.integer := by
      rcases h with h | h | h
      · simp [Option.isNone_iff_eq_none.mp hfraction] at h
      · simp [Option.isNone_iff_eq_none.mp hexponent] at h
      · exact h
    rw [Numeral.integer] at hrange
    rw [hbound.1, hbound.2] at hx
    dsimp only at hx
    split at hx
    next hnatural =>
      cases hx
      have hsign : n.negative = false := by simpa using (Bool.and_eq_true_iff.mp hnatural).1
      have hlarge : ¬ Numeral.value n.whole < 1 <<< 63 := by
        rw [hbound.2]
        simp only [hsign, Bool.false_eq_true, if_false] at hrange
        omega
      exact ⟨_, if_neg hlarge⟩
    next =>
      split at hx
      next hnegative =>
        simp only [Bool.and_eq_true, decide_eq_true_eq] at hnegative
        simp only [hnegative, if_true] at hrange
        omega
      next => exact hreal hx
  next => exact hreal hx

end NodeRollout.Json
