import Mathlib.Algebra.Order.Field.Rat
import Mathlib.Tactic.Ring
/-!
# Decimal — decimal numbers at the front of a text

`readDecimal` reads as many digits as there are, with a fraction after a point, and leaves the rest.  It reads back what
`Nat.toDigits` and `fixed` write, before a text that does not go on with the number.
-/
namespace Decimal

/-- The last `k` digits of `n`. -/
def lastDigits : Nat → Nat → List Char
  | 0, _ => []
  | k + 1, n => lastDigits k (n / 10) ++ [(n % 10).digitChar]

/-- `n / 10 ^ k`, with `k` digits after the point. -/
def fixed (k n : Nat) : List Char := Nat.toDigits 10 (n / 10 ^ k) ++ '.' :: lastDigits k n

def readDigits (cs : List Char) : List Char × List Char := (cs.takeWhile Char.isDigit, cs.dropWhile Char.isDigit)

def readDecimal (cs : List Char) : Option (ℚ × List Char) :=
  match readDigits cs with
  | ([], _) => none
  | (whole, '.' :: rest) =>
    match readDigits rest with
    | ([], _) => none
    | (fraction, rest) =>
      some (Nat.ofDigitChars 10 whole 0 + Nat.ofDigitChars 10 fraction 0 / 10 ^ fraction.length, rest)
  | (whole, rest) => some (Nat.ofDigitChars 10 whole 0, rest)

/-- The text does not start with a digit. -/
def Ends (cs : List Char) : Prop := ∀ c ∈ cs.head?, c.isDigit = false

theorem readDigits_append {digits rest : List Char} (hdigits : ∀ c ∈ digits, c.isDigit = true) (hrest : Ends rest) :
    readDigits (digits ++ rest) = (digits, rest) := by
  have htake : rest.takeWhile Char.isDigit = [] ∧ rest.dropWhile Char.isDigit = rest := by
    cases rest with
    | nil => exact ⟨rfl, rfl⟩
    | cons c rest =>
      have hc : ¬ c.isDigit = true := Bool.eq_false_iff.1 (hrest c rfl)
      exact ⟨List.takeWhile_cons_of_neg hc, List.dropWhile_cons_of_neg hc⟩
  rw [readDigits, List.takeWhile_append_of_pos hdigits, List.dropWhile_append_of_pos hdigits, htake.1, htake.2,
    List.append_nil]

theorem isDigit_toDigits (n : Nat) : ∀ c ∈ Nat.toDigits 10 n, c.isDigit = true := fun _ hc =>
  Nat.isDigit_of_mem_toDigits (by decide) (by decide) hc

theorem length_lastDigits : ∀ k n, (lastDigits k n).length = k
  | 0, _ => rfl
  | k + 1, n => by rw [lastDigits, List.length_append, length_lastDigits, List.length_singleton]

theorem isDigit_lastDigits : ∀ k n, ∀ c ∈ lastDigits k n, c.isDigit = true
  | 0, _, _, hc => by cases hc
  | k + 1, n, c, hc => by
    rcases List.mem_append.1 hc with hc | hc
    · exact isDigit_lastDigits k _ c hc
    · rw [List.mem_singleton.1 hc, Nat.isDigit_digitChar]
      exact decide_eq_true (Nat.mod_lt _ (by decide))

theorem ofDigitChars_lastDigits : ∀ k n, Nat.ofDigitChars 10 (lastDigits k n) 0 = n % 10 ^ k
  | 0, n => by rw [lastDigits, Nat.ofDigitChars_nil, pow_zero, Nat.mod_one]
  | k + 1, n => by
    rw [lastDigits, Nat.ofDigitChars_append, ofDigitChars_lastDigits,
      Nat.ofDigitChars_cons_digitChar_of_lt_ten (Nat.mod_lt _ (by decide)), Nat.ofDigitChars_nil, pow_succ',
      Nat.mod_mul, Nat.add_comm]

/-- **A whole number is read back**, if what comes after it is neither a digit nor a point. -/
theorem readDecimal_toDigits (n : Nat) {rest : List Char} (hrest : Ends rest) (hpoint : rest.head? ≠ some '.') :
    readDecimal (Nat.toDigits 10 n ++ rest) = some ((n : ℚ), rest) := by
  unfold readDecimal
  rw [readDigits_append (isDigit_toDigits n) hrest]
  split
  · rename_i heq
    exact absurd (Prod.mk.inj heq).1 Nat.toDigits_ne_nil
  · rename_i heq
    rw [(Prod.mk.inj heq).2] at hpoint
    exact absurd rfl hpoint
  · rename_i heq
    rw [← (Prod.mk.inj heq).1, ← (Prod.mk.inj heq).2, Nat.ofDigitChars_ten_toDigits]

/-- **A number with a fraction is read back**, if what comes after it is no digit. -/
theorem readDecimal_fixed (k n : Nat) {rest : List Char} (hrest : Ends rest) :
    readDecimal (fixed (k + 1) n ++ rest) = some ((n : ℚ) / 10 ^ (k + 1), rest) := by
  have hpoint : Ends ('.' :: (lastDigits (k + 1) n ++ rest)) := fun c hc => by
    rw [← Option.some.inj hc]
    rfl
  have hne : (10 : ℚ) ^ (k + 1) ≠ 0 := pow_ne_zero _ (by decide)
  have hdiv : (n : ℚ) = 10 ^ (k + 1) * (n / 10 ^ (k + 1) : Nat) + (n % 10 ^ (k + 1) : Nat) := by
    exact_mod_cast (Nat.div_add_mod n (10 ^ (k + 1))).symm
  unfold readDecimal
  rw [fixed, List.append_assoc, List.cons_append, readDigits_append (isDigit_toDigits _) hpoint]
  split
  · rename_i heq
    exact absurd (Prod.mk.inj heq).1 Nat.toDigits_ne_nil
  · rename_i heq
    rw [← (List.cons.inj (Prod.mk.inj heq).2).2, ← (Prod.mk.inj heq).1,
      readDigits_append (isDigit_lastDigits (k + 1) n) hrest]
    split
    · rename_i heq
      have hlength := length_lastDigits (k + 1) n
      rw [(Prod.mk.inj heq).1] at hlength
      cases hlength
    · rename_i heq
      rw [← (Prod.mk.inj heq).1, ← (Prod.mk.inj heq).2, Nat.ofDigitChars_ten_toDigits, ofDigitChars_lastDigits,
        length_lastDigits]
      conv => rhs; rw [hdiv, add_div, mul_div_cancel_left₀ _ hne]
  · rename_i hno heq
    exact absurd (Prod.mk.inj heq).2.symm (hno _)

/-! ## Whole numbers with a sign -/

def signed (n : Int) : List Char := if n < 0 then '-' :: Nat.toDigits 10 n.natAbs else Nat.toDigits 10 n.natAbs

def readWhole (cs : List Char) : Option Nat :=
  if !cs.isEmpty && cs.all Char.isDigit then some (Nat.ofDigitChars 10 cs 0) else none

/-- The whole text is a number, with a sign or without. -/
def readSigned : List Char → Option Int
  | '-' :: cs => (readWhole cs).map fun n : Nat => -(n : Int)
  | '+' :: cs => (readWhole cs).map fun n : Nat => (n : Int)
  | cs => (readWhole cs).map fun n : Nat => (n : Int)

theorem readWhole_toDigits (n : Nat) : readWhole (Nat.toDigits 10 n) = some n := by
  have hall : (!(Nat.toDigits 10 n).isEmpty && (Nat.toDigits 10 n).all Char.isDigit) = true := by
    rw [Bool.and_eq_true, Bool.not_eq_true', List.isEmpty_eq_false_iff, List.all_eq_true]
    exact ⟨Nat.toDigits_ne_nil, isDigit_toDigits n⟩
  rw [readWhole, if_pos hall, Nat.ofDigitChars_ten_toDigits]

/-- **A number that is written with its sign is read back.** -/
theorem readSigned_signed (n : Int) : readSigned (signed n) = some n := by
  have hdigit := isDigit_toDigits n.natAbs
  unfold signed
  split
  · rw [readSigned, readWhole_toDigits, Option.map_some]
    exact congrArg some (by omega)
  · unfold readSigned
    split
    · rename_i heq
      rw [heq] at hdigit
      exact absurd (hdigit _ List.mem_cons_self) (by decide)
    · rename_i heq
      rw [heq] at hdigit
      exact absurd (hdigit _ List.mem_cons_self) (by decide)
    · rw [readWhole_toDigits, Option.map_some]
      exact congrArg some (by omega)

end Decimal
