import Mathlib.Algebra.Order.Ring.Int
import Mathlib.Tactic.Positivity
import Zipkin.Base.Rounding
/-!
# Binary64 — floating-point numbers of 64 bits

Each finite number is a whole multiple of the least positive one, `2 ^ -1074`, with at most 53 significant bits, and the
result of an operation is the number nearest to the exact one.  The two zeros are one here, which no comparison tells apart.
-/
namespace Binary64

open Rounding

inductive Double where
  | nan
  | negInf
  | finite (n : Int) (representable : nearestInt 53 n = n)
  | posInf
deriving DecidableEq

namespace Double

/-- The least positive number is `2 ^ -1074`. -/
@[irreducible] def leastExponent : Nat := 1074

/-- `2 ^ 1024`, where the finite numbers end. -/
def limit : Int := 2 ^ (1024 + leastExponent)

/-- The number nearest to a multiple of the least positive one. -/
def round (n : Int) : Double :=
  if limit ≤ nearestInt 53 n then posInf
  else if nearestInt 53 n ≤ -limit then negInf
  else finite (nearestInt 53 n) (nearestInt_nearestInt (by decide) n)

/-- 1, in multiples of the least positive number. -/
def scale : Nat := 2 ^ leastExponent

/-- The conversion of a whole number. -/
def ofInt (n : Int) : Double := round (n * scale)

def sub : Double → Double → Double
  | nan, _ | _, nan | posInf, posInf | negInf, negInf => nan
  | posInf, _ | _, negInf => posInf
  | negInf, _ | _, posInf => negInf
  | finite m _, finite n _ => round (m - n)

/-- The product with `2 ^ k`. -/
def mulTwoPow (k : Nat) : Double → Double
  | finite n _ => round (n * 2 ^ k)
  | x => x

/-- `<=`, in which `nan` is with no number. -/
def le : Double → Double → Bool
  | nan, _ | _, nan => false
  | negInf, _ | _, posInf => true
  | finite m _, finite n _ => decide (m ≤ n)
  | _, _ => false

/-- `<` -/
def lt : Double → Double → Bool
  | nan, _ | _, nan => false
  | _, negInf | posInf, _ => false
  | negInf, _ | _, posInf => true
  | finite m _, finite n _ => decide (m < n)

/-! ## Order -/

theorem lt_of_lt_of_le {x y z : Double} (h : x.lt y = true) (h' : y.le z = true) : x.lt z = true := by
  cases y with
  | nan => cases h'
  | negInf => cases x <;> cases h
  | posInf =>
    cases z with
    | posInf => exact h
    | nan | negInf | finite => cases h'
  | finite n =>
    cases z with
    | nan | negInf => cases h'
    | posInf =>
      cases x with
      | nan | posInf => cases h
      | negInf | finite => rfl
    | finite k =>
      cases x with
      | nan | posInf => cases h
      | negInf => rfl
      | finite m => exact decide_eq_true ((of_decide_eq_true h).trans_le (of_decide_eq_true h'))

theorem lt_of_le_of_lt {x y z : Double} (h : x.le y = true) (h' : y.lt z = true) : x.lt z = true := by
  cases y with
  | nan => cases h'
  | posInf => cases z <;> cases h'
  | negInf =>
    cases x with
    | negInf => exact h'
    | nan | posInf | finite => cases h
  | finite n =>
    cases x with
    | nan | posInf => cases h
    | negInf =>
      cases z with
      | nan | negInf => cases h'
      | posInf | finite => rfl
    | finite m =>
      cases z with
      | nan | negInf => cases h'
      | posInf => rfl
      | finite k => exact decide_eq_true ((of_decide_eq_true h).trans_lt (of_decide_eq_true h'))

theorem round_ne_nan (n : Int) : round n ≠ nan := by
  unfold round
  split
  · nofun
  · split <;> nofun

theorem two_pow_lt_limit {e : Nat} (h : e < 1024 + leastExponent) : 2 ^ e < limit := pow_lt_pow_right₀ (by decide) h

theorem neg_limit_lt : -limit < 0 := neg_neg_of_pos (pow_pos (by decide) _)

theorem round_eq {n : Int} (hle : -limit < nearestInt 53 n) (hlt : nearestInt 53 n < limit) :
    round n = finite (nearestInt 53 n) (nearestInt_nearestInt (by decide) n) := by
  rw [round, if_neg (Int.not_le.2 hlt), if_neg (Int.not_le.2 hle)]

theorem round_eq_finite {n : Int} (representable : nearestInt 53 n = n) (hle : -limit < n) (hlt : n < limit) :
    round n = finite n representable := by
  rw [round_eq (by rwa [representable]) (by rwa [representable]), finite.injEq, representable]

theorem round_of_natAbs_le {n : Int} (h : n.natAbs ≤ 2 ^ 53) :
    round n = finite n (nearestInt_eq_self (by decide) h) := by
  have hpow : 2 ^ 53 < limit := two_pow_lt_limit (by omega)
  exact round_eq_finite _ (by omega) (by omega)

theorem nearest_two_pow (e : Nat) : nearest 53 (2 ^ e) = 2 ^ e := by
  have h := nearest_mul_two_pow (p := 53) (by decide) (k := 1) (by decide) e
  rwa [Nat.one_mul] at h

theorem two_pow_mul_scale (k : Nat) : 2 ^ k * scale = 2 ^ (k + leastExponent) := (Nat.pow_add 2 k leastExponent).symm

theorem scale_pos : 0 < scale := Nat.two_pow_pos leastExponent

theorem nearest_two_pow_mul_scale (k : Nat) : nearest 53 (2 ^ k * scale) = 2 ^ k * scale := by
  rw [two_pow_mul_scale, nearest_two_pow]

theorem nearest_scale : nearest 53 scale = scale := by
  have h := nearest_two_pow_mul_scale 0
  rwa [Nat.pow_zero, Nat.one_mul] at h

theorem two_pow_mul_scale_lt_limit {k : Nat} (h : k < 1024) : (2 ^ k * scale : Nat) < limit := by
  rw [two_pow_mul_scale, Nat.cast_pow]
  exact two_pow_lt_limit (Nat.add_lt_add_right h _)

/-- A number that is not negative and not too great. -/
theorem round_of_eq_natCast {m : Int} {n k : Nat} (hm : m = n) (h : n ≤ 2 ^ k * scale) (hk : k < 1024) :
    ∃ representable, round m = finite (nearest 53 n : Nat) representable := by
  subst hm
  have hle : nearest 53 n ≤ 2 ^ k * scale := nearest_two_pow_mul_scale k ▸ nearest_mono (by decide) h
  have hlt : ((nearest 53 n : Nat) : Int) < limit := (Int.ofNat_le.2 hle).trans_lt (two_pow_mul_scale_lt_limit hk)
  exact ⟨_, round_eq (neg_limit_lt.trans_le (Int.natCast_nonneg _)) hlt⟩

theorem round_of_nearest_eq {m : Int} {n k : Nat} (hm : m = n) (hn : nearest 53 n = n) (h : n ≤ 2 ^ k * scale)
    (hk : k < 1024) :
    ∃ representable, round m = finite n representable := by
  have hround := round_of_eq_natCast hm h hk
  rwa [hn] at hround

theorem ofInt_one : ∃ representable, ofInt 1 = finite scale representable :=
  round_of_nearest_eq (k := 0) (Int.one_mul _) nearest_scale (by rw [Nat.pow_zero, Nat.one_mul]) (by decide)

theorem finite_lt_round {m n : Int} {hm : nearestInt 53 m = m} (hlt : m < nearestInt 53 n) (hle : -limit < m) :
    (finite m hm).lt (round n) = true := by
  unfold round
  split
  · rfl
  · rw [if_neg (Int.not_le.2 (hle.trans hlt))]
    exact decide_eq_true hlt

/-- **Rounding keeps the order.** -/
theorem round_mono {m n : Int} (h : m ≤ n) : (round m).le (round n) = true := by
  have hnearest : nearestInt 53 m ≤ nearestInt 53 n := nearestInt_mono (by decide) h
  unfold round
  split
  · rename_i hm
    rw [if_pos (hm.trans hnearest)]
    rfl
  · split
    · rename_i hm hm'
      split
      · rfl
      · split <;> rfl
    · rename_i hm hm'
      split
      · rfl
      · rw [if_neg (fun hn => hm' (hnearest.trans hn))]
        exact decide_eq_true hnearest

theorem negInf_le {x : Double} (h : x ≠ nan) : negInf.le x = true := by
  cases x <;> first | rfl | exact absurd rfl h

theorem le_posInf {x : Double} (h : x ≠ nan) : x.le posInf = true := by
  cases x <;> first | rfl | exact absurd rfl h

/-- **The more is subtracted from a number, the less is left.** -/
theorem finite_sub_le {m : Int} {hm : nearestInt 53 m = m} {x y : Double} (h : x.le y = true) :
    ((finite m hm).sub y).le ((finite m hm).sub x) = true := by
  cases x with
  | nan => cases h
  | negInf =>
    cases y with
    | nan => cases h
    | negInf | posInf => rfl
    | finite n => exact le_posInf (round_ne_nan _)
  | posInf =>
    cases y with
    | nan | negInf | finite => cases h
    | posInf => rfl
  | finite n =>
    cases y with
    | nan | negInf => cases h
    | posInf => exact negInf_le (round_ne_nan _)
    | finite k => exact round_mono (Int.sub_le_sub_left (of_decide_eq_true h) m)

theorem mulTwoPow_mono (k : Nat) {x y : Double} (h : x.le y = true) : (x.mulTwoPow k).le (y.mulTwoPow k) = true := by
  cases x with
  | nan => cases h
  | negInf =>
    cases y with
    | nan => cases h
    | negInf | posInf => rfl
    | finite n => exact negInf_le (round_ne_nan _)
  | posInf =>
    cases y with
    | nan | negInf | finite => cases h
    | posInf => rfl
  | finite m =>
    cases y with
    | nan | negInf => cases h
    | posInf => exact le_posInf (round_ne_nan _)
    | finite n =>
      exact round_mono (Int.mul_le_mul_of_nonneg_right (of_decide_eq_true h) (Int.le_of_lt (Int.pow_pos (by decide))))

end Double
end Binary64
