import Mathlib.Algebra.Order.Chebyshev
import Mathlib.Analysis.Convex.Combination
/-!
# CenterMass — averages by weights

The center of mass of numbers, with weights that are not negative, lies within the bounds of the numbers and is monotone in
them.  Weights that are the smaller the larger the number make it at most the plain mean (`centerMass_le_mean`).  What a
number that grows adds to it is its share of the weights, and of two numbers the one with the larger weight adds more
(`centerMass_update_le_update`).
-/
namespace CenterMass

open Finset

variable {ι K : Type*} [Field K] {s : Finset ι} {w z z' : ι → K}

/-- **What a number that grows adds to the average.** -/
theorem centerMass_update_add [DecidableEq ι] {i : ι} (hi : i ∈ s) (d : K) :
    s.centerMass w (Function.update z i (z i + d)) = s.centerMass w z + w i / (∑ i ∈ s, w i) * d := by
  have hterm : ∀ j ∈ s, w j • Function.update z i (z i + d) j = w j • z j + if j = i then w i * d else 0 := by
    intro j _
    by_cases hj : j = i
    · subst hj
      rw [Function.update_self, if_pos rfl, smul_eq_mul, smul_eq_mul, mul_add]
    · rw [Function.update_of_ne hj, if_neg hj, add_zero]
  rw [centerMass, sum_congr rfl hterm, sum_add_distrib, sum_ite_eq' s i, if_pos hi, smul_add, ← centerMass, smul_eq_mul,
    ← mul_assoc, ← div_eq_inv_mul]

variable [LinearOrder K] [IsStrictOrderedRing K]

theorem le_centerMass {a : K} (hw : ∀ i ∈ s, 0 ≤ w i) (htotal : 0 < ∑ i ∈ s, w i) (h : ∀ i ∈ s, a ≤ z i) :
    a ≤ s.centerMass w z :=
  (le_inf' _ _ h).trans (inf_le_centerMass hw htotal)

theorem centerMass_le {a : K} (hw : ∀ i ∈ s, 0 ≤ w i) (htotal : 0 < ∑ i ∈ s, w i) (h : ∀ i ∈ s, z i ≤ a) :
    s.centerMass w z ≤ a :=
  (centerMass_le_sup hw htotal).trans (sup'_le _ _ h)

theorem centerMass_mono (hw : ∀ i ∈ s, 0 ≤ w i) (h : ∀ i ∈ s, z i ≤ z' i) : s.centerMass w z ≤ s.centerMass w z' := by
  have hsum : ∑ i ∈ s, w i • z i ≤ ∑ i ∈ s, w i • z' i :=
    sum_le_sum fun i hi => smul_le_smul_of_nonneg_left (h i hi) (hw i hi)
  exact smul_le_smul_of_nonneg_left hsum (inv_nonneg.2 (sum_nonneg hw))

/-- **The larger a number, the smaller its weight**: the average is at most the mean. -/
theorem centerMass_le_mean (htotal : 0 < ∑ i ∈ s, w i) (h : AntivaryOn w z s) :
    s.centerMass w z ≤ (∑ i ∈ s, z i) / s.card := by
  have hne : s.Nonempty := nonempty_of_ne_empty fun hempty => by
    rw [hempty, sum_empty] at htotal
    exact lt_irrefl 0 htotal
  have hcard : (0 : K) < s.card := Nat.cast_pos.2 hne.card_pos
  rw [centerMass, smul_eq_mul, ← div_eq_inv_mul, div_le_div_iff₀ htotal hcard, mul_comm, mul_comm (∑ i ∈ s, z i)]
  exact h.card_mul_sum_le_sum_mul_sum

/-- The number with the larger weight adds more to the average. -/
theorem centerMass_update_le_update [DecidableEq ι] (hw : ∀ i ∈ s, 0 ≤ w i) {i j : ι} (hi : i ∈ s) (hj : j ∈ s)
    (hle : w j ≤ w i) {d : K} (hd : 0 ≤ d) :
    s.centerMass w (Function.update z j (z j + d)) ≤ s.centerMass w (Function.update z i (z i + d)) := by
  have hshare : w j / (∑ i ∈ s, w i) ≤ w i / ∑ i ∈ s, w i := div_le_div_of_nonneg_right hle (sum_nonneg hw)
  rw [centerMass_update_add hi, centerMass_update_add hj]
  gcongr

end CenterMass
