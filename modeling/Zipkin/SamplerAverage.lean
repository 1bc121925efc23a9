import Mathlib.Data.List.GetD
import Mathlib.Tactic.NormNum
import Zipkin.AdaptiveSampler
import Zipkin.Base.CenterMass
/-!
# SamplerAverage — what the discounted average is between

The discounted average of a window is the center of mass of its values, each with the power of the discount for its age.
-/
namespace Zipkin
namespace AdaptiveSampler

namespace DiscountedAverage

/-- `calculate`, of a window of rational numbers. -/
def calculateRat (vals : List ℚ) (discount : ℚ) : Double :=
  let discountTotal := ((List.range vals.length).map (discount ^ ·)).sum
  Double.div (some ((vals.zipIdx.map fun (e, i) => discount ^ i * e).sum)) (some discountTotal)

theorem calculate_eq (vals : List Int) (discount : ℚ) :
    calculate vals discount = calculateRat (vals.map (Int.cast : Int → ℚ)) discount := by
  rw [calculate, calculateRat, List.length_map, List.zipIdx_map, List.map_map]
  rfl

/-! ## The center of mass -/

/-- The value of an age in a window, latest first. -/
def valueAt (vals : List ℚ) (age : ℕ) : ℚ := vals.getD age 0

section
variable {vals vals' : List ℚ} {discount : ℚ}

theorem valueAt_of_lt {age : ℕ} (h : age < vals.length) : valueAt vals age = vals[age] := by
  rw [valueAt, List.getD_eq_getElem _ _ h]

theorem forall_valueAt {p : ℚ → Prop} (h : ∀ e ∈ vals, p e) : ∀ i ∈ Finset.range vals.length, p (valueAt vals i) := by
  intro i hi
  rw [valueAt_of_lt (Finset.mem_range.1 hi)]
  exact h _ (List.getElem_mem _)

theorem map_valueAt (vals : List ℚ) : (List.range vals.length).map (valueAt vals) = vals := by
  refine List.ext_getElem (by rw [List.length_map, List.length_range]) fun i _ h => ?_
  rw [List.getElem_map, List.getElem_range, valueAt_of_lt h]

theorem sum_valueAt (vals : List ℚ) : ∑ i ∈ Finset.range vals.length, valueAt vals i = vals.sum := by
  change ((List.range vals.length).map (valueAt vals)).sum = vals.sum
  rw [map_valueAt]

theorem sum_weighted (vals : List ℚ) (discount : ℚ) :
    (vals.zipIdx.map fun (e, i) => discount ^ i * e).sum = ∑ i ∈ Finset.range vals.length, discount ^ i • valueAt vals i := by
  change _ = ((List.range vals.length).map fun i => discount ^ i • valueAt vals i).sum
  congr 1
  refine List.ext_getElem ?_ fun i h _ => ?_
  · rw [List.length_map, List.length_zipIdx, List.length_map, List.length_range]
  · rw [List.length_map, List.length_zipIdx] at h
    rw [List.getElem_map, List.getElem_map, List.getElem_zipIdx, List.getElem_range, valueAt_of_lt h, Nat.zero_add,
      smul_eq_mul]

theorem weights_nonneg (hpos : 0 < discount) (n : ℕ) : ∀ i ∈ Finset.range n, 0 ≤ discount ^ i :=
  fun i _ => (pow_pos hpos i).le

theorem total_pos (hne : vals ≠ []) (hpos : 0 < discount) : 0 < ∑ i ∈ Finset.range vals.length, discount ^ i :=
  Finset.sum_pos (fun i _ => pow_pos hpos i) (Finset.nonempty_range_iff.2 (mt List.length_eq_zero_iff.1 hne))

/-- **The average is the center of mass** of the values. -/
theorem calculateRat_eq_centerMass (hne : vals ≠ []) (hpos : 0 < discount) : calculateRat vals discount =
    some ((Finset.range vals.length).centerMass (discount ^ ·) (valueAt vals)) := by
  have htotal : ((List.range vals.length).map (discount ^ ·)).sum = ∑ i ∈ Finset.range vals.length, discount ^ i := rfl
  rw [calculateRat, sum_weighted, htotal]
  simp only [Double.div, Option.bind_some, if_neg (total_pos hne hpos).ne']
  rw [Finset.centerMass, smul_eq_mul, div_eq_inv_mul]

/-- **The average of a window in which all values are the same.** -/
theorem calculateRat_of_forall {v : ℚ} (hne : vals ≠ []) (hall : ∀ e ∈ vals, e = v) (hpos : 0 < discount) :
    calculateRat vals discount = some v := by
  have hvalue : ∀ i ∈ Finset.range vals.length, discount ^ i ≠ 0 → valueAt vals i = Function.const ℕ v i :=
    fun i hi _ => forall_valueAt hall i hi
  rw [calculateRat_eq_centerMass hne hpos, Finset.centerMass_congr_fun hvalue,
    Finset.centerMass_const (total_pos hne hpos).ne']

theorem le_calculateRat {v : ℚ} (hne : vals ≠ []) (hpos : 0 < discount) (h : ∀ e ∈ vals, v ≤ e) :
    Double.le (some v) (calculateRat vals discount) = true := by
  rw [calculateRat_eq_centerMass hne hpos]
  exact decide_eq_true (CenterMass.le_centerMass (weights_nonneg hpos _) (total_pos hne hpos) (forall_valueAt h))

theorem calculateRat_le {v : ℚ} (hne : vals ≠ []) (hpos : 0 < discount) (h : ∀ e ∈ vals, e ≤ v) :
    Double.le (calculateRat vals discount) (some v) = true := by
  rw [calculateRat_eq_centerMass hne hpos]
  exact decide_eq_true (CenterMass.centerMass_le (weights_nonneg hpos _) (total_pos hne hpos) (forall_valueAt h))

theorem calculateRat_mono (hne : vals ≠ []) (hpos : 0 < discount) (h : List.Forall₂ (· ≤ ·) vals vals') :
    Double.le (calculateRat vals discount) (calculateRat vals' discount) = true := by
  have hlength := h.length_eq
  have hne' : vals' ≠ [] := by
    rw [Ne, ← List.length_eq_zero_iff, ← hlength, List.length_eq_zero_iff]
    exact hne
  rw [calculateRat_eq_centerMass hne hpos, calculateRat_eq_centerMass hne' hpos, ← hlength]
  refine decide_eq_true (CenterMass.centerMass_mono (weights_nonneg hpos _) fun i hi => ?_)
  have hi := Finset.mem_range.1 hi
  rw [valueAt_of_lt hi, valueAt_of_lt (hlength ▸ hi)]
  exact h.get hi (hlength ▸ hi)

/-- **At most the mean** of a window that ascends from the latest value to the oldest. -/
theorem calculateRat_le_mean (hne : vals ≠ []) (hpos : 0 < discount) (hle : discount ≤ 1) (h : vals.Pairwise (· ≤ ·)) :
    Double.le (calculateRat vals discount) (some (vals.sum / vals.length)) = true := by
  have hweights : AntitoneOn (discount ^ ·) (Finset.range vals.length : Set ℕ) :=
    fun _ _ _ _ hij => pow_le_pow_of_le_one hpos.le hle hij
  have hvalues : MonotoneOn (valueAt vals) (Finset.range vals.length : Set ℕ) := by
    intro i hi j hj hij
    rw [Finset.mem_coe, Finset.mem_range] at hi hj
    rw [valueAt_of_lt hi, valueAt_of_lt hj]
    exact h.sortedLE.getElem_le_getElem_of_le hij
  rw [calculateRat_eq_centerMass hne hpos]
  refine decide_eq_true ?_
  have hmean := CenterMass.centerMass_le_mean (total_pos hne hpos) (hweights.antivaryOn hvalues)
  rwa [sum_valueAt, Finset.card_range] at hmean

theorem valueAt_modify {i : ℕ} (hi : i < vals.length) (d : ℚ) :
    ∀ k ∈ Finset.range vals.length, discount ^ k ≠ 0 →
      valueAt (vals.modify i (· + d)) k = Function.update (valueAt vals) i (valueAt vals i + d) k := by
  intro k hk _
  have hk := Finset.mem_range.1 hk
  rw [valueAt_of_lt (by rwa [List.length_modify]), List.getElem_modify]
  by_cases h : i = k
  · subst h
    rw [if_pos rfl, Function.update_self, valueAt_of_lt hi]
  · rw [if_neg h, Function.update_of_ne (Ne.symm h), valueAt_of_lt hk]

/-- **The newer of two values weighs no less**: to grow, it moves the average no less. -/
theorem calculateRat_modify_le {i j : ℕ} {d : ℚ} (hij : i ≤ j) (hj : j < vals.length) (hd : 0 ≤ d) (hpos : 0 < discount)
    (hle : discount ≤ 1) :
    Double.le (calculateRat (vals.modify j (· + d)) discount) (calculateRat (vals.modify i (· + d)) discount) = true := by
  have hi := hij.trans_lt hj
  have hne : ∀ k, vals.modify k (· + d) ≠ [] := by
    intro k
    rw [Ne, ← List.length_eq_zero_iff, List.length_modify]
    exact Nat.ne_of_gt (Nat.zero_lt_of_lt hj)
  rw [calculateRat_eq_centerMass (hne j) hpos, calculateRat_eq_centerMass (hne i) hpos, List.length_modify,
    List.length_modify, Finset.centerMass_congr_fun (valueAt_modify hj d), Finset.centerMass_congr_fun (valueAt_modify hi d)]
  exact decide_eq_true (CenterMass.centerMass_update_le_update (weights_nonneg hpos _) (Finset.mem_range.2 hi)
    (Finset.mem_range.2 hj) (pow_le_pow_of_le_one hpos.le hle hij) hd)

end

/-! ## The average of whole numbers -/

/-- An average of a window, latest first: between its least and its greatest value, growing with each, at most the mean if
they ascend to the oldest, and moved no less by the newer of two. -/
structure Averages (average : List Int → Double) : Prop where
  least (vals : List Int) (hne : vals ≠ []) : Double.le (some (vals.min hne : Int)) (average vals) = true
  greatest (vals : List Int) (hne : vals ≠ []) : Double.le (average vals) (some (vals.max hne : Int)) = true
  mono (vals vals' : List Int) (hne : vals ≠ []) (hle : List.Forall₂ (· ≤ ·) vals vals') :
    Double.le (average vals) (average vals') = true
  mean (vals : List Int) (hne : vals ≠ []) (hascending : vals.Pairwise (· ≤ ·)) :
    Double.le (average vals) (some (vals.sum / vals.length)) = true
  newer (vals : List Int) (i j : ℕ) (d : Int) (hij : i ≤ j) (hj : j < vals.length) (hd : 0 ≤ d) :
    Double.le (average (vals.modify j (· + d))) (average (vals.modify i (· + d))) = true

theorem map_cast_modify (vals : List Int) (i : ℕ) (d : Int) :
    (vals.modify i (· + d)).map (Int.cast : Int → ℚ) = (vals.map (Int.cast : Int → ℚ)).modify i (· + (d : ℚ)) := by
  refine List.ext_getElem (by simp) fun k _ _ => ?_
  rw [List.getElem_map, List.getElem_modify, List.getElem_modify, List.getElem_map]
  split
  · exact Int.cast_add _ _
  · rfl

theorem le_calculate {vals : List Int} {discount lo : ℚ} (hne : vals ≠ []) (hpos : 0 < discount) (h : ∀ v ∈ vals, lo ≤ v) :
    Double.le (some lo) (calculate vals discount) = true := by
  rw [calculate_eq]
  refine le_calculateRat (mt List.map_eq_nil_iff.1 hne) hpos fun e he => ?_
  obtain ⟨v, hv, rfl⟩ := List.mem_map.1 he
  exact h v hv

theorem calculate_le {vals : List Int} {discount hi : ℚ} (hne : vals ≠ []) (hpos : 0 < discount) (h : ∀ v ∈ vals, v ≤ hi) :
    Double.le (calculate vals discount) (some hi) = true := by
  rw [calculate_eq]
  refine calculateRat_le (mt List.map_eq_nil_iff.1 hne) hpos fun e he => ?_
  obtain ⟨v, hv, rfl⟩ := List.mem_map.1 he
  exact h v hv

/-- **The discounted average is an average**, of every window and with every discount. -/
theorem averages_calculate (discount : ℚ) (hpos : 0 < discount) (hle : discount ≤ 1) :
    Averages (calculate · discount) where
  least vals hne := le_calculate hne hpos fun v hv => Int.cast_le.2 (List.min_le_of_mem hv)
  greatest vals hne := calculate_le hne hpos fun v hv => Int.cast_le.2 (List.le_max_of_mem hv)
  mono vals vals' hne hle := by
    rw [calculate_eq, calculate_eq]
    refine calculateRat_mono (mt List.map_eq_nil_iff.1 hne) hpos ?_
    rw [List.forall₂_map_left_iff, List.forall₂_map_right_iff]
    exact hle.imp fun _ _ h => Int.cast_le.2 h
  mean vals hne hascending := by
    rw [calculate_eq, Int.cast_list_sum, ← List.length_map (Int.cast : Int → ℚ)]
    exact calculateRat_le_mean (mt List.map_eq_nil_iff.1 hne) hpos hle (hascending.map _ fun _ _ h => Int.cast_le.2 h)
  newer vals i j d hij hj hd := by
    rw [calculate_eq, calculate_eq, map_cast_modify, map_cast_modify]
    exact calculateRat_modify_le hij (by rwa [List.length_map]) (Int.cast_nonneg hd) hpos hle

/-- The latest value weighs four times the oldest. -/
theorem averages_calculate_half : calculate [10, 5, 0] (1 / 2) = some (50 / 7) ∧
    calculate [0, 5, 10] (1 / 2) = some (20 / 7) ∧ Averages (calculate · (1 / 2)) :=
  ⟨by decide +kernel, by decide +kernel, averages_calculate (1 / 2) (by norm_num) (by norm_num)⟩

end DiscountedAverage

namespace CalculateSampleRate

/-- **The new rate is between those for the bounds of the window**: the one at which the target would be stored if all
values were the greatest, and if all were the least. -/
theorem apply_between {tgt : Int} {cur lo hi r : ℚ} {vals : List Int} (htgt : 0 ≤ tgt) (hcur : 0 ≤ cur) (hlo : 0 < lo)
    (hleast : ∀ v ∈ vals, lo ≤ v) (hgreatest : ∀ v ∈ vals, v ≤ hi) (h : apply tgt cur (some vals) = some r) :
    min maxSampleRate (cur * tgt / hi) ≤ r ∧ r ≤ min maxSampleRate (cur * tgt / lo) := by
  obtain ⟨_, avg, hvals, havg, hpos, rfl, -⟩ := calculateSampleRate_eq_some h
  obtain rfl := Option.some.inj hvals
  have hne : vals ≠ [] := by
    rintro rfl
    exact nomatch havg
  have hspared : 0 ≤ cur * tgt := mul_nonneg hcur (Int.cast_nonneg htgt)
  have hle : Double.le (some lo) (DiscountedAverage.apply vals) = true :=
    DiscountedAverage.le_calculate hne (by norm_num) hleast
  have hge : Double.le (DiscountedAverage.apply vals) (some hi) = true :=
    DiscountedAverage.calculate_le hne (by norm_num) hgreatest
  rw [havg] at hle hge
  have hle : lo ≤ avg := of_decide_eq_true hle
  have hge : avg ≤ hi := of_decide_eq_true hge
  refine ⟨min_le_min_left _ ?_, min_le_min_left _ ?_⟩
  · exact div_le_div_of_nonneg_left hspared hpos hge
  · exact div_le_div_of_nonneg_left hspared hlo hle

end CalculateSampleRate

end AdaptiveSampler
end Zipkin
