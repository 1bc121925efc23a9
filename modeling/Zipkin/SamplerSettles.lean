import Mathlib.Tactic.NormNum
import Zipkin.SamplerAverage
/-!
# SamplerSettles — the sample rate is found in one step

What is stored is taken to be the sample rate times a number that is not known, and a window in which it was the same
throughout has that for its average.  The rate that comes of such a window is then the one at which the target is stored,
or all, and a window at that rate gives no other (`sampleRate_settles`).
-/
namespace Zipkin
namespace AdaptiveSampler

namespace CalculateSampleRate

def rateFor (tgtStoreRate : Int) (cursampleRate : ℚ) (curStoreRate : Double) : Option ℚ :=
  if curStoreRate.le (some 0) then none
  else
    let newSampleRate := Double.div (some (cursampleRate * tgtStoreRate)) curStoreRate
    let sr := newSampleRate.map (min maxSampleRate)
    let change := Double.div (sr.map fun sr => |cursampleRate - sr|) (some cursampleRate)
    if Double.le (some threshold) change then sr else none

/-- `apply`, of a window of rational numbers. -/
def applyRat (tgtStoreRate : Int) (cursampleRate : ℚ) (input : Option (List ℚ)) : Option ℚ :=
  input.bind fun vals => rateFor tgtStoreRate cursampleRate (DiscountedAverage.calculateRat vals (9 / 10))

theorem apply_eq (tgt : Int) (cur : ℚ) (vals : List Int) :
    apply tgt cur (some vals) = applyRat tgt cur (some (vals.map (Int.cast : Int → ℚ))) := by
  rw [applyRat, Option.bind_some, ← DiscountedAverage.calculate_eq]
  rfl

/-- What is stored at the rate is the target, or all there is. -/
def settled (k : ℚ) (target : Int) : ℚ := min maxSampleRate (target / k)

theorem mul_settled {k : ℚ} {target : Int} (hk : 0 < k) : k * settled k target = min k target := by
  rw [settled, maxSampleRate, mul_min_of_nonneg _ _ hk.le, mul_one, mul_div_cancel₀ _ hk.ne']

/-- **At a store rate that is linear in the sample rate**, the new rate does not depend on the current one, but is given
only if it is far enough from it. -/
theorem rateFor_linear {k cur : ℚ} {target : Int} (hk : 0 < k) (hcur : 0 < cur) :
    rateFor target cur (some (k * cur)) =
      if threshold ≤ |cur - settled k target| / cur then some (settled k target) else none := by
  have hpos : 0 < k * cur := mul_pos hk hcur
  have hnew : cur * target / (k * cur) = target / k := by
    rw [mul_comm k cur, mul_div_mul_left _ _ hcur.ne']
  simp only [rateFor, Double.div, Double.le, Option.bind_some, Option.map_some, if_neg hpos.ne', if_neg hcur.ne', hnew,
    decide_eq_true_eq]
  rw [if_neg (not_le.2 hpos), settled]

theorem rateFor_settled {k : ℚ} {target : Int} (hk : 0 < k) (htarget : 0 ≤ target) :
    rateFor target (settled k target) (some (k * settled k target)) = none := by
  have hnonneg : 0 ≤ settled k target := le_min zero_le_one (div_nonneg (Int.cast_nonneg htarget) hk.le)
  rcases hnonneg.eq_or_lt with hzero | hpos
  · -- nothing is to be stored, and nothing is
    rw [← hzero, mul_zero]
    rfl
  · rw [rateFor_linear hk hpos, sub_self, abs_zero, zero_div, if_neg]
    norm_num [threshold]

/-- A window of one value throughout. -/
def Constant {α : Type} (value : α → ℚ) (rate : ℚ) (window : List α) : Prop := window ≠ [] ∧ ∀ v ∈ window, value v = rate

/-- With `k` spans a minute for each part of the sample rate: a new rate stores the target or all, and is then kept. -/
def Settles {α : Type} (value : α → ℚ) (calculate : Int → ℚ → Option (List α) → Option ℚ) (k : ℚ) (target : Int) (cur : ℚ) :
    Prop :=
  ∀ window, Constant value (k * cur) window → ∀ r, calculate target cur (some window) = some r →
    k * r = min k target ∧ ∀ later, Constant value (k * r) later → calculate target r (some later) = none

theorem applyRat_constant {k cur : ℚ} {target : Int} {window : List ℚ} (h : Constant id (k * cur) window) :
    applyRat target cur (some window) = rateFor target cur (some (k * cur)) := by
  rw [applyRat, Option.bind_some, DiscountedAverage.calculateRat_of_forall h.1 h.2 (by norm_num)]

theorem settles_applyRat {k : ℚ} (hk : 0 < k) {target : Int} (htarget : 0 ≤ target) {cur : ℚ} (hcur : 0 < cur) :
    Settles id applyRat k target cur := by
  intro window hwindow r hr
  rw [applyRat_constant hwindow, rateFor_linear hk hcur] at hr
  split at hr
  · obtain rfl := Option.some.inj hr
    refine ⟨mul_settled hk, fun later hlater => ?_⟩
    rw [applyRat_constant hlater, rateFor_settled hk htarget]
  · cases hr

theorem Constant.cast {rate : ℚ} {window : List Int} (h : Constant (Int.cast : Int → ℚ) rate window) :
    Constant id rate (window.map (Int.cast : Int → ℚ)) := by
  refine ⟨fun hnil => h.1 (List.map_eq_nil_iff.1 hnil), fun v hv => ?_⟩
  obtain ⟨e, he, rfl⟩ := List.mem_map.1 hv
  exact h.2 e he

/-- **The sample rate settles in one step**, in rational arithmetic, for windows of rational numbers and of the integers of
which the code has them. -/
theorem sampleRate_settles (k : ℚ) (hk : 0 < k) (target : Int) (htarget : 0 ≤ target) (cur : ℚ) (hcur : 0 < cur) :
    Settles id applyRat k target cur ∧ Settles (Int.cast : Int → ℚ) apply k target cur := by
  refine ⟨settles_applyRat hk htarget hcur, fun window hwindow r hr => ?_⟩
  rw [apply_eq] at hr
  obtain ⟨htgt, hkept⟩ := settles_applyRat hk htarget hcur _ hwindow.cast r hr
  refine ⟨htgt, fun later hlater => ?_⟩
  rw [apply_eq]
  exact hkept _ hlater.cast

/-- All is stored, ten times the target: a tenth is, and is kept. -/
theorem sampleRate_settles_tenth : apply 100 1 (some [1000, 1000, 1000]) = some (1 / 10) ∧ (1000 : ℚ) * (1 / 10) = min 1000 100 ∧
    apply 100 (1 / 10) (some [100, 100]) = none := by
  have hr : apply 100 1 (some [1000, 1000, 1000]) = some (1 / 10) := by decide +kernel
  obtain ⟨htgt, hkept⟩ := (sampleRate_settles 1000 (by norm_num) 100 (by decide) 1 one_pos).2 [1000, 1000, 1000]
    ⟨by decide, by simp⟩ _ hr
  exact ⟨hr, htgt, hkept [100, 100] ⟨by decide, by norm_num⟩⟩

end CalculateSampleRate
end AdaptiveSampler
end Zipkin
