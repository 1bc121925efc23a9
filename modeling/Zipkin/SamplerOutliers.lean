import Mathlib.Data.List.TakeWhile
import Zipkin.AdaptiveSampler
/-!
# SamplerOutliers — which sums of the window have to be outliers

The snapshot of the ring buffer has the latest value first, and `OutlierCheck` looks at the end of it: at the oldest
values that the buffer still has, not at the latest.  `letsThroughOutliers_iff` says when this makes no difference.
-/
namespace Zipkin

namespace AdaptiveSampler

variable {maxSize requiredDataPoints : Nat} {curRate : Int}

/-- The snapshot of the last of a list of values that are pushed one after the other. -/
def snapshot (maxSize : Nat) (before : List Int) (newVal : Int) : List Int :=
  (AtomicRingBuffer.pushAndSnap maxSize
    (before.foldl (fun buffer v => (AtomicRingBuffer.pushAndSnap maxSize buffer v).2) []) newVal).1

def latest (n : Nat) (values : List Int) : List Int := values.drop (values.length - n)

def oldestKept (maxSize n : Nat) (values : List Int) : List Int := (latest maxSize values).take n

def Outlier (curRate datum : Int) : Prop := curRate * (15 / 100 : ℚ) < |datum - curRate|

instance (curRate datum : Int) : Decidable (Outlier curRate datum) := inferInstanceAs (Decidable (_ < _))

theorem length_latest (n : Nat) (values : List Int) : (latest n values).length = min n values.length := by
  rw [latest, List.length_drop]
  omega

theorem snapshot_eq (maxSize : Nat) (before : List Int) (newVal : Int) :
    snapshot maxSize before newVal = (latest maxSize (before ++ [newVal])).reverse := by
  rw [latest, ← RingBuffer.pushAll_eq, RingBuffer.pushAll, List.foldl_append]
  rfl

/-- **What the check lets through**: enough values, of which the last are outliers. -/
theorem outlierCheck_isSome_iff (curRate : Int) (requiredDataPoints : Nat) (buf : List Int) :
    (OutlierCheck.apply curRate requiredDataPoints (some buf)).isSome = true ↔ requiredDataPoints ≤ buf.length ∧
      ∀ v ∈ buf.drop (buf.length - requiredDataPoints), OutlierCheck.isOut curRate v = true := by
  have hstart : ((buf.length : Int) - requiredDataPoints).toNat = buf.length - requiredDataPoints := by omega
  rw [OutlierCheck.apply, Option.isSome_filter, Option.any_some, decide_eq_true_eq, OutlierCheck.segmentLength, hstart,
    Int.natCast_inj]
  have hlength := length_latest requiredDataPoints buf
  rw [latest] at hlength
  constructor
  · intro hall
    have hpre := List.takeWhile_prefix (OutlierCheck.isOut curRate) (l := buf.drop (buf.length - requiredDataPoints))
    have hle := hpre.length_le
    exact ⟨by omega, List.takeWhile_eq_self_iff.1 (hpre.eq_of_length (by omega))⟩
  · rintro ⟨hle, hall⟩
    rw [List.takeWhile_eq_self_iff.2 hall, hlength, Nat.min_eq_left hle]

def LatestAreOutliers (requiredDataPoints : Nat) (curRate : Int) (values : List Int) : Prop :=
  requiredDataPoints ≤ values.length ∧ ∀ v ∈ latest requiredDataPoints values, Outlier curRate v

instance (values : List Int) : Decidable (LatestAreOutliers requiredDataPoints curRate values) :=
  inferInstanceAs (Decidable (_ ∧ _))

def LetsThroughOutliers (maxSize requiredDataPoints : Nat) (curRate : Int) (before : List Int) (newVal : Int) : Prop :=
  (OutlierCheck.apply curRate requiredDataPoints (some (snapshot maxSize before newVal))).isSome = true ↔
    LatestAreOutliers requiredDataPoints curRate (before ++ [newVal])

/-- **When the snapshots of the latest outliers go through, and no others**: the oldest values in the buffer are outliers, as
`OutlierCheck` computes it, if and only if the latest are. -/
theorem letsThroughOutliers_iff (maxSize requiredDataPoints : Nat) (hsize : requiredDataPoints ≤ maxSize) (curRate : Int)
    (before : List Int) (newVal : Int) :
    LetsThroughOutliers maxSize requiredDataPoints curRate before newVal ↔
      (requiredDataPoints ≤ (before ++ [newVal]).length →
        ((∀ v ∈ oldestKept maxSize requiredDataPoints (before ++ [newVal]), OutlierCheck.isOut curRate v = true) ↔
          ∀ v ∈ latest requiredDataPoints (before ++ [newVal]), Outlier curRate v)) := by
  have hkept := length_latest maxSize (before ++ [newVal])
  rw [LetsThroughOutliers, LatestAreOutliers, outlierCheck_isSome_iff, snapshot_eq, List.length_reverse, List.drop_reverse,
    oldestKept]
  by_cases henough : requiredDataPoints ≤ (before ++ [newVal]).length
  · have hlength : (latest maxSize (before ++ [newVal])).length -
        ((latest maxSize (before ++ [newVal])).length - requiredDataPoints) = requiredDataPoints := by omega
    simp only [hlength, List.mem_reverse, henough, true_and, true_implies]
    rw [and_iff_right (by omega)]
  · exact iff_of_true (iff_of_false (fun h => henough (by omega)) (fun h => henough h.1)) (fun h => absurd h henough)

/-- Where no subtraction of 32-bit integers overflows, the check computes what it says. -/
theorem isOut_iff {datum : Int} (h : |datum - curRate| < 2 ^ 31) : OutlierCheck.isOut curRate datum = true ↔ Outlier curRate datum := by
  have hwrap : ∀ x : Int, |x| < 2 ^ 31 → OutlierCheck.wrap32 x = x := fun x hx => by
    have := abs_lt.1 hx
    exact Int.bmod_eq_of_le (by omega) (by omega)
  rw [OutlierCheck.isOut, decide_eq_true_eq, hwrap _ h, OutlierCheck.abs, hwrap _ (by rwa [abs_abs]), Outlier,
    OutlierCheck.threshold]

theorem letsThroughOutliers_all : LetsThroughOutliers 4 2 10 [1000, 1000, 1000] 1000 :=
  (letsThroughOutliers_iff 4 2 (by decide) 10 [1000, 1000, 1000] 1000).2 (by decide +kernel)

/-- The last two values are outliers, and the first two are not. -/
theorem not_letsThroughOutliers_latest : ¬ LetsThroughOutliers 4 2 10 [10, 10, 1000] 1000 := by
  unfold LetsThroughOutliers
  decide +kernel

end AdaptiveSampler
end Zipkin
