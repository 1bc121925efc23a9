import Mathlib.Algebra.Order.Field.Rat
import Mathlib.Algebra.Order.Ring.Cast
import Mathlib.Algebra.BigOperators.Group.List.Basic
import Mathlib.Data.NNRat.Defs
import Zipkin.Base.RingBuffer
import Zipkin.Base.Transition
/-!
# AdaptiveSampler — when the sample rate is changed

`AdaptiveSampler.scala`.  The sum of the request rates of a group is pushed into a ring buffer, and a chain of checks and a
calculation make a new sample rate of what is in it, or nothing.  The rates they compare it with, and whether the node is
the leader, change at any time.  After a new rate has come out, none does until a timer gives the permit back.

A `Double` is a rational number, or `none` for what a division by zero gives, which is in no relation to a number.
-/
namespace Zipkin

namespace AdaptiveSampler

abbrev Double := Option ℚ

namespace Double

def div (a b : Double) : Double :=
  a.bind fun a => b.bind fun b => if b = 0 then none else some (a / b)

/-- `a <= b` -/
def le (a b : Double) : Bool :=
  match a, b with
  | some a, some b => decide (a ≤ b)
  | _, _ => false

theorem div_eq_some {a b : ℚ} {c : ℚ} (h : div (some a) (some b) = some c) : b ≠ 0 ∧ a / b = c := by
  by_cases hb : b = 0
  · simp [div, hb] at h
  · exact ⟨hb, by simpa [div, hb] using h⟩

theorem le_iff {a : ℚ} {x : Double} : le (some a) x = true ↔ ∃ b, x = some b ∧ a ≤ b := by
  cases x <;> simp [le]

end Double

/-! ## The stages -/

/-- Oldest first. -/
abbrev AtomicRingBuffer := List Int

def AtomicRingBuffer.pushAndSnap (maxSize : Nat) (underlying : AtomicRingBuffer) (newVal : Int) : List Int × AtomicRingBuffer :=
  ((RingBuffer.push maxSize underlying newVal).reverse, RingBuffer.push maxSize underlying newVal)

section Stages
variable {α : Type}

def RequestRateCheck (curRate : Int) (input : Option α) : Option α := input.filter fun _ => decide (0 < curRate)

def SufficientDataCheck (sufficientThreshold : Nat) (input : Option (List α)) : Option (List α) :=
  input.filter fun i => decide (sufficientThreshold ≤ i.length)

def ValidDataCheck (validate : α → Bool) (input : Option (List α)) : Option (List α) := input.filter fun i => i.all validate

end Stages

namespace OutlierCheck

/-- The two's complement value of an integer in a 32-bit `Int`. -/
def wrap32 (x : Int) : Int := x.bmod (2 ^ 32)

/-- `math.abs` of an `Int`, of which the least is its own. -/
def abs (x : Int) : Int := wrap32 |x|

def threshold : ℚ := 15 / 100

def isOut (curRate datum : Int) : Bool := decide (curRate * threshold < abs (wrap32 (datum - curRate)))

/-- The search begins at the first element where `start` is negative.  In an array it begins before it and throws, but then
there are fewer elements than are required, and the snapshot does not go through either way. -/
def segmentLength (p : Int → Bool) (buf : List Int) (start : Int) : Int := ((buf.drop start.toNat).takeWhile p).length

def apply (curRate requiredDataPoints : Int) (input : Option (List Int)) : Option (List Int) :=
  input.filter fun buf =>
    decide (segmentLength (isOut curRate) buf (buf.length - requiredDataPoints) = requiredDataPoints)

end OutlierCheck

namespace DiscountedAverage

def calculate (vals : List Int) (discount : ℚ) : Double :=
  let discountTotal := ((List.range vals.length).map (discount ^ ·)).sum
  Double.div (some ((vals.zipIdx.map fun (e, i) => discount ^ i * e).sum)) (some discountTotal)

def apply (vals : List Int) : Double := calculate vals (9 / 10)

end DiscountedAverage

namespace CalculateSampleRate

def threshold : ℚ := 5 / 100

def maxSampleRate : ℚ := 1

/-- If `sr` is not a number, nor is `change`. -/
def apply (tgtStoreRate : Int) (cursampleRate : ℚ) (input : Option (List Int)) : Option ℚ :=
  input.bind fun vals =>
    let curStoreRate := DiscountedAverage.apply vals
    if curStoreRate.le (some 0) then none
    else
      let newSampleRate := Double.div (some (cursampleRate * tgtStoreRate)) curStoreRate
      let sr := newSampleRate.map (min maxSampleRate)
      let change := Double.div (sr.map fun sr => |cursampleRate - sr|) (some cursampleRate)
      if Double.le (some threshold) change then sr else none

end CalculateSampleRate

/-! ## The sampler -/

/-- Durations in nanoseconds. -/
structure Flags where
  asUpdateFreq : Nat
  asWindowSize : Nat
  asSufficientWindowSize : Nat
  asOutlierThreshold : Nat

def inSeconds (duration : Nat) : Nat := duration / 1000000000

/-- The variables that the stages read, the buffer, and the permit of `CooldownCheck` with the tasks of its timer. -/
structure State where
  targetStoreRate : Nat
  curReqRate : Int
  sampleRate : ℚ≥0
  isLeader : Bool
  buffer : AtomicRingBuffer
  permit : Bool
  /-- When the tasks that set the permit are due. -/
  doLater : List Nat
  now : Nat
  /-- What came out, and when. -/
  emitted : List (Nat × ℚ)

def init (targetStoreRate : Nat) (curReqRate : Int) (sampleRate : ℚ≥0) (isLeader : Bool) (now : Nat) : State :=
  ⟨targetStoreRate, curReqRate, sampleRate, isLeader, [], true, [], now, []⟩

variable (flags : Flags)

def adaptiveSampleRateCalculator (s : State) (input : Option (List Int)) : Option ℚ :=
  CalculateSampleRate.apply s.targetStoreRate s.sampleRate
    (OutlierCheck.apply s.curReqRate (inSeconds flags.asOutlierThreshold / inSeconds flags.asUpdateFreq : Nat)
      (ValidDataCheck (fun v => decide (0 < v))
        (SufficientDataCheck (inSeconds flags.asSufficientWindowSize / inSeconds flags.asUpdateFreq)
          (RequestRateCheck s.curReqRate input))))

def IsLeaderCheck (isLeader : Bool) (input : Option ℚ) : Option ℚ := input.filter fun _ => isLeader

/-- `permit.compareAndSet(true, false)` -/
def CooldownCheck (period : Nat) (s : State) (input : Option ℚ) : Option ℚ × State :=
  match input with
  | none => (none, s)
  | some r => if s.permit then (some r, { s with permit := false, doLater := s.doLater ++ [s.now + period] }) else (none, s)

def windowSize : Nat := inSeconds flags.asWindowSize / inSeconds flags.asUpdateFreq

/-- The sums in the window with a new one, latest first. -/
def window (s : State) (sum : Int) : List Int := (s.buffer.pushAndSnap (windowSize flags) sum).1

/-- The calculator of `newAdaptiveSamplerFilter`, applied to the sum of the rates of the group. -/
def calculator (s : State) (sum : Int) : Option ℚ × State :=
  let (snap, buffer) := s.buffer.pushAndSnap (windowSize flags) sum
  CooldownCheck flags.asOutlierThreshold { s with buffer := buffer }
    (IsLeaderCheck s.isLeader (adaptiveSampleRateCalculator flags s (some snap)))

inductive Event where
  | targetStoreRate (rate : Nat)
  | curReqRate (rate : Int)
  | sampleRate (rate : ℚ≥0)
  | leadership (isLeader : Bool)
  | elapse (nanos : Nat)
  /-- The timer runs a task that is due. -/
  | tick (task : Nat)
  | group (sum : Int)

def step (s : State) : Event → Option State
  | .targetStoreRate rate => some { s with targetStoreRate := rate }
  | .curReqRate rate => some { s with curReqRate := rate }
  | .sampleRate rate => some { s with sampleRate := rate }
  | .leadership isLeader => some { s with isLeader := isLeader }
  | .elapse nanos => some { s with now := s.now + nanos }
  | .tick task => match s.doLater[task]? with
    | some due => if due ≤ s.now then some { s with permit := true, doLater := s.doLater.eraseIdx task } else none
    | none => none
  | .group sum => match calculator flags s sum with
    | (some r, s') => some { s' with emitted := (s.now, r) :: s'.emitted }
    | (none, s') => some s'

/-! ## The stages let through what they say -/

section Stages
variable {flags} {α : Type} {s : State} {vals : List Int} {r : ℚ}

/-- **When `CalculateSampleRate` makes a rate**: the average is positive, and the rate is the one at which the target would
be stored, if that is far enough from the current one. -/
theorem calculateSampleRate_eq_some {tgt : Int} {cur : ℚ} {input : Option (List Int)}
    (h : CalculateSampleRate.apply tgt cur input = some r) :
    ∃ vals avg, input = some vals ∧ DiscountedAverage.apply vals = some avg ∧ 0 < avg ∧
      r = min CalculateSampleRate.maxSampleRate (cur * tgt / avg) ∧ cur ≠ 0 ∧
      CalculateSampleRate.threshold ≤ |cur - r| / cur := by
  obtain ⟨vals, hvals, h⟩ := Option.bind_eq_some_iff.1 h
  dsimp only at h
  split at h
  · cases h
  · rename_i havg
    split at h
    · rename_i hchange
      obtain ⟨new, hnew, rfl⟩ := Option.map_eq_some_iff.1 h
      rw [h, Option.map_some] at hchange
      obtain ⟨change, hdiv, hthreshold⟩ := Double.le_iff.1 hchange
      obtain ⟨hne, rfl⟩ := Double.div_eq_some hdiv
      obtain ⟨avg, heq⟩ : ∃ avg, DiscountedAverage.apply vals = some avg := by
        cases havg' : DiscountedAverage.apply vals with
        | none =>
          rw [havg'] at hnew
          cases hnew
        | some avg => exact ⟨avg, rfl⟩
      rw [heq] at hnew havg
      obtain ⟨-, rfl⟩ := Double.div_eq_some hnew
      exact ⟨vals, avg, hvals, heq, by simpa [Double.le] using havg, rfl, hne, hthreshold⟩
    · cases h

/-- What `CalculateSampleRate` makes is a rate, and is far enough from the current one. -/
theorem calculateSampleRate_spec {tgt : Int} {cur : ℚ} (htgt : 0 ≤ tgt) (hcur : 0 ≤ cur) {input : Option (List Int)}
    (h : CalculateSampleRate.apply tgt cur input = some r) :
    0 < cur ∧ 0 ≤ r ∧ r ≤ 1 ∧ 5 / 100 * cur ≤ |r - cur| := by
  obtain ⟨vals, avg, -, -, havg, rfl, hne, hthreshold⟩ := calculateSampleRate_eq_some h
  have hpos : 0 < cur := lt_of_le_of_ne hcur (Ne.symm hne)
  have hquot : 0 ≤ cur * tgt / avg := div_nonneg (mul_nonneg hcur (Int.cast_nonneg htgt)) havg.le
  refine ⟨hpos, le_min zero_le_one hquot, min_le_left _ _, ?_⟩
  rw [abs_sub_comm]
  exact (le_div_iff₀ hpos).1 hthreshold

end Stages

/-! ## What a step can do -/

section Step
variable {flags : Flags} {s s' : State} {event : Event}

/-- What held when a rate came out. -/
structure SafeEmission (flags : Flags) (s : State) (sum : Int) (r : ℚ) : Prop where
  leader : s.isLeader = true
  requests : 0 < s.curReqRate
  sufficient : inSeconds flags.asSufficientWindowSize / inSeconds flags.asUpdateFreq ≤ (window flags s sum).length
  valid : ∀ v ∈ window flags s sum, 0 < v
  sampling : 0 < s.sampleRate
  nonneg : 0 ≤ r
  le_one : r ≤ 1
  change : 5 / 100 * (s.sampleRate : ℚ) ≤ |r - s.sampleRate|
  cooledDown : ∀ e ∈ s.emitted, e.1 + flags.asOutlierThreshold ≤ s.now

/-- **What the stages let through.** -/
theorem calculator_eq_some {sum : Int} {r : ℚ} (h : calculator flags s sum = (some r, s')) :
    IsLeaderCheck s.isLeader (adaptiveSampleRateCalculator flags s (some (window flags s sum))) = some r ∧
      s.permit = true ∧
      s' = { s with
        buffer := (s.buffer.pushAndSnap (windowSize flags) sum).2, permit := false,
        doLater := s.doLater ++ [s.now + flags.asOutlierThreshold] } := by
  unfold calculator CooldownCheck at h
  dsimp only at h
  split at h
  · cases h
  · rename_i r' hr
    split at h
    · rename_i hpermit
      cases h
      exact ⟨hr, hpermit, rfl⟩
    · cases h

theorem calculator_eq_none {sum : Int} (h : calculator flags s sum = (none, s')) :
    s' = { s with buffer := (s.buffer.pushAndSnap (windowSize flags) sum).2 } := by
  unfold calculator CooldownCheck at h
  dsimp only at h
  split at h
  · cases h
    rfl
  · split at h
    · cases h
    · cases h
      rfl

/-- The permit is back when the period after each emission is over, and until then one task will give it back. -/
def Cooling (flags : Flags) (s : State) : Prop :=
  if s.permit then s.doLater = [] ∧ ∀ e ∈ s.emitted, e.1 + flags.asOutlierThreshold ≤ s.now
  else ∃ due, s.doLater = [due] ∧ ∀ e ∈ s.emitted, e.1 + flags.asOutlierThreshold ≤ due

/-- As long as neither the permit nor its task changes, time passes and nothing comes out. -/
theorem Cooling.of_frame (h : Cooling flags s) (hpermit : s'.permit = s.permit) (hlater : s'.doLater = s.doLater)
    (hemitted : s'.emitted = s.emitted) (hnow : s.now ≤ s'.now) : Cooling flags s' := by
  unfold Cooling at h ⊢
  rw [hpermit, hlater, hemitted]
  split at h
  · rename_i hfree
    rw [if_pos hfree]
    exact ⟨h.1, fun e he => (h.2 e he).trans hnow⟩
  · rename_i hheld
    rw [if_neg hheld]
    exact h

/-- The task that is due is the one that gives the permit back. -/
theorem Cooling.tick (h : Cooling flags s) {task due : Nat} (hdue : s.doLater[task]? = some due) (hle : due ≤ s.now) :
    Cooling flags { s with permit := true, doLater := s.doLater.eraseIdx task } := by
  unfold Cooling at h
  split at h
  · rw [h.1] at hdue
    cases hdue
  · obtain ⟨due', hpending, hbefore⟩ := h
    rw [hpending] at hdue
    obtain ⟨rfl, rfl⟩ : task = 0 ∧ due' = due := by
      cases task with
      | zero => exact ⟨rfl, Option.some.inj hdue⟩
      | succ task => cases hdue
    exact ⟨by rw [hpending]; rfl, fun e he => (hbefore e he).trans hle⟩

/-- A rate that comes out takes the permit, and its task is the only one. -/
theorem Cooling.emit (h : Cooling flags s) (hpermit : s.permit = true) {buffer : AtomicRingBuffer} {r : ℚ} :
    Cooling flags { s with
      buffer := buffer, permit := false, doLater := s.doLater ++ [s.now + flags.asOutlierThreshold]
      emitted := (s.now, r) :: s.emitted } := by
  unfold Cooling at h
  rw [if_pos hpermit] at h
  refine ⟨_, by dsimp only; rw [h.1]; rfl, fun e he => ?_⟩
  rcases List.mem_cons.1 he with rfl | he
  · exact Nat.le_refl _
  · exact (h.2 e he).trans (Nat.le_add_right _ _)

theorem cooling_step (h : Cooling flags s) (hstep : step flags s event = some s') : Cooling flags s' := by
  cases event with
  | targetStoreRate | curReqRate | sampleRate | leadership =>
    obtain rfl := Option.some.inj hstep
    exact h.of_frame rfl rfl rfl (Nat.le_refl _)
  | elapse nanos =>
    obtain rfl := Option.some.inj hstep
    exact h.of_frame rfl rfl rfl (Nat.le_add_right _ _)
  | tick task =>
    simp only [step] at hstep
    split at hstep
    · rename_i due hdue
      split at hstep
      · rename_i hle
        exact Option.some.inj hstep ▸ h.tick hdue hle
      · cases hstep
    · cases hstep
  | group sum =>
    simp only [step] at hstep
    split at hstep
    · rename_i r s₁ hcalc
      obtain ⟨-, hpermit, rfl⟩ := calculator_eq_some hcalc
      exact Option.some.inj hstep ▸ h.emit hpermit
    · rename_i s₁ hcalc
      obtain rfl := Option.some.inj hstep
      obtain rfl := calculator_eq_none hcalc
      exact h.of_frame rfl rfl rfl (Nat.le_refl _)

/-- **A rate comes out only when it is safe**, in every run of the sampler. -/
theorem safeEmission (flags : Flags) (targetStoreRate : Nat) (curReqRate : Int) (sampleRate : ℚ≥0) (isLeader : Bool)
    (now : Nat) (events : List Event) (s : State) (sum : Int) (r : ℚ)
    (hrun : Transition.run (step flags) (init targetStoreRate curReqRate sampleRate isLeader now) events = some s)
    (hemit : (calculator flags s sum).1 = some r) : SafeEmission flags s sum r := by
  have hcooling : Cooling flags s :=
    Transition.run_invariant (fun _ _ _ => cooling_step) (show Cooling flags (init _ _ _ _ _) from ⟨rfl, nofun⟩) hrun
  obtain ⟨hleader, hpermit, -⟩ := calculator_eq_some (Prod.ext hemit rfl)
  obtain ⟨hcalc, hisLeader⟩ := Option.filter_eq_some_iff.1 hleader
  unfold Cooling at hcooling
  rw [if_pos hpermit] at hcooling
  obtain ⟨hpositive, hnonneg, hleOne, hchange⟩ := calculateSampleRate_spec (Int.natCast_nonneg _) (NNRat.coe_nonneg _) hcalc
  obtain ⟨vals, houtliers, -⟩ := Option.bind_eq_some_iff.1 hcalc
  obtain ⟨hvalidData, -⟩ := Option.filter_eq_some_iff.1 houtliers
  obtain ⟨hsufficientData, hvalid⟩ := Option.filter_eq_some_iff.1 hvalidData
  obtain ⟨hrequestRate, hsufficient⟩ := Option.filter_eq_some_iff.1 hsufficientData
  obtain ⟨hvals, hrequests⟩ := Option.filter_eq_some_iff.1 hrequestRate
  obtain rfl := Option.some.inj hvals
  exact {
    leader := hisLeader
    requests := of_decide_eq_true hrequests
    sufficient := of_decide_eq_true hsufficient
    valid := fun v hv => of_decide_eq_true (List.all_eq_true.1 hvalid v hv)
    sampling := NNRat.coe_pos.1 hpositive
    nonneg := hnonneg
    le_one := hleOne
    change := hchange
    cooledDown := hcooling.2 }

end Step

/-- One sum is sufficient, and two are kept. -/
def halfMinute : Flags := ⟨30000000000, 60000000000, 30000000000, 30000000000⟩

/-- A leader with 10 requests of its own, whose group has 1000 and stores at most 100. -/
theorem safeEmission_tenth : ∃ s, Transition.run (step halfMinute) (init 0 0 1 false 0)
      [.targetStoreRate 100, .curReqRate 10, .leadership true, .elapse 30000000000] = some s ∧
    SafeEmission halfMinute s 1000 (1 / 10) := by
  refine ⟨_, rfl, safeEmission halfMinute 0 0 1 false 0
    [.targetStoreRate 100, .curReqRate 10, .leadership true, .elapse 30000000000] _ 1000 (1 / 10) rfl ?_⟩
  decide +kernel

end AdaptiveSampler
end Zipkin
