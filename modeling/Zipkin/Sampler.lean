import Mathlib.Data.Finset.Card
import Mathlib.Order.Interval.Finset.Nat
import Mathlib.Tactic.Linarith
import Zipkin.Base.Binary64
import Zipkin.Base.Transition
import Zipkin.Span
/-!
# Sampler — which traces are stored

`Sampler.scala` and `SpanSamplerFilter.scala` of the adaptive sampler, and `AdjustableGlobalSampler.scala`,
`GlobalSampler.scala` and `SamplerFilter.scala` of the collector service.  Whether a span is stored is decided by its trace
id and the rate alone, so that the parts of a trace are stored or dropped together, wherever and whenever they come in.
-/
namespace Zipkin

open Binary64 Transition

/-- `val t = if (traceId == Long.MinValue) Long.MaxValue else math.abs(traceId)` -/
def magnitude (traceId : Int64) : Nat :=
  if traceId = Int64.minValue then Int64.maxValue.toInt.natAbs else traceId.toInt.natAbs

/-- `Long.MaxValue * x`: as a `Double`, `Long.MaxValue` is `2 ^ 63`. -/
def maxValueTimes (x : Double) : Double := x.mulTwoPow 63

namespace Sampler

def one : Double := .ofInt 1

/-- `t > Long.MaxValue * (1 - curRate)` -/
def isAbove (curRate : Double) (t : Nat) : Bool := (maxValueTimes (one.sub curRate)).lt (.ofInt t)

def apply (curRate : Double) (traceId : Int64) : Bool := decide (curRate = one) || isAbove curRate (magnitude traceId)

end Sampler

namespace GlobalSampler

def NullGlobalSampler (_traceId : Int64) : Bool := false

def EverythingGlobalSampler (_traceId : Int64) : Bool := true

namespace AdjustableGlobalSampler

/-- `t < Long.MaxValue * sampleRate`, unless the rate is 1. -/
def sample (traceId : Int64) (sampleRate : Double) : Bool :=
  if sampleRate = Sampler.one then true
  else (Double.ofInt (magnitude traceId)).lt (maxValueTimes sampleRate)

end AdjustableGlobalSampler
end GlobalSampler

section Filters
variable {β : Type}

def SpanSamplerFilter.apply (sample : Int64 → Bool) (spans : List (Span β)) : List (Span β) :=
  spans.filterMap fun span =>
    if span.debug then some span
    else if sample span.traceId then some span
    else none

def SamplerFilter.apply (sampler : Int64 → Bool) (spans : List (Span β)) : List (Span β) :=
  spans.filter fun span =>
    if span.debug then true
    else if sampler span.traceId then true
    else false

theorem spanSamplerFilter_eq_filter (sample : Int64 → Bool) (spans : List (Span β)) :
    SpanSamplerFilter.apply sample spans = spans.filter fun span => span.debug || sample span.traceId := by
  rw [SpanSamplerFilter.apply, ← List.filterMap_eq_filter]
  refine List.filterMap_congr fun span _ => ?_
  cases hdebug : span.debug <;> cases hsample : sample span.traceId <;> simp [Option.guard, hdebug, hsample]

/-- The two filters are one. -/
theorem spanSamplerFilter_eq (sample : Int64 → Bool) (spans : List (Span β)) :
    SpanSamplerFilter.apply sample spans = SamplerFilter.apply sample spans := by
  rw [spanSamplerFilter_eq_filter, SamplerFilter.apply]
  refine List.filter_congr fun span _ => ?_
  cases span.debug <;> cases sample span.traceId <;> rfl

end Filters

/-! ## The rate and the ids -/

theorem magnitude_lt (traceId : Int64) : magnitude traceId < 2 ^ 63 := by
  have hle := Int64.le_toInt traceId
  have hlt := Int64.toInt_lt traceId
  unfold magnitude
  split
  · decide
  · rename_i hne
    have hmin : traceId.toInt ≠ -2 ^ 63 := fun h => hne (Int64.toInt_inj.1 (h.trans Int64.toInt_minValue.symm))
    omega

theorem magnitude_neg (traceId : Int64) : magnitude (-traceId) = magnitude traceId := by
  by_cases hmin : traceId = Int64.minValue
  · subst hmin
    rfl
  · have hle := Int64.le_toInt traceId
    have hlt := Int64.toInt_lt traceId
    have hne : traceId.toInt ≠ -2 ^ 63 := fun h => hmin (Int64.toInt_inj.1 (h.trans Int64.toInt_minValue.symm))
    have hneg : (-traceId).toInt = -traceId.toInt := by
      rw [Int64.toInt_neg]
      exact Int.bmod_eq_of_le (by omega) (by omega)
    have hmin' : -traceId ≠ Int64.minValue := fun h => by
      rw [h, Int64.toInt_minValue] at hneg
      omega
    rw [magnitude, magnitude, if_neg hmin, if_neg hmin', hneg, Int.natAbs_neg]

/-- There is an id of each magnitude. -/
theorem magnitude_ofNat {t : Nat} (h : t < 2 ^ 63) : magnitude (Int64.ofNat t) = t := by
  have ht : (Int64.ofNat t).toInt = t := Int64.toInt_ofNat_of_lt h
  have hmin : Int64.ofNat t ≠ Int64.minValue := fun heq => by
    rw [heq, Int64.toInt_minValue] at ht
    omega
  rw [magnitude, if_neg hmin, ht]
  rfl

namespace Sampler

theorem one_eq : ∃ representable, one = .finite Double.scale representable := Double.ofInt_one

theorem ofInt_natCast {t : Nat} (ht : t < 2 ^ 63) :
    ∃ representable, Double.ofInt t = .finite (Rounding.nearest 53 (t * Double.scale) : Nat) representable :=
  Double.round_of_eq_natCast (Nat.cast_mul t Double.scale).symm (Nat.mul_le_mul_right _ ht.le) (by decide)

theorem zero_le_ofInt (t : Nat) : (Double.finite 0 rfl).le (.ofInt t) = true := by
  have hzero : Double.round 0 = .finite 0 rfl := Double.round_of_natAbs_le (by decide)
  rw [← hzero]
  exact Double.round_mono (mul_nonneg (Int.natCast_nonneg t) (Int.natCast_nonneg _))

/-- **A rate above 1** leaves less than nothing to be above of. -/
theorem isAbove_of_one_lt {rate : Double} (h : one.lt rate = true) (t : Nat) : isAbove rate t = true := by
  have hneg : Double.round (-1) = .finite (-1) rfl := Double.round_of_natAbs_le (by decide)
  have hlt : (Double.finite (-1) rfl).lt (.ofInt t) = true :=
    Double.lt_of_lt_of_le (y := .finite 0 rfl) rfl (zero_le_ofInt t)
  obtain ⟨hscale, hone⟩ := one_eq
  unfold isAbove maxValueTimes
  rw [hone] at h ⊢
  cases rate with
  | nan | negInf => cases h
  | posInf => exact Double.lt_of_le_of_lt (y := .finite (-1) rfl) rfl hlt
  | finite n representable =>
    have hn : (Double.scale : Int) < n := of_decide_eq_true h
    have hsub : ((Double.finite Double.scale hscale).sub (.finite n representable)).le (.finite (-1) rfl) = true := by
      rw [← hneg]
      exact Double.round_mono (Int.le_sub_one_of_lt (sub_neg_of_lt hn))
    have hmul : ((Double.finite (-1) rfl).mulTwoPow 63).le (.finite (-1) rfl) = true := by
      have hle := Double.round_mono (show (-1 : Int) * 2 ^ 63 ≤ -1 by decide)
      rwa [hneg] at hle
    exact Double.lt_of_le_of_lt (Double.mulTwoPow_mono 63 hsub) (Double.lt_of_le_of_lt hmul hlt)

theorem isAbove_mono {rate rate' : Double} (h : rate.le rate' = true) {t : Nat} (ht : isAbove rate t = true) :
    isAbove rate' t = true := by
  obtain ⟨_, hone⟩ := one_eq
  unfold isAbove maxValueTimes at ht ⊢
  rw [hone] at ht ⊢
  exact Double.lt_of_le_of_lt (Double.mulTwoPow_mono 63 (Double.finite_sub_le h)) ht

theorem eq_one_or_lt {rate : Double} (h : one.le rate = true) : rate = one ∨ one.lt rate = true := by
  obtain ⟨_, hone⟩ := one_eq
  rw [hone] at h ⊢
  cases rate with
  | nan | negInf => cases h
  | posInf => exact Or.inr rfl
  | finite n =>
    rcases Int.lt_or_eq_of_le (of_decide_eq_true h) with hlt | rfl
    · exact Or.inr (decide_eq_true hlt)
    · exact Or.inl rfl

/-- **A rate of 1 or more** stores every trace. -/
theorem apply_of_one_le {rate : Double} (h : one.le rate = true) (traceId : Int64) : apply rate traceId = true := by
  rw [apply, Bool.or_eq_true, decide_eq_true_iff]
  exact (eq_one_or_lt h).imp_right fun hlt => isAbove_of_one_lt hlt _

/-- **A trace that is stored at some rate** is stored at every higher one. -/
theorem apply_mono {rate rate' : Double} (h : rate.le rate' = true) {traceId : Int64} (ht : apply rate traceId = true) :
    apply rate' traceId = true := by
  rw [apply, Bool.or_eq_true, decide_eq_true_iff] at ht
  rcases ht with heq | ht
  · exact apply_of_one_le (heq ▸ h) traceId
  · rw [apply, isAbove_mono h ht, Bool.or_true]

theorem apply_neg (rate : Double) (traceId : Int64) : apply rate (-traceId) = apply rate traceId := by
  rw [apply, apply, magnitude_neg]

end Sampler

namespace GlobalSampler.AdjustableGlobalSampler

open Sampler

/-- Every id is below `2 ^ 63`, or is rounded to it. -/
theorem nearest_mul_scale_le {t : Nat} (h : t < 2 ^ 63) :
    Rounding.nearest 53 (t * Double.scale) ≤ 2 ^ 63 * Double.scale :=
  Double.nearest_two_pow_mul_scale 63 ▸ Rounding.nearest_mono (by decide) (Nat.mul_le_mul_right _ h.le)

/-- **A rate above 1** is above of every id. -/
theorem ofInt_lt_of_one_lt {rate : Double} (h : one.lt rate = true) {t : Nat} (ht : t < 2 ^ 63) :
    (Double.ofInt t).lt (maxValueTimes rate) = true := by
  obtain ⟨_, hone⟩ := one_eq
  obtain ⟨_, hofInt⟩ := ofInt_natCast ht
  rw [hone] at h
  rw [hofInt]
  cases rate with
  | nan | negInf => cases h
  | posInf => rfl
  | finite n representable =>
    have hn : (Double.scale : Int) < n := of_decide_eq_true h
    have hle : ((Rounding.nearest 53 (t * Double.scale) : Nat) : Int) ≤ 2 ^ 63 * Double.scale := by
      exact_mod_cast nearest_mul_scale_le ht
    refine Double.finite_lt_round ?_ (Double.neg_limit_lt.trans_le (Int.natCast_nonneg _))
    rw [Rounding.nearestInt_mul_of_eq (by decide) representable, mul_comm n]
    exact hle.trans_lt (mul_lt_mul_of_pos_left hn (by decide))

theorem sample_mono {rate rate' : Double} (h : rate.le rate' = true) {traceId : Int64} (ht : sample traceId rate = true) :
    sample traceId rate' = true := by
  unfold sample at ht ⊢
  split
  · rfl
  · rename_i hne
    split at ht
    · rename_i heq
      exact ofInt_lt_of_one_lt ((eq_one_or_lt (heq ▸ h)).resolve_left hne) (magnitude_lt traceId)
    · exact Double.lt_of_lt_of_le ht (Double.mulTwoPow_mono 63 h)

end GlobalSampler.AdjustableGlobalSampler

/-! ## The rate changes -/

namespace Sampler

section Runs
variable {β : Type}

inductive Event (β : Type) where
  | rate (rate : Double)
  | batch (spans : List (Span β))

structure State (β : Type) where
  /-- The `AtomicReference` of the sampler, or the `AtomicDouble` of its configuration. -/
  rate : Double
  received : List (Span β)
  /-- What the filter has passed on to the store. -/
  stored : List (Span β)

def init (rate : Double) : State β := ⟨rate, [], []⟩

def step (sample : Double → Int64 → Bool) (s : State β) : Event β → Option (State β)
  | .rate rate => some { s with rate := rate }
  | .batch spans => some { s with
      received := s.received ++ spans
      stored := s.stored ++ SpanSamplerFilter.apply (sample s.rate) spans }

/-- Of this trace, all that was received is stored. -/
def Complete (traceId : Int64) (s : State β) : Prop :=
  s.stored.filter (·.traceId == traceId) = s.received.filter (·.traceId == traceId)

/-- Of this trace, only what has the debug flag is stored. -/
def OnlyDebug (traceId : Int64) (s : State β) : Prop :=
  s.stored.filter (·.traceId == traceId) = s.received.filter fun span => span.traceId == traceId && span.debug

def Between (low high rate : Double) : Prop := low.le rate = true ∧ rate.le high = true

/-- The rates that are set are between these. -/
def RatesBetween (low high : Double) (event : Event β) : Prop := ∀ rate, event = .rate rate → Between low high rate

/-- What is stored at some rate is stored at every higher one. -/
def Nested (sample : Double → Int64 → Bool) : Prop :=
  ∀ ⦃rate rate' : Double⦄ ⦃traceId : Int64⦄, rate.le rate' = true → sample rate traceId = true → sample rate' traceId = true

variable {sample : Double → Int64 → Bool} {low high : Double} {s s' : State β} {event : Event β}

theorem between_step (h : Between low high s.rate) (hevent : RatesBetween low high event)
    (hstep : step sample s event = some s') : Between low high s'.rate := by
  cases event with
  | rate rate => exact Option.some.inj hstep ▸ hevent rate rfl
  | batch spans => exact Option.some.inj hstep ▸ h

theorem complete_step (hnested : Nested sample) {traceId : Int64} (hlow : sample low traceId = true)
    (h : Complete traceId s ∧ Between low high s.rate) (hstep : step sample s event = some s') : Complete traceId s' := by
  cases event with
  | rate rate => exact Option.some.inj hstep ▸ h.1
  | batch spans =>
    obtain rfl := Option.some.inj hstep
    have hsample : sample s.rate traceId = true := hnested h.2.1 hlow
    unfold Complete
    rw [List.filter_append, List.filter_append, h.1, spanSamplerFilter_eq_filter, List.filter_filter]
    congr 1
    refine List.filter_congr fun span _ => ?_
    by_cases heq : span.traceId = traceId
    · simp [heq, hsample]
    · simp [heq]

theorem onlyDebug_step (hnested : Nested sample) {traceId : Int64} (hhigh : sample high traceId = false)
    (h : OnlyDebug traceId s ∧ Between low high s.rate) (hstep : step sample s event = some s') : OnlyDebug traceId s' := by
  cases event with
  | rate rate => exact Option.some.inj hstep ▸ h.1
  | batch spans =>
    obtain rfl := Option.some.inj hstep
    have hsample : sample s.rate traceId = false :=
      Bool.eq_false_iff.2 fun hs => Bool.false_ne_true (hhigh.symm.trans (hnested h.2.2 hs))
    unfold OnlyDebug
    rw [List.filter_append, List.filter_append, h.1, spanSamplerFilter_eq_filter, List.filter_filter]
    congr 1
    refine List.filter_congr fun span _ => ?_
    by_cases heq : span.traceId = traceId
    · rw [heq, hsample, beq_self_eq_true]
      simp
    · rw [beq_false_of_ne heq, Bool.false_and, Bool.false_and]

theorem filtered_run (hnested : Nested sample) {rate : Double} {events : List (Event β)} {s : State β}
    (hrate : Between low high rate)
    (hevents : ∀ event ∈ events, RatesBetween low high event) (hrun : run (step sample) (init rate) events = some s)
    (traceId : Int64) : (sample low traceId = true → Complete traceId s) ∧
    (sample high traceId = false → OnlyDebug traceId s) := by
  have hmeets : Meets (step sample) (fun _ event => RatesBetween low high event) (init rate) events :=
    meets_of_forall fun event hevent _ => hevents event hevent
  constructor
  · intro hlow
    exact (run_invariant_of_meets (P := fun s => Complete traceId s ∧ Between low high s.rate)
      (fun s event s' h hevent hstep => ⟨complete_step hnested hlow h hstep, between_step h.2 hevent hstep⟩)
      (show Complete traceId (init rate) ∧ _ from ⟨rfl, hrate⟩) hmeets hrun).1
  · intro hhigh
    exact (run_invariant_of_meets (P := fun s => OnlyDebug traceId s ∧ Between low high s.rate)
      (fun s event s' h hevent hstep => ⟨onlyDebug_step hnested hhigh h hstep, between_step h.2 hevent hstep⟩)
      (show OnlyDebug traceId (init rate) ∧ _ from ⟨rfl, hrate⟩) hmeets hrun).1

end Runs

/-- **Traces are stored whole**: however the rate changes between batches, of a trace that is stored at the lowest rate of
the run every span is stored, and of one that is not stored at the highest only spans with the debug flag are. -/
theorem complete_or_onlyDebug {β : Type} (sample : Double → Int64 → Bool)
    (hsample : sample = apply ∨ sample = fun rate traceId => GlobalSampler.AdjustableGlobalSampler.sample traceId rate)
    (low high rate : Double) (events : List (Event β)) (s : State β) (hrate : Between low high rate)
    (hevents : ∀ event ∈ events, RatesBetween low high event) (hrun : run (step sample) (init rate) events = some s)
    (traceId : Int64) : (sample low traceId = true → Complete traceId s) ∧
    (sample high traceId = false → OnlyDebug traceId s) := by
  rcases hsample with rfl | rfl
  · have hnested : Nested apply := fun _ _ _ h => apply_mono h
    exact filtered_run hnested hrate hevents hrun traceId
  · have hnested : Nested fun rate traceId => GlobalSampler.AdjustableGlobalSampler.sample traceId rate :=
      fun _ _ _ h => GlobalSampler.AdjustableGlobalSampler.sample_mono h
    exact filtered_run hnested hrate hevents hrun traceId

/-- The rate goes up from 1. -/
theorem complete_or_onlyDebug_one : ∃ s : State Unit, run (step apply) (init one)
    [.batch [.apply 5 "get" 5 none [] []], .rate .posInf, .batch [.apply 5 "put" 6 none [] []]] = some s ∧ Complete 5 s := by
  have hone : one.le one = true := by
    obtain ⟨_, hone⟩ := one_eq
    exact hone ▸ decide_eq_true (Int.le_refl _)
  have hinf : one.le .posInf = true := by
    obtain ⟨_, hone⟩ := one_eq
    exact hone ▸ rfl
  refine ⟨_, rfl, (complete_or_onlyDebug apply (Or.inl rfl) one .posInf one
    [.batch [.apply 5 "get" 5 none [] []], .rate .posInf, .batch [.apply 5 "put" 6 none [] []]] _
    ⟨hone, hinf⟩ (fun event hevent rate hrate => ?_) rfl 5).1 (apply_of_one_le hone 5)⟩
  subst hrate
  simp only [List.mem_cons, List.not_mem_nil, reduceCtorEq, false_or, or_false, Event.rate.injEq] at hevent
  obtain rfl := hevent
  exact ⟨hinf, rfl⟩

/-! ## The share of the traces -/

/-- **What a rate between 0 and 1 stores**, in whole numbers. -/
theorem isAbove_finite {n : Nat} (hn : n ≤ Double.scale) (representable : Rounding.nearestInt 53 n = n) {t : Nat}
    (ht : t < 2 ^ 63) : isAbove (.finite n representable) t =
      decide (Rounding.nearest 53 (Double.scale - n) * 2 ^ 63 < Rounding.nearest 53 (t * Double.scale)) := by
  obtain ⟨_, hone⟩ := one_eq
  obtain ⟨_, hofInt⟩ := ofInt_natCast ht
  obtain ⟨hc, hsub⟩ := Double.round_of_eq_natCast (k := 0) (Nat.cast_sub (R := Int) hn).symm
    (by rw [Nat.pow_zero, Nat.one_mul]; exact Nat.sub_le _ _) (by decide)
  have hle : Rounding.nearest 53 (Double.scale - n) * 2 ^ 63 ≤ 2 ^ 63 * Double.scale := by
    rw [Nat.mul_comm]
    refine Nat.mul_le_mul_left _ ((Rounding.nearest_mono (by decide) (Nat.sub_le Double.scale n)).trans ?_)
    rw [Double.nearest_scale]
  have hexact := Rounding.nearest_mul_of_eq (p := 53) (by decide) (Int.ofNat.inj hc) 63
  have hcast : ((Rounding.nearest 53 (Double.scale - n) : Nat) : Int) * 2 ^ 63 =
      (Rounding.nearest 53 (Double.scale - n) * 2 ^ 63 : Nat) := by rw [Nat.cast_mul, Nat.cast_pow]; rfl
  obtain ⟨hthreshold, hmul⟩ := Double.round_of_nearest_eq hcast hexact hle (by decide)
  have hsubMul : (one.sub (.finite n representable)).mulTwoPow 63 =
      .finite (Rounding.nearest 53 (Double.scale - n) * 2 ^ 63 : Nat) hthreshold := by
    rw [hone]
    exact (congrArg (Double.mulTwoPow 63) hsub).trans hmul
  unfold isAbove maxValueTimes
  rw [hsubMul, hofInt]
  exact decide_eq_decide.2 Int.ofNat_lt

/-- Rounding a number up to `2 ^ (53 + e + 1)` is off by at most `2 ^ e`. -/
theorem nearest_bounds {m e : Nat} (h : m ≤ 2 ^ (53 + (e + 1))) :
    Rounding.nearest 53 m ≤ m + 2 ^ e ∧ m ≤ Rounding.nearest 53 m + 2 ^ e := by
  rcases Nat.lt_or_eq_of_le h with hlt | rfl
  · have hunit := Rounding.unit_le (p := 53) (by decide) hlt
    have hle := Rounding.two_mul_nearest_le 53 m
    have hge := Rounding.two_mul_le_nearest 53 m
    rw [Nat.pow_succ] at hunit
    constructor <;> omega
  · rw [Double.nearest_two_pow]
    exact ⟨Nat.le_add_right _ _, Nat.le_add_right _ _⟩

/-- How many of the ids from 0 on are stored. -/
def stored (rate : Double) : Nat := ((Finset.range (2 ^ 63)).filter fun t => apply rate (Int64.ofNat t) = true).card

theorem card_filter_bounds {p : Nat → Prop} [DecidablePred p] {size low high : Nat} (hlow : ∀ t < size, p t → low ≤ t)
    (hhigh : ∀ t < size, high ≤ t → p t) : size ≤ ((Finset.range size).filter p).card + high ∧
      ((Finset.range size).filter p).card + low ≤ max size low := by
  have hsub : Finset.Ico high size ⊆ (Finset.range size).filter p := fun t ht => by
    obtain ⟨hle, hlt⟩ := Finset.mem_Ico.1 ht
    exact Finset.mem_filter.2 ⟨Finset.mem_range.2 hlt, hhigh t hlt hle⟩
  have hsup : (Finset.range size).filter p ⊆ Finset.Ico low size := fun t ht => by
    obtain ⟨hmem, hp⟩ := Finset.mem_filter.1 ht
    exact Finset.mem_Ico.2 ⟨hlow t (Finset.mem_range.1 hmem) hp, Finset.mem_range.1 hmem⟩
  have hle := Finset.card_le_card hsub
  have hge := Finset.card_le_card hsup
  rw [Nat.card_Ico] at hle hge
  omega

/-- How many there are of which `p` holds, if it holds from a share of `size` on, give or take some slack. -/
theorem card_filter_mul_bounds (size share slack : Nat) {p : Nat → Prop} [DecidablePred p] {scale : Nat} (hpos : 0 < scale)
    (hshare : share * size ≤ size * scale + slack) (hlow : ∀ t < size, p t → share * size ≤ t * scale + slack)
    (hhigh : ∀ t < size, share * size + slack < t * scale → p t) :
    size * scale ≤ ((Finset.range size).filter p).card * scale + share * size + slack + scale ∧
      ((Finset.range size).filter p).card * scale + share * size ≤ size * scale + slack + scale := by
  have hlow' : ∀ t < size, p t → (share * size - slack) / scale ≤ t := fun t ht h =>
    Nat.div_le_of_le_mul (Nat.sub_le_of_le_add (Nat.mul_comm scale t ▸ hlow t ht h))
  have hhigh' : ∀ t < size, (share * size + slack) / scale + 1 ≤ t → p t := fun t ht h =>
    hhigh t ht ((Nat.div_lt_iff_lt_mul hpos).1 (Nat.lt_of_succ_le h))
  obtain ⟨hcard, hcard'⟩ := card_filter_bounds hlow' hhigh'
  have hmax : (share * size - slack) / scale ≤ size :=
    Nat.div_le_of_le_mul (Nat.sub_le_of_le_add (Nat.mul_comm scale size ▸ hshare))
  rw [max_eq_left hmax] at hcard'
  have hupper := Nat.mul_le_mul_right scale hcard'
  have hlower := Nat.mul_le_mul_right scale hcard
  rw [Nat.add_mul] at hupper
  rw [Nat.add_mul, Nat.add_mul, Nat.one_mul] at hlower
  have hlt := Nat.lt_div_mul_add (a := share * size - slack) hpos
  have hle := Nat.div_mul_le_self (share * size + slack) scale
  omega

theorem eq_one_iff {n : Nat} {representable : Rounding.nearestInt 53 n = n} :
    (Double.finite n representable) = one ↔ n = Double.scale := by
  obtain ⟨_, hone⟩ := one_eq
  rw [hone, Double.finite.injEq, Int.natCast_inj]

theorem apply_ofNat {n : Nat} (hn : n ≤ Double.scale) (representable : Rounding.nearestInt 53 n = n) {t : Nat}
    (ht : t < 2 ^ 63) : apply (.finite n representable) (Int64.ofNat t) = true ↔
      n = Double.scale ∨ Rounding.nearest 53 (Double.scale - n) * 2 ^ 63 < Rounding.nearest 53 (t * Double.scale) := by
  rw [apply, Bool.or_eq_true, decide_eq_true_iff, eq_one_iff, magnitude_ofNat ht, isAbove_finite hn representable ht,
    decide_eq_true_iff]

theorem exists_scale_eq : ∃ e, Double.leastExponent = 53 + (e + 1) ∧ Double.scale = 2 ^ 54 * 2 ^ e := by
  refine ⟨1020, by rw [Double.leastExponent], ?_⟩
  rw [Double.scale, Double.leastExponent, ← Nat.pow_add]

/-- The rounding of an id. -/
theorem nearest_mul_scale_bounds {e : Nat} (hscale : Double.scale = 2 ^ 54 * 2 ^ e) {t : Nat} (ht : t < 2 ^ 63) :
    Rounding.nearest 53 (t * Double.scale) ≤ t * Double.scale + 2 ^ 63 * 2 ^ e ∧
      t * Double.scale ≤ Rounding.nearest 53 (t * Double.scale) + 2 ^ 63 * 2 ^ e := by
  have hpow : 2 ^ (53 + (63 + e + 1)) = 2 ^ 63 * Double.scale := by
    rw [hscale, ← Nat.pow_add, ← Nat.pow_add]
    congr 1
    omega
  have hle : t * Double.scale ≤ 2 ^ (53 + (63 + e + 1)) := by
    rw [hpow]
    exact Nat.mul_le_mul_right _ ht.le
  rw [← Nat.pow_add]
  exact nearest_bounds hle

/-- **The share of the ids that is stored is the rate**, within 1025 of `2 ^ 63` ids. -/
theorem stored_bounds (n : Nat) (hn : n ≤ Double.scale) (representable : Rounding.nearestInt 53 n = n) :
    stored (.finite n representable) * Double.scale ≤ n * 2 ^ 63 + 1025 * Double.scale ∧
      n * 2 ^ 63 ≤ stored (.finite n representable) * Double.scale + 1025 * Double.scale := by
  obtain ⟨e, he, hscale⟩ := exists_scale_eq
  -- the rounding of what the rate leaves
  have hc : Double.scale - n ≤ 2 ^ (53 + (e + 1)) := by
    rw [← he]
    exact Nat.sub_le _ n
  obtain ⟨hcle, hcge⟩ := nearest_bounds hc
  have hfull : n = Double.scale → Rounding.nearest 53 (Double.scale - n) = 0 := by
    rintro rfl
    rw [Nat.sub_self]
    exact Rounding.nearest_eq_self (by decide) (Nat.zero_le _)
  have happly := fun {t : Nat} => apply_ofNat hn representable (t := t)
  generalize Rounding.nearest 53 (Double.scale - n) = c at hcle hcge hfull happly
  have hround := fun {t : Nat} => nearest_mul_scale_bounds hscale (t := t)
  have hpos := Double.scale_pos
  generalize 2 ^ e = k at *
  have hbounds := card_filter_mul_bounds (2 ^ 63) c (2 ^ 63 * k)
    (p := fun t => apply (.finite n representable) (Int64.ofNat t) = true) hpos (by omega)
    (fun t ht h => by
      rcases (happly ht).1 h with hn' | hlt
      · rw [hfull hn', Nat.zero_mul]
        exact Nat.zero_le _
      · exact hlt.le.trans (hround ht).1)
    (fun t ht h => (happly ht).2 (Or.inr (Nat.lt_of_add_lt_add_right (h.trans_le (hround ht).2))))
  unfold stored
  clear happly hround hfull
  omega

/-- A rate of one half: of `2 ^ 63` ids, `2 ^ 62` are stored, or up to 1025 more or fewer. -/
theorem stored_bounds_half : ∃ n representable, 2 * n = Double.scale ∧
    stored (.finite n representable) * Double.scale ≤ n * 2 ^ 63 + 1025 * Double.scale ∧
      n * 2 ^ 63 ≤ stored (.finite n representable) * Double.scale + 1025 * Double.scale := by
  obtain ⟨e, he⟩ : ∃ e, Double.leastExponent = e + 1 := ⟨1073, by rw [Double.leastExponent]⟩
  have hhalf : 2 * 2 ^ e = Double.scale := by rw [Double.scale, he, Nat.pow_succ, Nat.mul_comm]
  have hexact := Rounding.nearestInt_eq_natCast (Double.nearest_two_pow e)
  exact ⟨2 ^ e, hexact, hhalf, stored_bounds (2 ^ e) (by omega) hexact⟩

/-! ## The least and the greatest rates -/

theorem isAbove_zero_of_lt_one {rate : Double} (h : one.le rate = false) : isAbove rate 0 = false := by
  obtain ⟨hscale, hone⟩ := one_eq
  have hround : Double.round 0 = .finite 0 rfl := Double.round_of_natAbs_le (by decide)
  have hround' : Double.round 1 = .finite 1 rfl := Double.round_of_natAbs_le (by decide)
  have hofInt : Double.ofInt (0 : Nat) = .finite 0 rfl := by
    rw [Double.ofInt, Nat.cast_zero, Int.zero_mul, hround]
  rw [isAbove, maxValueTimes, hofInt]
  rw [hone] at h ⊢
  cases rate with
  | nan | negInf => rfl
  | posInf => cases h
  | finite n representable =>
    have hn : n < Double.scale := Int.not_le.1 (of_decide_eq_false h)
    have hsub : (Double.finite 1 rfl).le ((Double.finite Double.scale hscale).sub (.finite n representable)) = true := by
      rw [← hround']
      exact Double.round_mono (Int.sub_pos_of_lt hn)
    have hmul : (Double.finite 1 rfl).le ((Double.finite 1 rfl).mulTwoPow 63) = true := by
      have hle := Double.round_mono (show (1 : Int) ≤ 1 * 2 ^ 63 by decide)
      rwa [hround'] at hle
    by_contra hlt
    have hlt' := Double.lt_of_le_of_lt (Double.mulTwoPow_mono 63 hsub) (Bool.of_not_eq_false hlt)
    exact Bool.false_ne_true (Double.lt_of_le_of_lt hmul hlt')

/-- Every trace is stored exactly at the rates from 1 on. -/
theorem forall_apply_iff (rate : Double) : (∀ traceId, apply rate traceId = true) ↔ one.le rate = true := by
  refine ⟨fun h => ?_, apply_of_one_le⟩
  by_contra hle
  have hzero := h 0
  rw [apply, Bool.or_eq_true, decide_eq_true_iff] at hzero
  rcases hzero with rfl | habove
  · obtain ⟨_, hone⟩ := one_eq
    rw [hone] at hle
    exact hle (decide_eq_true (Int.le_refl _))
  · exact Bool.false_ne_true ((isAbove_zero_of_lt_one (Bool.eq_false_iff.2 hle)).symm.trans habove)

theorem le_leastExponent : 54 ≤ Double.leastExponent := by
  rw [Double.leastExponent]
  decide

theorem two_pow_54_mul : 2 ^ 54 * 2 ^ (Double.leastExponent - 54) = Double.scale := by
  rw [Double.scale, ← Nat.pow_add, Nat.add_sub_cancel' le_leastExponent]

/-- `2 ^ -54`, half of what 1 is off the number below it. -/
def least : Double :=
  .finite (2 ^ (Double.leastExponent - 54) : Nat) (Rounding.nearestInt_eq_natCast (Double.nearest_two_pow _))

/-- What `2 ^ -54` leaves is rounded to 1. -/
theorem nearest_sub_least : Rounding.nearest 53 (Double.scale - 2 ^ (Double.leastExponent - 54)) = Double.scale := by
  rw [← two_pow_54_mul]
  generalize Double.leastExponent - 54 = e
  have hsub : 2 ^ 54 * 2 ^ e - 2 ^ e = (2 ^ 54 - 1) * 2 ^ e := (Nat.sub_one_mul _ _).symm
  rw [hsub, Rounding.nearest_mul_two_pow_of_le (by decide)]
  exact congrArg (· * 2 ^ e) (by decide)

theorem apply_least (traceId : Int64) : apply least traceId = false := by
  have hle : 2 ^ (Double.leastExponent - 54) ≤ Double.scale := by
    have := two_pow_54_mul
    omega
  have hne : ¬ 2 ^ (Double.leastExponent - 54) = Double.scale := by
    have := two_pow_54_mul
    have := Nat.two_pow_pos (Double.leastExponent - 54)
    omega
  have ht := magnitude_lt traceId
  unfold apply least
  rw [isAbove_finite hle _ ht, nearest_sub_least, Bool.or_eq_false_iff]
  refine ⟨decide_eq_false (fun heq => hne (eq_one_iff.1 heq)), decide_eq_false (Nat.not_lt.2 ?_)⟩
  rw [Nat.mul_comm Double.scale]
  exact GlobalSampler.AdjustableGlobalSampler.nearest_mul_scale_le ht

/-- The greatest id is stored first. -/
theorem apply_of_least_lt {rate : Double} (h : least.lt rate = true) : apply rate Int64.maxValue = true := by
  by_cases hone : one.le rate = true
  · exact apply_of_one_le hone _
  obtain ⟨_, heq⟩ := one_eq
  rw [heq] at hone
  cases rate with
  | nan | negInf => cases h
  | posInf => exact absurd rfl hone
  | finite n representable =>
    have hlt : ((2 ^ (Double.leastExponent - 54) : Nat) : Int) < n := of_decide_eq_true h
    have hn : n < Double.scale := Int.not_le.1 fun hle => hone (decide_eq_true hle)
    obtain ⟨m, rfl⟩ : ∃ m : Nat, n = m := ⟨n.toNat, (Int.toNat_of_nonneg ((Int.natCast_nonneg _).trans hlt.le)).symm⟩
    have hm : 2 ^ (Double.leastExponent - 54) < m := Int.ofNat_lt.1 hlt
    have hms : m < Double.scale := Int.ofNat_lt.1 hn
    have hscale := two_pow_54_mul
    rw [apply, isAbove_finite hms.le representable (magnitude_lt _), Bool.or_eq_true, decide_eq_true_iff, decide_eq_true_iff]
    refine Or.inr ?_
    have hmax : Rounding.nearest 53 (magnitude Int64.maxValue * Double.scale) = 2 ^ 63 * Double.scale := by
      have hmagnitude : magnitude Int64.maxValue = 2 ^ 63 - 1 := by decide
      rw [hmagnitude, Double.scale, Rounding.nearest_mul_two_pow_of_le (by decide)]
      exact congrArg (· * 2 ^ Double.leastExponent) (by decide)
    rw [hmax, Nat.mul_comm]
    refine Nat.mul_lt_mul_of_pos_left ?_ (Nat.two_pow_pos 63)
    -- the number below 1 is less than 1 by twice `2 ^ -54`, and what is left is below the middle between them
    obtain ⟨e, he⟩ : ∃ e, Double.leastExponent = 53 + (e + 1) := ⟨1020, by rw [Double.leastExponent]⟩
    have hsub : Double.leastExponent - 54 = e := by omega
    have hbelow : Double.scale - m < 2 ^ (53 + (e + 1)) := by
      rw [← he]
      exact Nat.sub_lt Double.scale_pos (Nat.zero_lt_of_lt hm)
    have hunit := Rounding.unit_le (p := 53) (by decide) hbelow
    have hle := Rounding.two_mul_nearest_le 53 (Double.scale - m)
    rw [hsub] at hm hscale
    rw [Nat.pow_succ] at hunit
    omega

/-- No trace is stored exactly at the rates up to `2 ^ -54`. -/
theorem forall_not_apply_iff (rate : Double) :
    (∀ traceId, apply rate traceId = false) ↔ rate = .nan ∨ rate.le least = true := by
  constructor
  · intro h
    have hmax := h Int64.maxValue
    cases rate with
    | nan => exact Or.inl rfl
    | negInf => exact Or.inr rfl
    | posInf => exact absurd (apply_of_least_lt rfl) (Bool.eq_false_iff.1 hmax)
    | finite n representable =>
      refine Or.inr (decide_eq_true (Int.not_lt.1 fun hlt => ?_))
      have hleast : least.lt (.finite n representable) = true := decide_eq_true hlt
      exact absurd (apply_of_least_lt hleast) (Bool.eq_false_iff.1 hmax)
  · rintro (rfl | hle) traceId
    · obtain ⟨_, hone⟩ := one_eq
      rw [apply, hone, isAbove, maxValueTimes, hone]
      rfl
    · exact Bool.eq_false_iff.2 fun h => Bool.false_ne_true ((apply_least traceId).symm.trans (apply_mono hle h))

/-- **Every trace is stored exactly at the rates from 1 on, and none exactly at those up to `2 ^ -54`**, which is not 0. -/
theorem apply_extremes (rate : Double) : ((∀ traceId, apply rate traceId = true) ↔ one.le rate = true) ∧
    ((∀ traceId, apply rate traceId = false) ↔ rate = .nan ∨ rate.le least = true) :=
  ⟨forall_apply_iff rate, forall_not_apply_iff rate⟩

end Sampler
end Zipkin
