import Zipkin.SpanStore
import Zipkin.Trace
import Mathlib.Order.Bounds.Defs
/-!
# TraceSummary — what the index page knows of a trace

`TraceSummary.scala` of the web server, with the methods of `Trace` that it calls.  The times of a trace are Longs, and the
difference of two is taken in a `Long`; a summary then keeps the duration as an `Int`.  So a trace of 2^31 microseconds
or more, which is some 36 minutes, has another duration in its summary than it has.

The library leaves the iteration order of sets and maps open, so they are a parameter (`SetOrder`).
-/
namespace Zipkin

variable {β : Type}

/-- `toInt` of a `Long`: its low 32 bits. -/
def toInt (x : Int) : Int := x.bmod (2 ^ 32)

structure SetOrder where
  names : List String → List String
  names_perm : ∀ l, (names l).Perm l.dedup
  endpoints : List Endpoint → List Endpoint
  endpoints_perm : ∀ l, (endpoints l).Perm l.dedup

/-- The order in which the elements were put in. -/
def SetOrder.insertion : SetOrder where
  names := List.dedup
  names_perm l := .refl l.dedup
  endpoints := List.dedup
  endpoints_perm l := .refl l.dedup

structure Timespan where
  start : Int
  stop : Int
deriving DecidableEq

namespace Trace

variable (ord : HashOrder β)

def id (t : Trace β) : Option Int64 := (t.spans ord).head?.map Span.traceId

def timestamps (t : Trace β) : List Int := (t.spans ord).flatMap (fun s => s.annotations.map Annotation.timestamp)

def getStartAndEndTimestamp (t : Trace β) : Option Timespan := do
  let start ← (t.timestamps ord).min?
  let stop ← (t.timestamps ord).max?
  pure ⟨start, stop⟩

def duration (t : Trace β) : Int :=
  let startEnd := (t.getStartAndEndTimestamp ord).getD ⟨0, 0⟩
  wrap64 (startEnd.stop - startEnd.start)

def endpoints (setOrder : SetOrder) (t : Trace β) : List Endpoint :=
  setOrder.endpoints ((t.spans ord).flatMap (fun s => s.annotations.filterMap Annotation.host))

end Trace

structure SpanTimestamp where
  name : String
  startTimestamp : Int
  endTimestamp : Int
deriving DecidableEq

def SpanTimestamp.duration (self : SpanTimestamp) : Int := wrap64 (self.endTimestamp - self.startTimestamp)

structure TraceSummary where
  traceId : String
  startTimestamp : Int
  endTimestamp : Int
  durationMicro : Int
  spanTimestamps : List SpanTimestamp
  endpoints : List Endpoint
deriving DecidableEq

namespace TraceSummary

/-- The library's functions, and the iteration orders. -/
structure Env (β : Type) where
  hashOrder : HashOrder β
  setOrder : SetOrder
  toLowerCase : String → String
  /-- `SpanId(id).toString` -/
  showId : Int64 → String

variable (env : Env β)

/-- `TraceSummary.spanTimestamps` -/
def spanTimestampsOf (spans : List (Span β)) : List SpanTimestamp :=
  spans.flatMap fun span => (env.setOrder.names (span.serviceNames env.toLowerCase)).flatMap fun serviceName =>
    (span.firstAnnotation.bind fun first => span.lastAnnotation.map fun last =>
      SpanTimestamp.mk serviceName first.timestamp last.timestamp).toList

def apply (t : Trace β) : Option TraceSummary := do
  let traceId ← t.id env.hashOrder
  let startEnd ← t.getStartAndEndTimestamp env.hashOrder
  pure {
    traceId := env.showId traceId
    startTimestamp := startEnd.start
    endTimestamp := startEnd.stop
    durationMicro := toInt (wrap64 (startEnd.stop - startEnd.start))
    spanTimestamps := spanTimestampsOf env (t.spans env.hashOrder)
    endpoints := t.endpoints env.hashOrder env.setOrder }

/-! ## The times of a summary -/

variable {env} {t : Trace β} {summary : TraceSummary}

theorem apply_eq_some (h : apply env t = some summary) :
    (t.timestamps env.hashOrder).min? = some summary.startTimestamp ∧
      (t.timestamps env.hashOrder).max? = some summary.endTimestamp ∧
      summary.durationMicro = toInt (wrap64 (summary.endTimestamp - summary.startTimestamp)) ∧
      summary.spanTimestamps = spanTimestampsOf env (t.spans env.hashOrder) := by
  obtain ⟨traceId, -, h⟩ := Option.bind_eq_some_iff.1 h
  obtain ⟨startEnd, hstartEnd, h⟩ := Option.bind_eq_some_iff.1 h
  obtain ⟨start, hstart, hstop⟩ := Option.bind_eq_some_iff.1 hstartEnd
  obtain ⟨stop, hstop, heq⟩ := Option.bind_eq_some_iff.1 hstop
  rw [← Option.some.inj h, ← Option.some.inj heq]
  exact ⟨hstart, hstop, rfl, rfl⟩

theorem isLeast_startTimestamp (h : apply env t = some summary) :
    IsLeast {x | x ∈ t.timestamps env.hashOrder} summary.startTimestamp :=
  ⟨List.min?_mem (apply_eq_some h).1, fun _ hx => (List.min?_eq_some_iff.1 (apply_eq_some h).1).2 _ hx⟩

theorem isGreatest_endTimestamp (h : apply env t = some summary) :
    IsGreatest {x | x ∈ t.timestamps env.hashOrder} summary.endTimestamp :=
  ⟨List.max?_mem (apply_eq_some h).2.1, fun _ hx => (List.max?_eq_some_iff.1 (apply_eq_some h).2.1).2 _ hx⟩

/-- **The span timestamps** are those of a span and of one of its services. -/
theorem mem_spanTimestampsOf {spans : List (Span β)} {st : SpanTimestamp} : st ∈ spanTimestampsOf env spans ↔
    ∃ span ∈ spans, st.name ∈ span.serviceNames env.toLowerCase ∧ ∃ first ∈ span.firstAnnotation,
      ∃ last ∈ span.lastAnnotation, ⟨st.name, first.timestamp, last.timestamp⟩ = st := by
  simp only [spanTimestampsOf, List.mem_flatMap, Option.mem_toList, Option.bind_eq_some_iff, Option.map_eq_some_iff,
    (env.setOrder.names_perm _).mem_iff, List.mem_dedup, Option.mem_def]
  constructor
  · rintro ⟨span, hspan, name, hname, first, hfirst, last, hlast, rfl⟩
    exact ⟨span, hspan, hname, first, hfirst, last, hlast, rfl⟩
  · rintro ⟨span, hspan, hname, first, hfirst, last, hlast, heq⟩
    exact ⟨span, hspan, st.name, hname, first, hfirst, last, hlast, heq⟩

theorem mem_timestamps {ord : HashOrder β} {x : Int} :
    x ∈ t.timestamps ord ↔ ∃ span ∈ t.spans ord, ∃ a ∈ span.annotations, a.timestamp = x := by
  simp only [Trace.timestamps, List.mem_flatMap, List.mem_map]

theorem timestamp_le_of_le {a b : Annotation} (h : StableSort.le Ord.compare a b) : a.timestamp ≤ b.timestamp := by
  have h : ((Ord.compare a.timestamp b.timestamp).then
      ((compareTo a.value b.value).then (Ord.compare a.host b.host))).isLE = true := h
  rw [← Int.isLE_compare]
  cases hc : Ord.compare a.timestamp b.timestamp with
  | lt => rfl
  | eq => rfl
  | gt =>
    rw [hc] at h
    cases h

theorem first_le_last {span : Span β} {first last : Annotation} (hfirst : first ∈ span.firstAnnotation)
    (hlast : last ∈ span.lastAnnotation) : first.timestamp ≤ last.timestamp := by
  obtain ⟨rest, hrest⟩ := List.head?_eq_some_iff.1 hfirst
  have hsorted := span.sorted
  have hlast : last ∈ span.annotations := List.mem_of_getLast? hlast
  rw [hrest] at hsorted hlast
  rcases List.mem_cons.1 hlast with rfl | hlast
  · exact le_refl _
  · exact timestamp_le_of_le (List.rel_of_pairwise_cons hsorted hlast)

theorem within_of_mem (h : apply env t = some summary) {st : SpanTimestamp} (hst : st ∈ summary.spanTimestamps) :
    summary.startTimestamp ≤ st.startTimestamp ∧ st.startTimestamp ≤ st.endTimestamp ∧
      st.endTimestamp ≤ summary.endTimestamp := by
  rw [(apply_eq_some h).2.2.2] at hst
  obtain ⟨span, hspan, -, first, hfirst, last, hlast, heq⟩ := mem_spanTimestampsOf.1 hst
  have hfirst' : first.timestamp ∈ t.timestamps env.hashOrder :=
    mem_timestamps.2 ⟨span, hspan, first, List.mem_of_head? hfirst, rfl⟩
  have hlast' : last.timestamp ∈ t.timestamps env.hashOrder :=
    mem_timestamps.2 ⟨span, hspan, last, List.mem_of_getLast? hlast, rfl⟩
  rw [← heq]
  exact ⟨(isLeast_startTimestamp h).2 hfirst', first_le_last hfirst hlast, (isGreatest_endTimestamp h).2 hlast'⟩

/-- The times of a summary are those of its trace. -/
structure Exact (env : Env β) (t : Trace β) (summary : TraceSummary) : Prop where
  duration_eq : summary.durationMicro = summary.endTimestamp - summary.startTimestamp
  least : IsLeast {x | x ∈ t.timestamps env.hashOrder} summary.startTimestamp
  greatest : IsGreatest {x | x ∈ t.timestamps env.hashOrder} summary.endTimestamp
  duration_le : ∀ st ∈ summary.spanTimestamps, st.duration ≤ summary.durationMicro

theorem start_le_end (h : apply env t = some summary) : summary.startTimestamp ≤ summary.endTimestamp :=
  (isLeast_startTimestamp h).2 (isGreatest_endTimestamp h).1

theorem toInt_eq_iff {x : Int} (hx : 0 ≤ x) : toInt x = x ↔ x < 2 ^ 31 := by
  constructor
  · intro h
    have hlt : x.bmod (2 ^ 32) < (2 ^ 32 + 1) / 2 := Int.bmod_lt (by decide)
    have h : x.bmod (2 ^ 32) = x := h
    omega
  · exact fun h => Int.bmod_eq_of_le (by omega) (by omega)

theorem duration_eq_iff (h : apply env t = some summary)
    (hfits : summary.endTimestamp - summary.startTimestamp < 2 ^ 63) :
    summary.durationMicro = summary.endTimestamp - summary.startTimestamp ↔
      summary.endTimestamp - summary.startTimestamp < 2 ^ 31 := by
  have hle := start_le_end h
  rw [(apply_eq_some h).2.2.1, wrap64_of_mem (by omega) hfits]
  exact toInt_eq_iff (by omega)

/-- **When the times of a summary are those of its trace**: if the trace is shorter than 2^31. -/
theorem exact_iff (h : apply env t = some summary) (hfits : summary.endTimestamp - summary.startTimestamp < 2 ^ 63) :
    Exact env t summary ↔ summary.endTimestamp - summary.startTimestamp < 2 ^ 31 := by
  constructor
  · exact fun hexact => (duration_eq_iff h hfits).1 hexact.duration_eq
  · intro hlt
    have hduration := (duration_eq_iff h hfits).2 hlt
    refine ⟨hduration, isLeast_startTimestamp h, isGreatest_endTimestamp h, fun st hst => ?_⟩
    obtain ⟨hstart, horder, hend⟩ := within_of_mem h hst
    rw [SpanTimestamp.duration, wrap64_of_mem (by omega) (by omega), hduration]
    omega

theorem exists_apply (env : Env β) (h : t.timestamps env.hashOrder ≠ []) : ∃ summary, apply env t = some summary := by
  obtain ⟨start, hstart⟩ := Option.ne_none_iff_exists'.1 (mt List.min?_eq_none_iff.1 h)
  obtain ⟨stop, hstop⟩ := Option.ne_none_iff_exists'.1 (mt List.max?_eq_none_iff.1 h)
  have hspans : t.spans env.hashOrder ≠ [] := fun hnil => h (by rw [Trace.timestamps, hnil]; rfl)
  obtain ⟨span, rest, hspan⟩ := List.exists_cons_of_ne_nil hspans
  exact ⟨_, by simp only [apply, Trace.id, Trace.getStartAndEndTimestamp, hspan, hstart, hstop]; rfl⟩

end TraceSummary
end Zipkin
