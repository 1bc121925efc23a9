import Zipkin.ByteBuffer
import Zipkin.Span
/-!
# SpanStore — what a store answers, and the store in memory

`SpanStore.scala`.  The store in memory keeps the spans in the order in which they came, each with the buffers it came
with: a span refers to the payloads of its binary annotations, and their contents are the heap.
-/
namespace Zipkin

variable {κ : Type}

structure IndexedTraceId where
  traceId : Int64
  timestamp : Int
deriving DecidableEq, Repr

/-- What the query server asks a store.  A payload to look for is its bytes. -/
structure SpanStore (κ : Type) where
  getSpansByTraceIds : List Int64 → List (List (Span κ))
  getTraceIdsByName (serviceName : String) (spanName : Option String) (endTs limit : Int) : List IndexedTraceId
  getTraceIdsByAnnotation (serviceName annotation : String) (value : Option (List UInt8)) (endTs limit : Int) :
    List IndexedTraceId

/-- `toLowerCase` of the JDK is a parameter. -/
def Span.serviceNames (toLowerCase : String → String) (self : Span κ) : List String :=
  self.annotations.filterMap (fun a => a.host.map (fun h => toLowerCase h.serviceName))

/-- The entry of a span that has a last annotation. -/
def InMemorySpanStore.indexed (span : Span κ) : IndexedTraceId := ⟨span.traceId, span.lastTimestamp.getD 0⟩

/-- The timestamp of a trace without annotations sorts before all others. -/
def InMemorySpanStore.firstTimestampLe (a b : List (Span κ)) : Bool :=
  match a.head?.bind Span.firstTimestamp, b.head?.bind Span.firstTimestamp with
  | none, _ => true
  | some _, none => false
  | some x, some y => decide (x ≤ y)

/-- `spans`, the array of the store in memory. -/
abbrev SpanBuffer (κ : Type) := List (Span κ)

namespace SpanBuffer

open InMemorySpanStore

variable (toLowerCase : String → String) (heap : κ → ByteBuffer) (spans : SpanBuffer κ)

def spansForService (name : String) : List (Span κ) :=
  spans.filter (fun span => (span.serviceNames toLowerCase).any (fun s => toLowerCase s == toLowerCase name))

/-- `apply`: the new spans are appended, with their annotations sorted. -/
def apply (newSpans : List (Span κ)) : SpanBuffer κ :=
  spans ++ newSpans.map (fun s => s.copyAnnotations (StableSort.sorted Ord.compare s.annotations))

def getSpansByTraceIds (traceIds : List Int64) : List (List (Span κ)) :=
  (traceIds.flatMap (fun id => [spans.filter (fun s => s.traceId == id)].filter
    (fun l => decide (l.length > 0)))).insertionSort (fun a b => firstTimestampLe a b)

def getTraceIdsByName (serviceName : String) (spanName : Option String) (endTs limit : Int) : List IndexedTraceId :=
  let spans : List (Span κ) := match spanName with
    | some name => (spansForService toLowerCase spans serviceName).filter
        (fun span => toLowerCase span.name == toLowerCase name)
    | none => spansForService toLowerCase spans serviceName
  ((spans.filter (fun span => match span.lastAnnotation with
    | some ann => decide (ann.timestamp ≤ endTs)
    | none => false)).take limit.toNat).map indexed

/-- With a value, the binary annotations are looked at and the last timestamp; without, the annotations and the first. -/
def getTraceIdsByAnnotation (serviceName annotation : String) (value : Option (List UInt8)) (endTs limit : Int) :
    List IndexedTraceId :=
  if Constants.CoreAnnotations.contains annotation then []
  else
    let spans : List (Span κ) := match value with
      | some v => (spansForService toLowerCase spans serviceName).filter (fun span =>
          match span.lastAnnotation with
          | some ann => decide (ann.timestamp ≤ endTs) &&
              span.binaryAnnotations.any (fun ba => ba.key == annotation && (heap ba.value).bytes == v)
          | none => false)
      | none => (spansForService toLowerCase spans serviceName).filter (fun span =>
          match span.firstAnnotation with
          | some ann => decide (ann.timestamp ≤ endTs) && span.annotations.any (fun a => a.value == annotation)
          | none => false)
    (spans.take limit.toNat).map indexed

/-! ## The spans that a query matches -/

def hasService (serviceName : String) (span : Span κ) : Bool :=
  (span.serviceNames toLowerCase).any (fun s => toLowerCase s == toLowerCase serviceName)

def matchesName (serviceName : String) (spanName : Option String) (endTs : Int) (span : Span κ) : Bool :=
  hasService toLowerCase serviceName span && spanName.all (fun name => toLowerCase span.name == toLowerCase name) &&
    span.lastTimestamp.any (fun ts => decide (ts ≤ endTs))

def matchesAnnotation (serviceName annotation : String) (value : Option (List UInt8)) (endTs : Int) (span : Span κ) :
    Bool :=
  !Constants.CoreAnnotations.contains annotation && hasService toLowerCase serviceName span &&
    match value with
    | some v => span.binaryAnnotations.any (fun ba => ba.key == annotation && (heap ba.value).bytes == v) &&
        span.lastTimestamp.any (fun ts => decide (ts ≤ endTs))
    | none => span.annotations.any (fun a => a.value == annotation) &&
        span.firstTimestamp.any (fun ts => decide (ts ≤ endTs))

/-- **A query by name**: the entries of the spans that match, as many as are asked for. -/
theorem getTraceIdsByName_eq (serviceName : String) (spanName : Option String) (endTs limit : Int) :
    getTraceIdsByName toLowerCase spans serviceName spanName endTs limit =
      ((spans.filter (matchesName toLowerCase serviceName spanName endTs)).take limit.toNat).map indexed := by
  unfold getTraceIdsByName spansForService
  refine congrArg _ (congrArg _ ?_)
  cases spanName with
  | none =>
    rw [List.filter_filter]
    refine List.filter_congr (fun span _ => ?_)
    rw [matchesName, Option.all_none, Bool.and_true, Span.lastTimestamp, Option.any_map, Bool.and_comm]
    cases span.lastAnnotation <;> rfl
  | some name =>
    rw [List.filter_filter, List.filter_filter]
    refine List.filter_congr (fun span _ => ?_)
    rw [matchesName, Option.all_some, Span.lastTimestamp, Option.any_map, Bool.and_comm, Bool.and_assoc]
    refine congrArg _ ?_
    rw [Bool.and_comm]
    cases span.lastAnnotation <;> rfl

/-- **A query by annotation.** -/
theorem getTraceIdsByAnnotation_eq (serviceName annotation : String) (value : Option (List UInt8)) (endTs limit : Int) :
    getTraceIdsByAnnotation toLowerCase heap spans serviceName annotation value endTs limit =
      ((spans.filter (SpanBuffer.matchesAnnotation toLowerCase heap serviceName annotation value endTs)).take limit.toNat).map
        indexed := by
  unfold getTraceIdsByAnnotation spansForService
  cases hcore : Constants.CoreAnnotations.contains annotation with
  | true =>
    have hnone : spans.filter (SpanBuffer.matchesAnnotation toLowerCase heap serviceName annotation value endTs) = [] := by
      refine List.filter_eq_nil_iff.2 (fun span _ => ?_)
      unfold matchesAnnotation
      rw [hcore, Bool.not_true, Bool.false_and, Bool.false_and]
      exact Bool.false_ne_true
    rw [if_pos rfl, hnone, List.take_nil, List.map_nil]
  | false =>
    rw [if_neg Bool.false_ne_true]
    refine congrArg _ (congrArg _ ?_)
    cases value with
    | some v =>
      refine List.filter_filter.trans (List.filter_congr (fun span _ => ?_))
      unfold matchesAnnotation
      rw [hcore, Bool.not_false, Bool.true_and, Bool.and_comm, Span.lastTimestamp, Option.any_map]
      refine congrArg _ ?_
      cases span.lastAnnotation with
      | none => exact (Bool.and_false _).symm
      | some ann => exact Bool.and_comm _ _
    | none =>
      refine List.filter_filter.trans (List.filter_congr (fun span _ => ?_))
      unfold matchesAnnotation
      rw [hcore, Bool.not_false, Bool.true_and, Bool.and_comm, Span.firstTimestamp, Option.any_map]
      refine congrArg _ ?_
      cases span.firstAnnotation with
      | none => exact (Bool.and_false _).symm
      | some ann => exact Bool.and_comm _ _

/-- The store in memory as a store, with the contents of its buffers. -/
def toSpanStore : SpanStore κ where
  getSpansByTraceIds := spans.getSpansByTraceIds
  getTraceIdsByName := getTraceIdsByName toLowerCase spans
  getTraceIdsByAnnotation := getTraceIdsByAnnotation toLowerCase heap spans

end SpanBuffer
end Zipkin
