import Mathlib.Data.List.Dedup
import Mathlib.Order.Compare
import Zipkin.Base.StableSort
import Zipkin.Common
/-!
# Span — one RPC, or one part of it as it was recorded

A `Span` carries the proof that its annotations are sorted: both ways of making one, `Span.apply` and `mergeSpan`, sort
them (`Span.scala`).  A span is ordered by its first timestamp, 0 when it has no annotation.
-/
namespace Zipkin

open StableSort

variable {β : Type}

@[ext]
structure Span (β : Type) where
  traceId : Int64
  name : String
  id : Int64
  parentId : Option Int64
  annotations : List Annotation
  binaryAnnotations : List (Zipkin.BinaryAnnotation β)
  debug : Bool
  sorted : annotations.Pairwise (le (Ord.compare (α := Annotation)))
deriving DecidableEq

namespace Span

/-- `Span.apply`: the annotations are sorted on the way in, and `debug` is off unless given. -/
def apply (traceId : Int64) (name : String) (id : Int64) (parentId : Option Int64) (annotations : List Annotation)
    (binaryAnnotations : List (Zipkin.BinaryAnnotation β)) (debug : Bool := false) : Span β where
  traceId := traceId
  name := name
  id := id
  parentId := parentId
  annotations := StableSort.sorted Ord.compare annotations
  binaryAnnotations := binaryAnnotations
  debug := debug
  sorted := pairwise_sorted _ annotations

def copyAnnotations (self : Span β) (annotations : List Annotation) : Span β :=
  apply self.traceId self.name self.id self.parentId annotations self.binaryAnnotations self.debug

theorem annotations_copyAnnotations_perm (s : Span β) (l : List Annotation) :
    (s.copyAnnotations l).annotations.Perm l := sorted_perm _ l

def firstAnnotation (self : Span β) : Option Annotation := self.annotations.head?

def lastAnnotation (self : Span β) : Option Annotation := self.annotations.getLast?

def firstTimestamp (self : Span β) : Option Int := self.firstAnnotation.map Annotation.timestamp

def lastTimestamp (self : Span β) : Option Int := self.lastAnnotation.map Annotation.timestamp

def compare (self that : Span β) : Ordering :=
  Ord.compare (self.firstTimestamp.getD 0) (that.firstTimestamp.getD 0)

instance : Ord (Span β) := ⟨Span.compare⟩

instance : Std.TransOrd (Span β) :=
  inferInstanceAs (Std.TransCmp (compareOn (fun s : Span β => s.firstTimestamp.getD 0)))

theorem firstTimestamp_le_of_le {a b : Span β} (h : le Ord.compare a b) :
    a.firstTimestamp.getD 0 ≤ b.firstTimestamp.getD 0 := by
  have h' : (Ord.compare (a.firstTimestamp.getD 0) (b.firstTimestamp.getD 0)).isLE = true := h
  rwa [Int.isLE_compare] at h'

/-- The comparison of `sortBy(_.head)`.  The lists that are sorted so have a head. -/
def compareHeads (a b : List (Span β)) : Ordering := Ord.compare a.head? b.head?

instance : Std.TransCmp (compareHeads (β := β)) :=
  inferInstanceAs (Std.TransCmp (compareOn (fun l : List (Span β) => l.head?)))

def getAnnotation (self : Span β) (value : String) : Option Annotation :=
  self.annotations.find? (fun a => a.value == value)

/-- `getAnnotationsAsMap`, as the function its `get` is: of several annotations with one value the last is bound. -/
def getAnnotationsAsMap (self : Span β) (value : String) : Option Annotation :=
  (self.annotations.filter (fun a => a.value == value)).getLast?

def clientSideAnnotations (self : Span β) : List Annotation :=
  self.annotations.filter (fun a => Constants.CoreClient.contains a.value)

def isValid (self : Span β) : Bool :=
  (Constants.CoreAnnotations.map (fun c =>
    decide ((self.annotations.filter (fun a => a.value == c)).length > 1))).count true == 0

/-- The data of two parts of one span: the trace id and the parent of the first, the first name that is neither empty
nor "Unknown", all annotations and binary annotations, and `debug` if either has it. -/
def merged (self mergeFrom : Span β) : Span β where
  traceId := self.traceId
  name := if self.name = "" then mergeFrom.name else if self.name = "Unknown" then mergeFrom.name else self.name
  id := self.id
  parentId := self.parentId
  annotations := StableSort.sorted Ord.compare (self.annotations ++ mergeFrom.annotations)
  binaryAnnotations := self.binaryAnnotations ++ mergeFrom.binaryAnnotations
  debug := self.debug || mergeFrom.debug
  sorted := pairwise_sorted _ _

/-- `mergeSpan`, with its `IllegalArgumentException`. -/
def mergeSpan (self mergeFrom : Span β) : Except String (Span β) :=
  if self.id ≠ mergeFrom.id then .error "Span ids must match" else .ok (self.merged mergeFrom)

end Span

end Zipkin
