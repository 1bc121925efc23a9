import Mathlib.Data.List.Dedup
import Zipkin.ByteBuffer
import Zipkin.DB
import Zipkin.Trace
/-!
# AnormSpanStore — spans in three tables

`AnormSpanStore.scala`.  A span has a row in `zipkin_spans`, and its annotations and binary annotations have rows in
tables of their own, with the ids and the name of the span.  A read joins them by these in memory.  `zipkin_spans` has no
key that two rows could not share, so that `REPLACE` inserts like `INSERT`.
-/
namespace Zipkin

open Effect Transaction AssocMap StableSort

def AnnotationType.fromInt (v : Int32) : AnnotationType :=
  ([bool, bytes, i16, i32, i64, double, string].find? (fun t => t.value == v)).getD string

def Annotation.serviceName (a : Annotation) : String :=
  (a.host.map Endpoint.serviceName).getD "Unknown service name"

/-! ## The tables -/

structure SpanRow where
  span_id : Int64
  parent_id : Option Int64
  trace_id : Int64
  span_name : String
  debug : Int
  created_ts : Option Int
deriving DecidableEq, Repr

structure AnnotationRow where
  span_id : Int64
  trace_id : Int64
  span_name : String
  service_name : String
  value : String
  ipv4 : Option Int32
  port : Option Int
  a_timestamp : Int
deriving DecidableEq, Repr

structure BinaryAnnotationRow where
  span_id : Int64
  trace_id : Int64
  span_name : String
  service_name : String
  annotation_key : String
  annotation_value : List UInt8
  annotation_type_value : Int32
  ipv4 : Option Int32
  port : Option Int
  annotation_ts : Option Int
deriving DecidableEq, Repr

structure SpanTables where
  zipkin_spans : List SpanRow := []
  zipkin_annotations : List AnnotationRow := []
  zipkin_binary_annotations : List BinaryAnnotationRow := []
deriving DecidableEq, Repr

namespace AnormSpanStore

/-! ## Storing -/

def spanRow (span : Span (List UInt8)) : SpanRow :=
  ⟨span.id, span.parentId, span.traceId, span.name, if span.debug then 1 else 0, span.firstTimestamp⟩

def annotationRow (span : Span (List UInt8)) (a : Annotation) : AnnotationRow :=
  ⟨span.id, span.traceId, span.name, a.serviceName, a.value, a.host.map Endpoint.ipv4,
    a.host.map (fun h => h.port.toInt), a.timestamp⟩

def binaryAnnotationRow (span : Span (List UInt8)) (b : BinaryAnnotation (List UInt8)) : BinaryAnnotationRow :=
  ⟨span.id, span.traceId, span.name, (b.host.map Endpoint.serviceName).getD "Unknown service name", b.key, b.value,
    b.annotationType.value, b.host.map Endpoint.ipv4, b.host.map (fun h => h.port.toInt), span.firstTimestamp⟩

def insertSpan (row : SpanRow) : Effect Throwable SpanTables Unit :=
  .of fun t => (.ok (), { t with zipkin_spans := t.zipkin_spans ++ [row] })

def insertAnnotation (row : AnnotationRow) : Effect Throwable SpanTables Unit :=
  .of fun t => (.ok (), { t with zipkin_annotations := t.zipkin_annotations ++ [row] })

def insertBinaryAnnotation (row : BinaryAnnotationRow) : Effect Throwable SpanTables Unit :=
  .of fun t => (.ok (), { t with zipkin_binary_annotations := t.zipkin_binary_annotations ++ [row] })

/-- The block of statements of `storeSpan`. -/
def inserts (span : Span (List UInt8)) : Program Throwable SpanTables Unit :=
  .statement (insertSpan (spanRow span)) fun _ =>
    .each span.annotations (fun a => insertAnnotation (annotationRow span a))
      (.each span.binaryAnnotations (fun b => insertBinaryAnnotation (binaryAnnotationRow span b)) (.done ()))

section Definitions
variable (faults : Nat → Option Throwable) (isSQLRecoverableException : Throwable → Bool)

def storeSpan (span : Span (List UInt8)) : Effect Throwable SpanTables Unit :=
  (fun _ => ()) <$> DB.withPooledConnection
    (DB.withRecoverableTransaction faults isSQLRecoverableException (inserts span))

def apply (spans : List (Span (List UInt8))) : Effect Throwable SpanTables Unit :=
  (fun _ => ()) <$> spans.mapM (storeSpan faults isSQLRecoverableException)

end Definitions

/-! ## Reading -/

structure DBSpan where
  spanId : Int64
  parentId : Option Int64
  traceId : Int64
  spanName : String
  debug : Bool
deriving DecidableEq, Repr

structure DBAnnotation where
  spanId : Int64
  traceId : Int64
  spanName : String
  serviceName : String
  value : String
  ipv4 : Option Int32
  port : Option Int
  timestamp : Int
deriving DecidableEq, Repr

structure DBBinaryAnnotation where
  spanId : Int64
  traceId : Int64
  spanName : String
  serviceName : String
  key : String
  value : List UInt8
  annotationTypeValue : Int32
  ipv4 : Option Int32
  port : Option Int
deriving DecidableEq, Repr

section Reading
variable (order : RowOrder)

/-- `SELECT DISTINCT columns FROM table WHERE found`. -/
def selectDistinct {ρ ν : Type} [DecidableEq ν] (table : List ρ) (found : ρ → Bool) (columns : ρ → ν) : List ν :=
  order.rows ((table.filter found).map columns).dedup

/-- `ORDER BY created_ts` is by a column that is not among the distinct ones, so that the rows come in any order. -/
def spans (t : SpanTables) (traceIds : List Int64) : List DBSpan :=
  (selectDistinct order t.zipkin_spans (fun r => traceIds.contains r.trace_id)
    (fun r => (r.span_id, r.parent_id, r.trace_id, r.span_name, r.debug))).map
      fun (a, b, c, d, e) => ⟨a, b, c, d, decide (e > 0)⟩

def annos (t : SpanTables) (traceIds : List Int64) : List DBAnnotation :=
  sorted (compareOn DBAnnotation.timestamp)
    (selectDistinct order t.zipkin_annotations (fun r => traceIds.contains r.trace_id) fun r =>
      ⟨r.span_id, r.trace_id, r.span_name, r.service_name, r.value, r.ipv4, r.port, r.a_timestamp⟩)

def binAnnos (t : SpanTables) (traceIds : List Int64) : List DBBinaryAnnotation :=
  selectDistinct order t.zipkin_binary_annotations (fun r => traceIds.contains r.trace_id) fun r =>
    ⟨r.span_id, r.trace_id, r.span_name, r.service_name, r.annotation_key, r.annotation_value, r.annotation_type_value,
      r.ipv4, r.port⟩

def host (ipv4 : Option Int32) (port : Option Int) (serviceName : String) : Option Endpoint :=
  match ipv4, port with
  | some ipv4, some port => some ⟨ipv4, Int16.ofInt port, serviceName⟩
  | _, _ => none

def annotation (anno : DBAnnotation) : Annotation :=
  ⟨anno.timestamp, anno.value, host anno.ipv4 anno.port anno.serviceName⟩

def binaryAnnotation (binAnno : DBBinaryAnnotation) : BinaryAnnotation (List UInt8) :=
  ⟨binAnno.key, binAnno.value, .fromInt binAnno.annotationTypeValue, host binAnno.ipv4 binAnno.port binAnno.serviceName⟩

def result (annos : List DBAnnotation) (binAnnos : List DBBinaryAnnotation) (span : DBSpan) : Span (List UInt8) :=
  .apply span.traceId span.spanName span.spanId span.parentId
    ((annos.filter (fun a => a.traceId == span.traceId && a.spanId == span.spanId && a.spanName == span.spanName)).map
      annotation)
    ((binAnnos.filter (fun a => a.traceId == span.traceId && a.spanId == span.spanId && a.spanName == span.spanName)).map
      binaryAnnotation)
    span.debug

def results (t : SpanTables) (traceIds : List Int64) : List (Span (List UInt8)) :=
  (spans order t traceIds).map (result (annos order t traceIds) (binAnnos order t traceIds))

/-- `groupBy(_.traceId).values`, sorted by the first span. -/
def getSpansByTraceIds (t : SpanTables) (traceIds : List Int64) : List (List (Span (List UInt8))) :=
  sorted Span.compareHeads
    (order.values ((addBindings (fun s => some (Span.traceId s)) (results order t traceIds)).map Prod.snd))

end Reading

end AnormSpanStore
end Zipkin
