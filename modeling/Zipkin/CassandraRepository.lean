import Zipkin.Base.Table
import Zipkin.ByteBuffer
import Zipkin.LowerCase
/-!
# CassandraRepository — the tables and the statements on them

`Repository.java` and `cassandra-schema-cql3.txt`.  Cassandra is a keyed table: an `INSERT` replaces the row of its
primary key, rows do not expire, and every statement goes through.  What the repository reads of the machine (the clock,
random numbers) is a sequence, and the repository knows how far it has read.

A thread does not write a name again that it wrote in the same interval.  The names of services, and the pairs of a
service and a span name, are in one set.
-/
namespace Zipkin

/-- The tables, each a map from its primary key. -/
structure Keyspace where
  traces : List ((Int64 × Int × String) × List UInt8) := []
  service_names : List (String × Unit) := []
  span_names : List ((String × Nat × String) × Unit) := []
  service_name_index : List (((String × Nat) × Int) × Int64) := []
  service_span_name_index : List ((String × Int) × Int64) := []
  annotations_index : List (((List UInt8 × Nat) × Int) × Int64) := []
deriving DecidableEq, Repr

/-- The `INSERT` statements with the values they are bound to. -/
inductive Insert where
  | span (trace_id : Int64) (ts : Int) (span_name : String) (span : List UInt8)
  | serviceName (service_name : String)
  | spanName (service_name : String) (bucket : Nat) (span_name : String)
  | traceIdByServiceName (service_name : String) (bucket : Nat) (ts : Int) (trace_id : Int64)
  | traceIdBySpanName (service_span_name : String) (ts : Int) (trace_id : Int64)
  | traceIdByAnnotationKey (annotationKey : List UInt8) (bucket : Nat) (ts : Int) (trace_id : Int64)
deriving DecidableEq, Repr

open AssocMap in
def Keyspace.execute (k : Keyspace) : Insert → Keyspace
  | .span id ts name span => { k with traces := put (id, ts, name) span k.traces }
  | .serviceName s => { k with service_names := put s () k.service_names }
  | .spanName s bucket n => { k with span_names := put (s, bucket, n) () k.span_names }
  | .traceIdByServiceName s bucket ts id =>
    { k with service_name_index := put ((s, bucket), ts) id k.service_name_index }
  | .traceIdBySpanName s ts id => { k with service_span_name_index := put (s, ts) id k.service_span_name_index }
  | .traceIdByAnnotationKey a bucket ts id =>
    { k with annotations_index := put ((a, bucket), ts) id k.annotations_index }

def Insert.traceRow : Insert → Option ((Int64 × Int × String) × List UInt8)
  | .span id ts name bytes => some ((id, ts, name), bytes)
  | _ => none

structure Repository where
  session : Keyspace
  /-- A field of `writtenNames` itself, which all threads share. -/
  cacheInterval : Int
  /-- The set that each thread has. -/
  names : Nat → List String
  /-- Readings of the clock so far. -/
  reads : Nat
  /-- Numbers drawn from `RAND` so far. -/
  draws : Nat

namespace Repository

def BUCKETS : Nat := 10

theorem BUCKETS_pos : 0 < BUCKETS := by decide

def WRITTEN_NAMES_TTL : Int := 60 * 60 * 1000

def toCacheInterval (ms : Int) : Int := ms.tdiv WRITTEN_NAMES_TTL

/-- The machine: its locale, and what its clock and `RAND.nextInt(BUCKETS)` give the `n`th time. -/
structure Machine where
  locale : Locale
  currentTimeMillis : Nat → Int
  nextInt : Nat → Fin BUCKETS

variable (machine : Machine) (thread : Nat)

def empty : Repository := ⟨{}, toCacheInterval (machine.currentTimeMillis 0), fun _ => [], 1, 0⟩

def checkArgument (expression : Bool) : Effect Throwable Repository Unit :=
  if expression then pure () else throw ⟨"IllegalArgumentException", ""⟩

def executeAsync (insert : Insert) : Effect Throwable Repository Unit :=
  .of fun r => (.ok (), { r with session := r.session.execute insert })

def nextBucket : Effect Throwable Repository Nat :=
  .of fun r => (.ok (machine.nextInt r.draws), { r with draws := r.draws + 1 })

/-! ## `writtenNames` -/

/-- The clock is read, and the first thread to see a new interval gets a new set. -/
def refreshed (r : Repository) : Repository :=
  let newCacheInterval := toCacheInterval (machine.currentTimeMillis r.reads)
  if r.cacheInterval ≠ newCacheInterval then
    { r with cacheInterval := newCacheInterval, names := Function.update r.names thread [], reads := r.reads + 1 }
  else { r with reads := r.reads + 1 }

def writtenNames.get : Effect Throwable Repository (List String) :=
  .of fun r => (.ok ((refreshed machine thread r).names thread), refreshed machine thread r)

/-- `writtenNames.get().add(name)`: whether the name is new. -/
def writtenNames.add (name : String) : Effect Throwable Repository Bool := do
  let names ← writtenNames.get machine thread
  if names.contains name then pure false
  else .of fun r => (.ok true, { r with names := Function.update r.names thread (names ++ [name]) })

def storeName (name : String) (insert : Insert) : Effect Throwable Repository Unit := do
  if ← writtenNames.add machine thread name then executeAsync insert

/-! ## What is stored -/

def storeSpan (traceId : Int64) (timestamp : Int) (spanName : String) (span : List UInt8) :
    Effect Throwable Repository Unit := do
  checkArgument (spanName ≠ "")
  executeAsync (.span traceId timestamp spanName span)

def storeServiceName (serviceName : String) : Effect Throwable Repository Unit := do
  checkArgument (serviceName ≠ "")
  storeName machine thread serviceName (.serviceName serviceName)

def storeSpanName (serviceName spanName : String) : Effect Throwable Repository Unit := do
  checkArgument (serviceName ≠ "")
  checkArgument (spanName ≠ "")
  storeName machine thread (serviceName ++ "––" ++ spanName) (.spanName serviceName 0 spanName)

def storeTraceIdByServiceName (serviceName : String) (timestamp : Int) (traceId : Int64) :
    Effect Throwable Repository Unit := do
  checkArgument (serviceName ≠ "")
  let bucket ← nextBucket machine
  executeAsync (.traceIdByServiceName serviceName bucket timestamp traceId)

def storeTraceIdBySpanName (serviceName spanName : String) (timestamp : Int) (traceId : Int64) :
    Effect Throwable Repository Unit := do
  checkArgument (serviceName ≠ "")
  checkArgument (spanName ≠ "")
  executeAsync (.traceIdBySpanName (serviceName ++ "." ++ spanName) timestamp traceId)

def storeTraceIdByAnnotation (annotationKey : List UInt8) (timestamp : Int) (traceId : Int64) :
    Effect Throwable Repository Unit := do
  let bucket ← nextBucket machine
  executeAsync (.traceIdByAnnotationKey annotationKey bucket timestamp traceId)

/-! ## What is read -/

/-- The rows of an answer in a `LinkedHashMap` from trace id to timestamp. -/
def traceIdsToTimestamps (rows : List (Int × Int64)) : List (Int64 × Int) :=
  AssocMap.putAll (rows.map Prod.swap) []

/-- Cassandra refuses a limit that is not positive. -/
def checkLimit {α : Type} (limit : Int) (rows : Nat → α) : Except Throwable α :=
  if 0 < limit then .ok (rows limit.toNat) else .error ⟨"InvalidQueryException", "LIMIT must be strictly positive"⟩

def illegalArgument {α : Type} : Except Throwable α := .error ⟨"IllegalArgumentException", ""⟩

def getServiceNames (k : Keyspace) : List String := k.service_names.map Prod.fst

def getSpanNames (k : Keyspace) (serviceName : String) : List String :=
  if serviceName ≠ "" then
    ((k.span_names.map Prod.fst).filter (fun row => row.1 == serviceName && row.2.1 == 0)).map (fun row => row.2.2)
  else []

def getTraceIdsByServiceName (k : Keyspace) (serviceName : String) (endTs limit : Int) :
    Except Throwable (List (Int64 × Int)) :=
  if serviceName = "" then illegalArgument
  else (checkLimit limit (fun n => Table.select (fun p => p.1 == serviceName && decide (p.2 < BUCKETS)) endTs n
    k.service_name_index)).map traceIdsToTimestamps

def getTraceIdsBySpanName (k : Keyspace) (serviceName spanName : String) (endTs limit : Int) :
    Except Throwable (List (Int64 × Int)) :=
  if serviceName = "" then illegalArgument
  else if spanName = "" then illegalArgument
  else (checkLimit limit (fun n => Table.select (fun p => p == serviceName ++ "." ++ spanName) endTs n
    k.service_span_name_index)).map traceIdsToTimestamps

def getTraceIdsByAnnotation (k : Keyspace) (annotationKey : List UInt8) (endTs limit : Int) :
    Except Throwable (List (Int64 × Int)) :=
  (checkLimit limit (fun n => Table.select (fun p => p.1 == annotationKey && decide (p.2 < BUCKETS)) endTs n
    k.annotations_index)).map traceIdsToTimestamps

end Repository
end Zipkin
