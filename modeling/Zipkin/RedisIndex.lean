import Zipkin.Base.AssocMap
import Zipkin.Base.Rounding
import Zipkin.Libs
import Zipkin.LowerCase
import Zipkin.SpanStore
/-!
# RedisIndex — the indexes of the store in Redis

`RedisIndex.scala`, `TraceIndex.scala` and `SetMultimap.scala`.  A key of Redis is a text and what it holds does not
expire.  The texts of sets begin with "span:" or "singleton:", those of lists with "full_span:", and those of sorted sets
with "service:", "annotations:" or "binary_annotations:", so no key is of two kinds.

The payload of a binary annotation is a buffer of its own.  It is read again for each service of the span, from where the
read before has left it.
-/
namespace Zipkin

open Effect AssocMap

/-- A sorted set has a score for each of its members, which are trace ids. -/
structure Redis where
  sets : List ((String × String) × Unit) := []
  zsets : List ((String × Int64) × Int) := []
  lists : List (String × List (List UInt8)) := []
deriving DecidableEq, Repr

namespace Redis

def sAdd (key member : String) : Effect Throwable Redis Unit :=
  .of fun r => (.ok (), { r with sets := put (key, member) () r.sets })

def sMembers (r : Redis) (key : String) : List String :=
  ((r.sets.map Prod.fst).filter (fun e => e.1 == key)).map Prod.snd

def zAdd (key : String) (score : Int) (member : Int64) : Effect Throwable Redis Unit :=
  .of fun r => (.ok (), { r with zsets := put (key, member) score r.zsets })

/-- The greatest scores first, and of equal scores the greatest member, as its bytes are ordered. -/
def rev (a b : (String × Int64) × Int) : Prop :=
  b.2 < a.2 ∨ b.2 = a.2 ∧ b.1.2.toUInt64 ≤ a.1.2.toUInt64

instance : DecidableRel rev := fun _ _ => inferInstanceAs (Decidable (_ ∨ _ ∧ _))

/-- `ZREVRANGEBYSCORE key max min WITHSCORES LIMIT 0 limit`: a negative limit is none. -/
def zRevRangeByScore (r : Redis) (key : String) (max min limit : Int) : List (Int64 × Int) :=
  let found := (r.zsets.filter (fun e => e.1.1 == key && decide (min ≤ e.2 ∧ e.2 ≤ max))).insertionSort rev
  (if limit < 0 then found else found.take limit.toNat).map fun e => (e.1.2, e.2)

end Redis

/-! ## `SetMultimap` and `TraceIndex` -/

namespace SetMultimap

def encodeKey (kind key : String) : String := kind ++ ":" ++ key

def put (kind key value : String) : Effect Throwable Redis Unit := Redis.sAdd (encodeKey kind key) value

def get (r : Redis) (kind key : String) : List String := r.sMembers (encodeKey kind key)

end SetMultimap

/-- `Long.toDouble`: the value of the double, which is a whole number. -/
def toDouble (long : Int) : Int := Rounding.nearestInt 53 long

/-- `Double.toLong` of a whole number. -/
def toLong (double : Int) : Int := max (-2 ^ 63) (min double (2 ^ 63 - 1))

theorem toDouble_mono {a b : Int} (h : a ≤ b) : toDouble a ≤ toDouble b := Rounding.nearestInt_mono (by decide) h

structure TraceIndex (κ : Type) where
  encodeKey : κ → String

namespace TraceIndex

variable {κ : Type} (index : TraceIndex κ)

def add (key : κ) (lastTimestamp : Int) (traceId : Int64) : Effect Throwable Redis Unit :=
  Redis.zAdd (index.encodeKey key) (toDouble lastTimestamp) traceId

/-- The begin of the time to live, in microseconds. -/
def startTs (ttl : Option Int64) (endTs : Int64) : Int64 := (ttl.map (fun dur => endTs - dur)).getD 0

def list (ttl : Option Int64) (r : Redis) (key : κ) (endTs : Int64) (limit : Int) : List IndexedTraceId :=
  (r.zRevRangeByScore (index.encodeKey key) (toDouble endTs.toInt) (toDouble (startTs ttl endTs).toInt) limit).map
    fun t => ⟨t.1, toLong t.2⟩

end TraceIndex

/-! ## `RedisIndex` -/

/-- The functions of the libraries that the index calls. -/
structure RedisLibs where
  locale : Locale
  /-- `toString(UTF_8)`, which replaces what is malformed. -/
  newString : List UInt8 → String
  newString_getBytes : ∀ s, newString (getBytesUtf8 s) = s
  /-- `toString` of the double with these bits. -/
  doubleToString : UInt64 → String
  /-- The order in which the elements of a set come. -/
  iterate : List String → List String
  iterate_perm : ∀ l, (iterate l).Perm l

structure SpanKey where
  service : String
  span : String
deriving DecidableEq, Repr

structure AnnotationKey where
  service : String
  annotation : String
deriving DecidableEq, Repr

structure BinaryAnnotationKey where
  service : String
  annotation : String
  value : String
deriving DecidableEq, Repr

namespace RedisIndex

variable (libs : RedisLibs)

def serviceIndex : TraceIndex String := ⟨fun key => "service:" ++ key⟩

def spanIndex : TraceIndex SpanKey := ⟨fun key => "service:span:" ++ key.service ++ ":" ++ key.span⟩

def annotationIndex : TraceIndex AnnotationKey := ⟨fun key => "annotations:" ++ key.service ++ ":" ++ key.annotation⟩

def binaryAnnotationIndex : TraceIndex BinaryAnnotationKey :=
  ⟨fun key => "binary_annotations:" ++ key.service ++ ":" ++ key.annotation ++ ":" ++ key.value⟩

def getTraceIdsByName (ttl : Option Int64) (r : Redis) (serviceName : String) (spanName : Option String)
    (endTs : Int64) (limit : Int) : List IndexedTraceId :=
  match spanName with
  | some spanName => spanIndex.list ttl r ⟨serviceName, spanName⟩ endTs limit
  | none => serviceIndex.list ttl r serviceName endTs limit

def getTraceIdsByAnnotation (ttl : Option Int64) (r : Redis) (serviceName annotation : String)
    (value : Option (List UInt8)) (endTs : Int64) (limit : Int) : List IndexedTraceId :=
  match value with
  | some value => binaryAnnotationIndex.list ttl r ⟨serviceName, annotation, libs.newString value⟩ endTs limit
  | none => annotationIndex.list ttl r ⟨serviceName, annotation⟩ endTs limit

def getServiceNames (r : Redis) : List String := SetMultimap.get r "singleton" "services"

def getSpanNames (r : Redis) (service : String) : List String := SetMultimap.get r "span" service

/-- The text of a payload.  A relative get moves the buffer on, and `copiedBuffer` leaves it as it is. -/
def encode (bin : BinaryAnnotation ByteBuffer) : Effect Throwable ByteBuffer String :=
  if bin.annotationType = AnnotationType.bool then (fun b => toString (b != [0])) <$> ByteBuffer.get 1
  else if bin.annotationType = AnnotationType.double then libs.doubleToString <$> ByteBuffer.getDouble
  else if bin.annotationType = AnnotationType.i16 then (fun n => toString n.toInt) <$> ByteBuffer.getShort
  else if bin.annotationType = AnnotationType.i32 then (fun n => toString n.toInt) <$> ByteBuffer.getInt
  else if bin.annotationType = AnnotationType.i64 then (fun n => toString n.toInt) <$> ByteBuffer.getLong
  else .of fun value => (.ok (libs.newString value.bytes), value)

/-- The keys of the binary annotations for a service, and the annotations as they are left. -/
def encodeAll (service : String) : List (Zipkin.BinaryAnnotation ByteBuffer) →
    Except Throwable (List BinaryAnnotationKey × List (Zipkin.BinaryAnnotation ByteBuffer))
  | [] => .ok ([], [])
  | bin :: bins => match exec (encode libs bin) bin.value with
    | (.error e, _) => .error e
    | (.ok text, value) => (encodeAll service bins).map fun (keys, bins) =>
        (⟨service, bin.key, text⟩ :: keys, { bin with value := value } :: bins)

def each {α : Type} (l : List α) (f : α → Effect Throwable Redis Unit) : Effect Throwable Redis Unit :=
  (fun _ => ()) <$> l.mapM f

def indexBinaryAnnotations (lastTimestamp : Int) (traceId : Int64) :
    List String → List (Zipkin.BinaryAnnotation ByteBuffer) → Effect Throwable Redis Unit
  | [], _ => pure ()
  | service :: services, bins => match encodeAll libs service bins with
    | .error e => throw e
    | .ok (keys, bins) => do
      each keys fun key => binaryAnnotationIndex.add key lastTimestamp traceId
      indexBinaryAnnotations lastTimestamp traceId services bins

/-- The set of the span's service names that are not empty, in the order in which they come. -/
def services (span : Span ByteBuffer) : List String :=
  libs.iterate ((span.serviceNames libs.locale.toLowerCase).dedup.filter (fun s => s ≠ ""))

def putSpanName (span : Span ByteBuffer) : Effect Throwable Redis Unit :=
  if span.name ≠ "" then each (services libs span) fun s => SetMultimap.put "span" s span.name else pure ()

/-- The values of annotations that are indexed. -/
def indexedValues (span : Span ByteBuffer) : List String :=
  (span.annotations.map Annotation.value).filter fun a => !Constants.CoreAnnotations.contains a

def indexTraceId (span : Span ByteBuffer) : Effect Throwable Redis Unit :=
  match span.lastAnnotation with
  | none => pure ()
  | some lastAnnotation => do
    each (services libs span) fun s => serviceIndex.add s lastAnnotation.timestamp span.traceId
    each (services libs span) fun s => spanIndex.add ⟨s, span.name⟩ lastAnnotation.timestamp span.traceId
    each (services libs span) fun s => each (indexedValues span) fun a =>
      annotationIndex.add ⟨s, a⟩ lastAnnotation.timestamp span.traceId
    indexBinaryAnnotations libs lastAnnotation.timestamp span.traceId (services libs span) span.binaryAnnotations

def index (span : Span ByteBuffer) : Effect Throwable Redis Unit := do
  each (services libs span) fun s => SetMultimap.put "singleton" "services" s
  putSpanName libs span
  indexTraceId libs span

end RedisIndex
end Zipkin
