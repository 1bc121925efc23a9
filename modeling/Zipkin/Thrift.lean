import Zipkin.Base.Effect
import Zipkin.ByteBuffer
import Zipkin.Span
/-!
# Thrift — the structs that spans are stored as

`zipkinCore.thrift` and the conversions of `conversions/thrift.scala`.  A field that the conversions compare with `null` is
an option.  What the generated classes say of themselves (the name of an enum constant, the text of a struct) is a
parameter.
-/
namespace Zipkin

namespace thriftscala

structure Endpoint where
  ipv4 : Int32
  port : Int16
  serviceName : Option String
deriving DecidableEq, Repr

structure Annotation where
  timestamp : Int
  value : String
  host : Option Endpoint
deriving DecidableEq, Repr

inductive AnnotationType where
  | BOOL | BYTES | I16 | I32 | I64 | DOUBLE | STRING
deriving DecidableEq, Repr

namespace AnnotationType

def value : AnnotationType → Int32
  | BOOL => 0
  | BYTES => 1
  | I16 => 2
  | I32 => 3
  | I64 => 4
  | DOUBLE => 5
  | STRING => 6

def all : List AnnotationType := [BOOL, BYTES, I16, I32, I64, DOUBLE, STRING]

def apply (value : Int32) : Except Throwable AnnotationType :=
  match all.find? (fun t => t.value == value) with
  | some t => .ok t
  | none => .error ⟨"NoSuchElementException", toString value⟩

theorem apply_value (t : AnnotationType) : apply t.value = .ok t := by
  cases t <;> rfl

end AnnotationType

structure BinaryAnnotation where
  key : String
  value : List UInt8
  annotationType : AnnotationType
  host : Option Endpoint
deriving DecidableEq, Repr

structure Span where
  traceId : Int64
  name : Option String
  id : Int64
  parentId : Option Int64
  annotations : Option (List Annotation)
  binaryAnnotations : Option (List BinaryAnnotation)
  debug : Bool
deriving DecidableEq, Repr

end thriftscala

/-- What the generated classes say of themselves. -/
structure Generated where
  annotationTypeName : thriftscala.AnnotationType → String
  annotationToString : thriftscala.Annotation → String

/-! ## To a struct -/

def Endpoint.toThrift (e : Endpoint) : thriftscala.Endpoint := ⟨e.ipv4, e.port, some e.serviceName⟩

def AnnotationType.toThrift (a : AnnotationType) : Except Throwable thriftscala.AnnotationType :=
  thriftscala.AnnotationType.apply a.value

def Annotation.toThrift (a : Annotation) : thriftscala.Annotation := ⟨a.timestamp, a.value, a.host.map Endpoint.toThrift⟩

def BinaryAnnotation.toThrift (b : BinaryAnnotation (List UInt8)) : Except Throwable thriftscala.BinaryAnnotation := do
  let annotationType ← b.annotationType.toThrift
  pure ⟨b.key, b.value, annotationType, b.host.map Endpoint.toThrift⟩

def Span.toThrift (s : Span (List UInt8)) : Except Throwable thriftscala.Span := do
  let binaryAnnotations ← s.binaryAnnotations.mapM BinaryAnnotation.toThrift
  pure ⟨s.traceId, some s.name, s.id, s.parentId, some (s.annotations.map Annotation.toThrift), some binaryAnnotations,
    s.debug⟩

/-! ## From a struct -/

namespace thriftscala

def UnknownServiceName : String := "Unknown service name"

def Endpoint.toEndpoint (e : Endpoint) : Zipkin.Endpoint :=
  let serviceName := match e.serviceName with
    | none | some "" => UnknownServiceName
    | some serviceName => serviceName
  ⟨e.ipv4, e.port, serviceName⟩

variable (generated : Generated)

def AnnotationType.toAnnotationType (a : AnnotationType) : Zipkin.AnnotationType :=
  ⟨a.value, generated.annotationTypeName a⟩

def Annotation.toAnnotation (a : Annotation) : Except Throwable Zipkin.Annotation :=
  if a.timestamp ≤ 0 then
    .error ⟨"IllegalArgumentException", "Annotation must have a timestamp: " ++ generated.annotationToString a⟩
  else if a.value = "" then
    .error ⟨"IllegalArgumentException", "Annotation must have a value: " ++ generated.annotationToString a⟩
  else .ok ⟨a.timestamp, a.value, a.host.map Endpoint.toEndpoint⟩

def BinaryAnnotation.toBinaryAnnotation (b : BinaryAnnotation) : Zipkin.BinaryAnnotation (List UInt8) :=
  ⟨b.key, b.value, b.annotationType.toAnnotationType generated, b.host.map Endpoint.toEndpoint⟩

def Span.toSpan (s : Span) : Except Throwable (Zipkin.Span (List UInt8)) :=
  match s.name with
  | none => .error ⟨"IncompleteTraceDataException", "No name set in Span"⟩
  | some name => do
    let annotations ← (s.annotations.getD []).mapM (thriftscala.Annotation.toAnnotation generated)
    pure (.apply s.traceId name s.id s.parentId annotations
      ((s.binaryAnnotations.getD []).map (thriftscala.BinaryAnnotation.toBinaryAnnotation generated)) s.debug)

end thriftscala

/-! ## There and back -/

theorem Endpoint.serviceName_ne_empty (e : thriftscala.Endpoint) : e.toEndpoint.serviceName ≠ "" := by
  unfold thriftscala.Endpoint.toEndpoint
  dsimp only
  split
  · decide
  · decide
  · rename_i hne _
    exact hne

theorem Endpoint.toEndpoint_toThrift {e : Endpoint} (h : e.serviceName ≠ "") : e.toThrift.toEndpoint = e := by
  obtain ⟨ipv4, port, serviceName⟩ := e
  unfold Endpoint.toThrift thriftscala.Endpoint.toEndpoint
  dsimp only at h ⊢
  split
  · rename_i heq
    cases heq
  · rename_i heq
    exact absurd (Option.some.inj heq) h
  · rename_i heq
    rw [Option.some.inj heq]

theorem Endpoint.map_toEndpoint_toThrift (host : Option thriftscala.Endpoint) :
    ((host.map thriftscala.Endpoint.toEndpoint).map Endpoint.toThrift).map thriftscala.Endpoint.toEndpoint =
      host.map thriftscala.Endpoint.toEndpoint := by
  cases host with
  | none => rfl
  | some e => exact congrArg some (Endpoint.toEndpoint_toThrift (Endpoint.serviceName_ne_empty e))

variable {generated : Generated}

theorem Annotation.toAnnotation_toThrift {struct : thriftscala.Annotation} {a : Annotation}
    (h : struct.toAnnotation generated = .ok a) : a.toThrift.toAnnotation generated = .ok a := by
  unfold thriftscala.Annotation.toAnnotation at h
  split at h
  · cases h
  · rename_i hts
    split at h
    · cases h
    · rename_i hvalue
      obtain rfl := Except.ok.inj h
      unfold thriftscala.Annotation.toAnnotation Annotation.toThrift
      dsimp only
      rw [if_neg hts, if_neg hvalue, Endpoint.map_toEndpoint_toThrift]

/-- The struct of a binary annotation that was made of a struct. -/
def thriftscala.BinaryAnnotation.again (b : thriftscala.BinaryAnnotation) : thriftscala.BinaryAnnotation :=
  { b with host := (b.host.map thriftscala.Endpoint.toEndpoint).map Endpoint.toThrift }

theorem BinaryAnnotation.toThrift_toBinaryAnnotation (b : thriftscala.BinaryAnnotation) :
    (b.toBinaryAnnotation generated).toThrift = .ok b.again := by
  have htype : (b.annotationType.toAnnotationType generated).toThrift = .ok b.annotationType :=
    thriftscala.AnnotationType.apply_value b.annotationType
  unfold BinaryAnnotation.toThrift thriftscala.BinaryAnnotation.toBinaryAnnotation
  dsimp only
  rw [htype]
  rfl

theorem BinaryAnnotation.toBinaryAnnotation_again (b : thriftscala.BinaryAnnotation) :
    b.again.toBinaryAnnotation generated = b.toBinaryAnnotation generated := by
  unfold thriftscala.BinaryAnnotation.toBinaryAnnotation thriftscala.BinaryAnnotation.again
  dsimp only
  rw [Endpoint.map_toEndpoint_toThrift]

def Span.InImage (generated : Generated) (span : Span (List UInt8)) : Prop :=
  ∃ struct : thriftscala.Span, struct.toSpan generated = .ok span

/-- **A span that was made of a struct makes one that makes the span again.** -/
theorem Span.InImage.roundTrips {span : Span (List UInt8)} (h : span.InImage generated) :
    ∃ struct, span.toThrift = .ok struct ∧ struct.toSpan generated = .ok span := by
  obtain ⟨struct, h⟩ := h
  unfold thriftscala.Span.toSpan at h
  split at h
  · cases h
  · rename_i name _
    cases hmapM : (struct.annotations.getD []).mapM (thriftscala.Annotation.toAnnotation generated) with
    | error e =>
      rw [hmapM] at h
      cases h
    | ok annotations =>
      rw [hmapM] at h
      obtain rfl := Except.ok.inj h
      generalize struct.binaryAnnotations.getD [] = bins
      have hannotations : ∀ a ∈ StableSort.sorted Ord.compare annotations,
          a.toThrift.toAnnotation generated = .ok a := fun a ha => by
        obtain ⟨b, -, hb⟩ := Effect.exists_of_mem_mapM_ok hmapM a ((StableSort.sorted_perm _ _).mem_iff.1 ha)
        exact Annotation.toAnnotation_toThrift hb
      have hbins : (bins.map (thriftscala.BinaryAnnotation.toBinaryAnnotation generated)).mapM BinaryAnnotation.toThrift =
          .ok (bins.map thriftscala.BinaryAnnotation.again) :=
        Effect.mapM_map_eq_ok (fun b _ => BinaryAnnotation.toThrift_toBinaryAnnotation b)
      have hagain : (bins.map thriftscala.BinaryAnnotation.again).map
          (thriftscala.BinaryAnnotation.toBinaryAnnotation generated) =
            bins.map (thriftscala.BinaryAnnotation.toBinaryAnnotation generated) := by
        rw [List.map_map]
        exact List.map_congr_left (fun b _ => BinaryAnnotation.toBinaryAnnotation_again b)
      have hsorted := StableSort.sorted_eq_self Ord.compare (StableSort.pairwise_sorted Ord.compare annotations)
      refine ⟨⟨struct.traceId, some name, struct.id, struct.parentId,
        some ((StableSort.sorted Ord.compare annotations).map Annotation.toThrift),
        some (bins.map thriftscala.BinaryAnnotation.again), struct.debug⟩, ?_, ?_⟩
      · rw [Span.toThrift]
        dsimp only [Span.apply]
        rw [hbins]
        rfl
      · rw [thriftscala.Span.toSpan]
        dsimp only [Option.getD_some]
        rw [Effect.mapM_map_ok hannotations, hagain]
        dsimp only [bind, Except.bind, pure, Except.pure, Span.apply]
        simp only [hsorted]

/-- **What the collector accepts can be read back**: a span that a struct makes has a struct that makes it again. -/
theorem Span.toThrift_of_toSpan {struct : thriftscala.Span} {span : Span (List UInt8)}
    (h : struct.toSpan generated = .ok span) : ∃ again, span.toThrift = .ok again ∧ again.toSpan generated = .ok span :=
  Span.InImage.roundTrips ⟨struct, h⟩

/-- The names of the constants of `AnnotationType.scala`. -/
def constantNames : Generated where
  annotationTypeName
    | .BOOL => "Bool"
    | .BYTES => "Bytes"
    | .I16 => "I16"
    | .I32 => "I32"
    | .I64 => "I64"
    | .DOUBLE => "Double"
    | .STRING => "String"
  annotationToString _ := "Annotation"

/-- The annotations out of order, at a service without a name and a port beyond 32767. -/
def unorderedStruct : thriftscala.Span :=
  ⟨1, some "get", 2, some 3, some [⟨20, "cr", some ⟨10, -32768, none⟩⟩, ⟨10, "cs", some ⟨10, -32768, some ""⟩⟩],
    some [⟨"http.uri", [47], .STRING, none⟩], true⟩

def unorderedSpan : Span (List UInt8) :=
  .apply 1 "get" 2 (some 3)
    [⟨10, "cs", some ⟨10, -32768, "Unknown service name"⟩⟩, ⟨20, "cr", some ⟨10, -32768, "Unknown service name"⟩⟩]
    [⟨"http.uri", [47], .string, none⟩] true

theorem toThrift_of_toSpan_unordered :
    ∃ again, unorderedSpan.toThrift = .ok again ∧ again.toSpan constantNames = .ok unorderedSpan := by
  have hread : unorderedStruct.toSpan constantNames = .ok unorderedSpan := by rfl
  exact Span.toThrift_of_toSpan hread

end Zipkin
