import Zipkin.Libs
import Zipkin.Span
/-!
# Json — spans as the query server writes them and the web server reads them

The package `json` of `zipkin-common`.  Each `apply` turns a model object into the object that is written as JSON text,
each `invert` turns back what was read.  The payload of a binary annotation is read from its buffer by relative gets, so
`JsonBinaryAnnotation.apply` is a computation that changes the buffer, and that can throw.
-/
namespace Zipkin

/-! ## `JsonEndpoint` -/

namespace Endpoint

def octet (self : Endpoint) (shift : Int32) : Int := ((self.ipv4 >>> shift) &&& 0xFF).toInt

def getHostAddress (self : Endpoint) : String := dottedQuad (self.octet 24) (self.octet 16) (self.octet 8) (self.octet 0)

def getUnsignedPort (self : Endpoint) : Int32 := self.port.toInt32 &&& 0xFFFF

def toString (self : Endpoint) : String := s!"{self.getHostAddress}:{self.port}({self.serviceName})"

end Endpoint

structure JsonEndpoint where
  serviceName : String
  ipv4 : String
  port : Option Int32
deriving DecidableEq, Repr

def showOption (o : Option String) : String := o.elim "None" (fun text => s!"Some({text})")

namespace JsonEndpoint

def toString (self : JsonEndpoint) : String :=
  s!"JsonEndpoint({self.serviceName},{self.ipv4},{showOption (self.port.map ToString.toString)})"

end JsonEndpoint

namespace JsonService

def apply (e : Endpoint) : JsonEndpoint :=
  ⟨e.serviceName, e.getHostAddress, if e.port = 0 then none else some e.getUnsignedPort⟩

def invert (libs : Libs) (e : JsonEndpoint) : Except Throwable Endpoint := do
  let address ← libs.forString e.ipv4
  pure ⟨Libs.coerceToInteger address, (e.port.map Int32.toInt16).getD 0, e.serviceName⟩

end JsonService

/-! ## `JsonAnnotation` -/

structure JsonAnnotation where
  timestamp : Int
  value : String
  endpoint : Option JsonEndpoint
deriving DecidableEq, Repr

namespace JsonAnnotation

def apply (a : Annotation) : JsonAnnotation := ⟨a.timestamp, a.value, a.host.map JsonService.apply⟩

def invert (libs : Libs) (a : JsonAnnotation) : Except Throwable Annotation := do
  let host ← a.endpoint.mapM (JsonService.invert libs)
  pure ⟨a.timestamp, a.value, host⟩

end JsonAnnotation

/-! ## `JsonBinaryAnnotation` -/

/-- A value of type `Any`, by its class: the boxed ones that stand for a payload, `null`, and any other `Number` (a
`BigInteger`, say) and any other object as the name of its class and its text. -/
inductive AnyRef where
  | boolean (value : Bool)
  | short (value : Int16)
  | integer (value : Int32)
  | long (value : Int64)
  | double (bits : UInt64)
  | string (value : String)
  | null
  | number (className shown : String)
  | other (className shown : String)
deriving DecidableEq, Repr

namespace AnyRef

def className : AnyRef → String
  | boolean _ => "java.lang.Boolean"
  | short _ => "java.lang.Short"
  | integer _ => "java.lang.Integer"
  | long _ => "java.lang.Long"
  | double _ => "java.lang.Double"
  | string _ => "java.lang.String"
  | null => "null"
  | number className _ => className
  | other className _ => className

def classCastException (v : AnyRef) (target : String) : Throwable :=
  ⟨"ClassCastException", v.className ++ " cannot be cast to " ++ target⟩

/-! `asInstanceOf`: a primitive type unboxes its own box only, and takes `null` for its zero.  A `null` string throws in
the call that it is passed to. -/

def asBoolean : AnyRef → Except Throwable Bool
  | boolean b => .ok b
  | null => .ok false
  | v => .error (v.classCastException "java.lang.Boolean")

def asShort : AnyRef → Except Throwable Int16
  | short n => .ok n
  | null => .ok 0
  | v => .error (v.classCastException "java.lang.Short")

def asInt : AnyRef → Except Throwable Int32
  | integer n => .ok n
  | null => .ok 0
  | v => .error (v.classCastException "java.lang.Integer")

def asLong : AnyRef → Except Throwable Int64
  | long n => .ok n
  | null => .ok 0
  | v => .error (v.classCastException "java.lang.Long")

def asDouble : AnyRef → Except Throwable UInt64
  | double bits => .ok bits
  | null => .ok 0
  | v => .error (v.classCastException "java.lang.Double")

def asString : AnyRef → Except Throwable String
  | string s => .ok s
  | null => .error ⟨"NullPointerException", ""⟩
  | v => .error (v.classCastException "java.lang.String")

end AnyRef

structure JsonBinaryAnnotation where
  key : String
  value : AnyRef
  annotationType : Option String
  endpoint : Option JsonEndpoint
deriving DecidableEq, Repr

namespace JsonBinaryAnnotation

open AnnotationType

def exceptionString (e : Throwable) : String := e.simpleName ++ "(" ++ e.message ++ ")"

/-- The text of the annotation with its buffer. -/
def showAnnotation {κ : Type} (b : BinaryAnnotation κ) (value : ByteBuffer) : String :=
  s!"BinaryAnnotation({b.key},java.nio.HeapByteBuffer[pos={value.position} lim={value.limit} cap={value.array.length}]," ++
  s!"AnnotationType({b.annotationType.value},{b.annotationType.name}),{showOption (b.host.map Endpoint.toString)})"

variable (libs : Libs) {κ : Type}

/-- The payload as a value, and the type where the value does not tell it.  The state is the annotation's buffer. -/
def readPayload (b : BinaryAnnotation κ) : Effect Throwable ByteBuffer (Option String × AnyRef) :=
  if b.annotationType.value = bool.value then do
    let byte ← ByteBuffer.get 1
    pure (none, .boolean (byte != [0]))
  else if b.annotationType.value = bytes.value then
    .of fun value => (.ok (some "BYTES", .string (libs.base64Encode value.bytes)), value)
  else if b.annotationType.value = i16.value then do
    let n ← ByteBuffer.getShort
    pure (some "I16", .short n)
  else if b.annotationType.value = i32.value then do
    let n ← ByteBuffer.getInt
    pure (none, .integer n)
  else if b.annotationType.value = i64.value then do
    let n ← ByteBuffer.getLong
    pure (some "I64", .long n)
  else if b.annotationType.value = double.value then do
    let bits ← ByteBuffer.getDouble
    pure (none, .double bits)
  else if b.annotationType.value = string.value then
    .of fun value => (.ok (none, .string (libs.newString value.bytes)), value)
  else
    .of fun value => (.error ⟨"Exception", "Unsupported annotation type: " ++ showAnnotation b value⟩, value)

/-- The `MatchError` for a text that is taken for a pair: `catch` gives one. -/
def matchError (e : Throwable) : Throwable :=
  ⟨"MatchError", "Error parsing binary annotation: " ++ exceptionString e ++ " (of class java.lang.String)"⟩

/-- `apply`, on the annotation's buffer. -/
def apply (b : BinaryAnnotation κ) : Effect Throwable ByteBuffer JsonBinaryAnnotation := do
  let (annotationType, value) ← tryCatch (readPayload libs b) (fun e => throw (matchError e))
  pure ⟨b.key, value, annotationType, b.host.map JsonService.apply⟩

theorem exec_apply (b : BinaryAnnotation κ) (value : ByteBuffer) :
    Effect.exec (apply libs b) value = match Effect.exec (readPayload libs b) value with
      | (.ok (t, v), value') => (.ok ⟨b.key, v, t, b.host.map JsonService.apply⟩, value')
      | (.error e, value') => (.error (matchError e), value') := by
  rw [apply, Effect.exec_bind, Effect.exec_tryCatch]
  cases Effect.exec (readPayload libs b) value with
  | mk r value' => cases r <;> rfl

def impliedType (b : JsonBinaryAnnotation) : Except Throwable AnnotationType :=
  match b.value with
  | .boolean _ => .ok bool
  | .double _ => .ok double
  | .string _ => .ok string
  | .short _ | .integer _ | .long _ | .number _ _ => .ok i32
  | .null => .error ⟨"IllegalArgumentException", unsupported "null"⟩
  | .other _ shown => .error ⟨"IllegalArgumentException", unsupported shown⟩
where
  unsupported (shown : String) : String :=
    s!"Unsupported json annotation type: JsonBinaryAnnotation({b.key},{shown},{showOption b.annotationType}," ++
    s!"{showOption (b.endpoint.map JsonEndpoint.toString)})"

/-- The payload of a value.  The type is one of the seven. -/
def writePayload (annotationType : AnnotationType) (value : AnyRef) : Except Throwable ByteBuffer :=
  if annotationType.value = bool.value then do
    let b ← value.asBoolean
    pure (.wrap (if b then [1] else [0]))
  else if annotationType.value = bytes.value then do
    let s ← value.asString
    let decoded ← libs.base64Decode s
    pure (.wrap decoded)
  else if annotationType.value = i16.value then .ofShort <$> value.asShort
  else if annotationType.value = i32.value then .ofInt <$> value.asInt
  else if annotationType.value = i64.value then .ofLong <$> value.asLong
  else if annotationType.value = double.value then .ofDouble <$> value.asDouble
  else do
    let s ← value.asString
    pure (.wrap (getBytesUtf8 s))

/-- The type of `invert`: the one that is named, else the one that the value implies. -/
def typeOf (b : JsonBinaryAnnotation) : Except Throwable AnnotationType :=
  match b.annotationType.map libs.upperCamel with
  | some name =>
    match AnnotationType.fromName name with
    | some t => .ok t
    | none => .error ⟨"MatchError", name ++ " (of class java.lang.String)"⟩
  | none => impliedType b

/-- The payload of `invert`: what goes wrong becomes a text in its place. -/
def payloadOf (annotationType : AnnotationType) (value : AnyRef) : ByteBuffer :=
  match writePayload libs annotationType value with
  | .ok buffer => buffer
  | .error e => .wrap (getBytesUtf8 ("Error parsing json binary annotation: " ++ exceptionString e))

def invert (b : JsonBinaryAnnotation) : Except Throwable (Zipkin.BinaryAnnotation ByteBuffer) := do
  let annotationType ← typeOf libs b
  let host ← b.endpoint.mapM (JsonService.invert libs)
  pure ⟨b.key, payloadOf libs annotationType b.value, annotationType, host⟩

end JsonBinaryAnnotation

/-! ## `JsonSpan` -/

structure JsonSpan where
  traceId : String
  name : String
  id : String
  parentId : Option String
  annotations : List JsonAnnotation
  binaryAnnotations : List JsonBinaryAnnotation
  debug : Option Bool
deriving DecidableEq, Repr

namespace JsonSpan

variable (libs : Libs) {κ : Type}

def encodeId (l : Int64) : String := libs.hexEncode (Libs.longToByteArray l)

/-- Reads a hex long, 0 if it is none. -/
def decodeId (idInHex : String) : Int64 :=
  match libs.hexDecode idInHex >>= Libs.longFromByteArray with
  | .ok l => l
  | .error _ => 0

/-- The span, with its binary annotations as they were written. -/
def ofSpan (s : Span κ) (binaryAnnotations : List JsonBinaryAnnotation) : JsonSpan where
  traceId := encodeId libs s.traceId
  name := s.name
  id := encodeId libs s.id
  parentId := s.parentId.map (encodeId libs)
  annotations := s.annotations.map JsonAnnotation.apply
  binaryAnnotations := binaryAnnotations
  debug := if s.debug then some true else none

/-- `apply`: the payloads are read from the buffers that the annotations refer to. -/
def apply [DecidableEq κ] (s : Span κ) : Effect Throwable (κ → ByteBuffer) JsonSpan := do
  let binaryAnnotations ← s.binaryAnnotations.mapM (fun b => Effect.zoom b.value (Zipkin.JsonBinaryAnnotation.apply libs b))
  pure (ofSpan libs s binaryAnnotations)

theorem apply_eq [DecidableEq κ] (s : Span κ) : apply libs s = ofSpan libs s <$>
    s.binaryAnnotations.mapM (fun b => Effect.zoom b.value (Zipkin.JsonBinaryAnnotation.apply libs b)) :=
  (map_eq_pure_bind _ _).symm

def invert (s : JsonSpan) : Except Throwable (Span ByteBuffer) := do
  let annotations ← s.annotations.mapM (Zipkin.JsonAnnotation.invert libs)
  let binaryAnnotations ← s.binaryAnnotations.mapM (Zipkin.JsonBinaryAnnotation.invert libs)
  pure (Span.apply (decodeId libs s.traceId) s.name (decodeId libs s.id) (s.parentId.map (decodeId libs)) annotations
    binaryAnnotations (s.debug.getD false))

end JsonSpan

end Zipkin
