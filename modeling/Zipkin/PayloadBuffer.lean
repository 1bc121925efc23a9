import Zipkin.QueryController
/-!
# PayloadBuffer — payloads that do not decode

A payload can be in any `ByteBuffer`: `array` is the way to the bytes of one on the heap, and throws for one that is
read-only or direct.  `JsonBinaryAnnotation.apply` takes the pair of type and value apart in the assignment of its
`try`, and its `catch` ends with a text, which is no pair.  So what a payload throws comes out as a `MatchError`, and with
it the spans, the traces and the response that the annotation is a part of.
-/
namespace Zipkin

structure PayloadBuffer where
  direct : Bool
  readOnly : Bool
  buffer : ByteBuffer
deriving DecidableEq

namespace PayloadBuffer

def ofHeap (buffer : ByteBuffer) : PayloadBuffer := ⟨false, false, buffer⟩

def className (value : PayloadBuffer) : String :=
  (if value.direct then "Direct" else "Heap") ++ "ByteBuffer" ++ (if value.readOnly then "R" else "")

def hasArray (value : PayloadBuffer) : Bool := !value.direct && !value.readOnly

/-- `array`, for what it throws. -/
def array : Effect Throwable PayloadBuffer Unit := .of fun value =>
  if value.direct then (.error ⟨"UnsupportedOperationException", ""⟩, value)
  else if value.readOnly then (.error ⟨"ReadOnlyBufferException", ""⟩, value)
  else (.ok (), value)

/-- What reads the bytes and moves the position, the same for every buffer. -/
def reading {α : Type} (x : Effect Throwable ByteBuffer α) : Effect Throwable PayloadBuffer α := .of fun value =>
  ((Effect.exec x value.buffer).1, { value with buffer := (Effect.exec x value.buffer).2 })

end PayloadBuffer

namespace JsonBinaryAnnotation

open AnnotationType

variable (libs : Libs) {κ : Type}

/-- The types whose payload is copied from the buffer's array. -/
def Copied (t : AnnotationType) : Prop := t.value = bytes.value ∨ t.value = string.value

instance (t : AnnotationType) : Decidable (Copied t) := inferInstanceAs (Decidable (_ ∨ _))

def showAnnotationIn (b : BinaryAnnotation κ) (value : PayloadBuffer) : String :=
  let buffer := value.buffer
  s!"BinaryAnnotation({b.key},java.nio.{value.className}[pos={buffer.position} lim={buffer.limit} cap={buffer.array.length}]," ++
  s!"AnnotationType({b.annotationType.value},{b.annotationType.name}),{showOption (b.host.map Endpoint.toString)})"

/-- `readPayload` in any buffer: bytes and strings ask for its array first. -/
def readPayloadIn (b : BinaryAnnotation κ) : Effect Throwable PayloadBuffer (Option String × AnyRef) :=
  if Copied b.annotationType then do
    PayloadBuffer.array
    PayloadBuffer.reading (readPayload libs b)
  else if Known b.annotationType then PayloadBuffer.reading (readPayload libs b)
  else .of fun value => (.error ⟨"Exception", "Unsupported annotation type: " ++ showAnnotationIn b value⟩, value)

/-- `apply`, on the annotation's buffer, whatever buffer it is. -/
def applyIn (b : BinaryAnnotation κ) : Effect Throwable PayloadBuffer JsonBinaryAnnotation := do
  let (annotationType, value) ← tryCatch (readPayloadIn libs b) (fun e => throw (matchError e))
  pure ⟨b.key, value, annotationType, b.host.map JsonService.apply⟩

end JsonBinaryAnnotation

namespace JsonSpan

def applyIn (libs : Libs) {κ : Type} [DecidableEq κ] (s : Span κ) : Effect Throwable (κ → PayloadBuffer) JsonSpan := do
  let binaryAnnotations ← s.binaryAnnotations.mapM (fun b => Effect.zoom b.value (Zipkin.JsonBinaryAnnotation.applyIn libs b))
  pure (ofSpan libs s binaryAnnotations)

end JsonSpan

namespace PayloadBuffer

def advance (value : PayloadBuffer) (n : Nat) : PayloadBuffer := { value with buffer := value.buffer.advance n }

theorem exec_reading {α : Type} {x : Effect Throwable ByteBuffer α} {value : PayloadBuffer} {r : Except Throwable α}
    {buffer : ByteBuffer} (h : Effect.exec x value.buffer = (r, buffer)) :
    Effect.exec (reading x) value = (r, { value with buffer := buffer }) := by
  rw [reading, Effect.exec_of, h]

theorem exec_array {value : PayloadBuffer} (h : value.hasArray = true) : Effect.exec array value = (.ok (), value) := by
  simp only [hasArray, Bool.and_eq_true, Bool.not_eq_true'] at h
  simp only [array, Effect.exec_of, h.1, h.2, Bool.false_eq_true, if_false]

theorem exec_array_error {value : PayloadBuffer} (h : ¬ value.hasArray = true) :
    ∃ e, Effect.exec array value = (.error e, value) := by
  rw [array, Effect.exec_of]
  split
  · exact ⟨_, rfl⟩
  · split
    · exact ⟨_, rfl⟩
    · rename_i hdirect hreadOnly
      simp [hasArray, hdirect, hreadOnly] at h

end PayloadBuffer

namespace JsonBinaryAnnotation

open AnnotationType

variable (libs : Libs) {κ : Type} {b : BinaryAnnotation κ} {value : PayloadBuffer}

/-- A payload that decodes: of one of the seven types, with as many bytes as the type takes, and in an accessible array
if it is copied from there. -/
structure Decodes (b : BinaryAnnotation κ) (value : PayloadBuffer) : Prop where
  known : Known b.annotationType
  width_le : width b.annotationType ≤ value.buffer.remaining
  hasArray : Copied b.annotationType → value.hasArray = true

theorem known_of_copied {t : AnnotationType} (h : Copied t) : Known t := by
  rcases h with h | h <;> simp [Known, h]

theorem exec_readPayloadIn_ok (h : Decodes b value) : Effect.exec (readPayloadIn libs b) value =
    ((Effect.exec (readPayload libs b) value.buffer).1, value.advance (width b.annotationType)) := by
  have hread := exec_readPayload_ok libs h.known h.width_le
  rw [hread]
  by_cases hc : Copied b.annotationType
  · rw [readPayloadIn, if_pos hc, Effect.exec_bind_ok (PayloadBuffer.exec_array (h.hasArray hc)),
      PayloadBuffer.exec_reading hread]
    rfl
  · rw [readPayloadIn, if_neg hc, if_pos h.known, PayloadBuffer.exec_reading hread]
    rfl

theorem exec_readPayloadIn_error (h : ¬ Decodes b value) :
    ∃ e, Effect.exec (readPayloadIn libs b) value = (.error e, value) := by
  by_cases hread : Known b.annotationType ∧ width b.annotationType ≤ value.buffer.remaining
  · have hc : Copied b.annotationType := Classical.byContradiction fun hc => h ⟨hread.1, hread.2, fun h => absurd h hc⟩
    obtain ⟨e, he⟩ := PayloadBuffer.exec_array_error fun harray => h ⟨hread.1, hread.2, fun _ => harray⟩
    rw [readPayloadIn, if_pos hc]
    exact ⟨e, Effect.exec_bind_error he⟩
  · obtain ⟨e, he⟩ := exec_readPayload_error libs hread
    by_cases hc : Copied b.annotationType
    · -- copying takes no bytes, so there are always enough
      have hwidth : width b.annotationType = 0 := by
        rcases hc with hc | hc <;> simp only [width, hc] <;> rfl
      exact absurd ⟨known_of_copied hc, hwidth ▸ Nat.zero_le _⟩ hread
    · rw [readPayloadIn, if_neg hc]
      split
      · exact ⟨e, PayloadBuffer.exec_reading he⟩
      · exact ⟨_, rfl⟩

/-- **A payload that decodes goes through**, and moves the buffer as it does on the heap. -/
theorem exec_applyIn_ok (h : Decodes b value) : Effect.exec (applyIn libs b) value =
    ((Effect.exec (apply libs b) value.buffer).1, value.advance (width b.annotationType)) := by
  rw [applyIn, Effect.exec_bind, Effect.exec_tryCatch, exec_readPayloadIn_ok libs h,
    exec_readPayload_ok libs h.known h.width_le, exec_apply_ok libs h.known h.width_le]
  rfl

/-- **Any other throws**, a `MatchError` with the text that was to be the value. -/
theorem exec_applyIn_error (h : ¬ Decodes b value) :
    ∃ e, Effect.exec (readPayloadIn libs b) value = (.error e, value) ∧
      Effect.exec (applyIn libs b) value = (.error (matchError e), value) := by
  obtain ⟨e, he⟩ := exec_readPayloadIn_error libs h
  refine ⟨e, he, ?_⟩
  rw [applyIn, Effect.exec_bind, Effect.exec_tryCatch, he]
  rfl

theorem showAnnotationIn_ofHeap (b : BinaryAnnotation κ) (value : ByteBuffer) :
    showAnnotationIn b (.ofHeap value) = showAnnotation b value := by
  have hclass : (PayloadBuffer.ofHeap value).className = "HeapByteBuffer" := by
    simp [PayloadBuffer.className, PayloadBuffer.ofHeap]
  have htext : ",java.nio.HeapByteBuffer[pos=" = ",java.nio." ++ "HeapByteBuffer" ++ "[pos=" := by decide
  unfold showAnnotationIn showAnnotation
  rw [hclass, htext]
  simp only [PayloadBuffer.ofHeap, toString, String.append_assoc, -String.reduceAppend]

/-- **On the heap** it is `apply`. -/
theorem exec_applyIn_ofHeap (b : BinaryAnnotation κ) (value : ByteBuffer) : Effect.exec (applyIn libs b) (.ofHeap value) =
    ((Effect.exec (apply libs b) value).1, .ofHeap (Effect.exec (apply libs b) value).2) := by
  have hread : Effect.exec (readPayloadIn libs b) (.ofHeap value) =
      ((Effect.exec (readPayload libs b) value).1, .ofHeap (Effect.exec (readPayload libs b) value).2) := by
    by_cases hc : Copied b.annotationType
    · rw [readPayloadIn, if_pos hc, Effect.exec_bind_ok (PayloadBuffer.exec_array rfl)]
      rfl
    · by_cases hk : Known b.annotationType
      · rw [readPayloadIn, if_neg hc, if_pos hk]
        rfl
      · rw [readPayloadIn, if_neg hc, if_neg hk]
        simp only [Known, List.mem_cons, List.not_mem_nil, or_false, not_or] at hk
        obtain ⟨h1, h2, h3, h4, h5, h6, h7⟩ := hk
        rw [readPayload, if_neg h1, if_neg h2, if_neg h3, if_neg h4, if_neg h5, if_neg h6, if_neg h7]
        simp only [Effect.exec_of, showAnnotationIn_ofHeap]
  rw [applyIn, Effect.exec_bind, Effect.exec_tryCatch, hread, exec_apply]
  cases Effect.exec (readPayload libs b) value with
  | mk r value' => cases r <;> rfl

/-- `apply` gives an annotation, with what went wrong in place of the value. -/
def Reports (b : BinaryAnnotation κ) (value : PayloadBuffer) : Prop :=
  ∃ j value', Effect.exec (applyIn libs b) value = (.ok j, value') ∧
    ∀ e, (Effect.exec (readPayloadIn libs b) value).1 = .error e →
      j.value = .string ("Error parsing binary annotation: " ++ exceptionString e)

theorem reports_iff : Reports libs b value ↔ Decodes b value := by
  constructor
  · rintro ⟨j, value', hj, -⟩
    by_cases h : Decodes b value
    · exact h
    · obtain ⟨e, -, he⟩ := exec_applyIn_error libs h
      rw [he] at hj
      cases hj
  · intro h
    have happly := exec_applyIn_ok libs h
    rw [exec_apply_ok libs h.known h.width_le] at happly
    refine ⟨_, _, happly, fun e he => ?_⟩
    rw [exec_readPayloadIn_ok libs h, exec_readPayload_ok libs h.known h.width_le] at he
    cases he

end JsonBinaryAnnotation

/-! ## Spans and traces -/

namespace JsonSpan

variable (libs : Libs) {κ : Type} [DecidableEq κ]

/-- The annotation decodes, with the buffers as they are now. -/
def DecodesIn (b : BinaryAnnotation κ) (heap : κ → PayloadBuffer) : Prop := JsonBinaryAnnotation.Decodes b (heap b.value)

def movedIn (b : BinaryAnnotation κ) (heap : κ → PayloadBuffer) : κ → PayloadBuffer :=
  Function.update heap b.value ((heap b.value).advance (Zipkin.JsonBinaryAnnotation.width b.annotationType))

theorem outcome_zoom_applyIn :
    Effect.Outcome (fun b : BinaryAnnotation κ => Effect.zoom b.value (Zipkin.JsonBinaryAnnotation.applyIn libs b))
      DecodesIn movedIn where
  ok b heap h := by
    rw [Effect.exec_zoom, JsonBinaryAnnotation.exec_applyIn_ok libs h, JsonBinaryAnnotation.exec_apply_ok libs h.known h.width_le]
    exact ⟨_, rfl⟩
  error b heap h := by
    obtain ⟨e, -, he⟩ := JsonBinaryAnnotation.exec_applyIn_error libs h
    rw [Effect.exec_zoom, he]
    exact ⟨_, _, rfl⟩

/-- **A span is written** where each of its annotations decodes when its turn comes. -/
theorem outcome_applyIn : Effect.Outcome (applyIn (κ := κ) libs)
    (fun s => Effect.AllAlong DecodesIn movedIn s.binaryAnnotations)
    (fun s => Effect.afterAll movedIn s.binaryAnnotations) := by
  have h := (((outcome_zoom_applyIn libs).mapM).comp (Span.binaryAnnotations (β := κ))).map (ofSpan libs)
  have hmap (s : Span κ) : applyIn libs s = ofSpan libs s <$>
      s.binaryAnnotations.mapM (fun b => Effect.zoom b.value (Zipkin.JsonBinaryAnnotation.applyIn libs b)) :=
    (map_eq_pure_bind _ _).symm
  simpa only [← hmap] using h

end JsonSpan

namespace ZipkinQueryController

variable (libs : Libs) {κ : Type} [DecidableEq κ] (ord : HashOrder κ)

/-- `jsonOfTraces`, with the payloads in any buffers. -/
def jsonOfTracesIn (traces : List (Trace κ)) : Effect Throwable (κ → PayloadBuffer) (List (List JsonSpan)) :=
  traces.mapM (fun t => (t.spans ord).mapM (JsonSpan.applyIn libs))

theorem outcome_jsonOfTracesIn : Effect.Outcome (jsonOfTracesIn libs ord)
    (fun traces => Effect.AllAlong JsonSpan.DecodesIn JsonSpan.movedIn (annotationsOf ord traces))
    (fun traces => Effect.afterAll JsonSpan.movedIn (annotationsOf ord traces)) :=
  outcome_traces ord (JsonSpan.outcome_applyIn libs)

/-- **When a payload is reported** instead of thrown: when it decodes.  So traces have a response exactly if each of their
annotations decodes when its turn comes, and one that does not makes the whole query fail. -/
theorem reports_and_responds_iff : (∀ (b : BinaryAnnotation κ) (value : PayloadBuffer),
      JsonBinaryAnnotation.Reports libs b value ↔ JsonBinaryAnnotation.Decodes b value) ∧
    ∀ (traces : List (Trace κ)) (heap : κ → PayloadBuffer),
      (∃ response heap', Effect.exec (jsonOfTracesIn libs ord traces) heap = (.ok response, heap')) ↔
        Effect.AllAlong JsonSpan.DecodesIn JsonSpan.movedIn (annotationsOf ord traces) heap := by
  refine ⟨fun b value => JsonBinaryAnnotation.reports_iff libs, fun traces heap => ⟨?_, fun h => ?_⟩⟩
  · rintro ⟨response, heap', hresponse⟩
    by_cases h : Effect.AllAlong JsonSpan.DecodesIn JsonSpan.movedIn (annotationsOf ord traces) heap
    · exact h
    · obtain ⟨e, heap'', he⟩ := (outcome_jsonOfTracesIn libs ord).error _ _ h
      rw [he] at hresponse
      cases hresponse
  · obtain ⟨response, hresponse⟩ := (outcome_jsonOfTracesIn libs ord).ok _ _ h
    exact ⟨response, _, hresponse⟩

/-- An integer of two bytes: in the place of its value there is a `MatchError`, and no response for its trace. -/
theorem not_reports_shortInteger :
    ¬ JsonBinaryAnnotation.Reports .sample ⟨"retries", (), .i32, none⟩ (.ofHeap (.wrap [0, 5])) ∧
    Effect.exec (Zipkin.JsonBinaryAnnotation.applyIn .sample ⟨"retries", (), .i32, none⟩) (.ofHeap (.wrap [0, 5])) =
      (.error ⟨"MatchError", "Error parsing binary annotation: BufferUnderflowException() (of class java.lang.String)"⟩,
        .ofHeap (.wrap [0, 5])) ∧
    ¬ ∃ response heap', Effect.exec (jsonOfTracesIn .sample (.insertion Unit)
      [⟨[Span.apply 1 "get" 1 none [] [⟨"retries", (), .i32, none⟩]]⟩]) (fun _ => .ofHeap (.wrap [0, 5])) =
        (.ok response, heap') := by
  have hnot : ¬ JsonBinaryAnnotation.Decodes (⟨"retries", (), .i32, none⟩ : BinaryAnnotation Unit) (.ofHeap (.wrap [0, 5])) :=
    fun h => absurd h.width_le (by decide)
  refine ⟨fun h => hnot ((Zipkin.JsonBinaryAnnotation.reports_iff .sample).1 h), by rfl, ?_⟩
  rintro ⟨response, heap', hresponse⟩
  obtain ⟨e, heap'', he⟩ := (outcome_jsonOfTracesIn .sample (.insertion Unit)).error
    [⟨[Span.apply 1 "get" 1 none [] [⟨"retries", (), .i32, none⟩]]⟩] (fun _ => .ofHeap (.wrap [0, 5])) (fun h => hnot h.1)
  rw [he] at hresponse
  cases hresponse

end ZipkinQueryController

end Zipkin
