import Zipkin.Json
/-!
# JsonPayload — what reading a payload does to its buffer

`JsonBinaryAnnotation.apply` reads the payload of a binary annotation.  It goes through if the type is one of the seven
and the buffer holds the bytes that the type takes, and then the buffer is moved by as many (`width`): by none for bytes
and strings, which are copied, and by all of them for the others.
-/
namespace Zipkin
namespace JsonBinaryAnnotation

open AnnotationType

variable {κ : Type} (libs : Libs)

def Known (t : AnnotationType) : Prop :=
  t.value ∈ [bool.value, bytes.value, i16.value, i32.value, i64.value, double.value, string.value]

instance (t : AnnotationType) : Decidable (Known t) := inferInstanceAs (Decidable (_ ∈ _))

/-- The bytes that reading a payload of this type takes from its buffer. -/
def width (t : AnnotationType) : Nat :=
  if t.value = bool.value then 1
  else if t.value = i16.value then 2
  else if t.value = i32.value then 4
  else if t.value = i64.value ∨ t.value = double.value then 8
  else 0

def payload (t : AnnotationType) (value : ByteBuffer) : List UInt8 :=
  if width t = 0 then value.bytes else value.bytes.take (width t)

def valueOf (t : AnnotationType) (payload : List UInt8) : AnyRef :=
  if t.value = bool.value then .boolean (payload != [0])
  else if t.value = bytes.value then .string (libs.base64Encode payload)
  else if t.value = i16.value then .short (ByteBuffer.toShort payload)
  else if t.value = i32.value then .integer (ByteBuffer.toInt payload)
  else if t.value = i64.value then .long (ByteBuffer.toLong payload)
  else if t.value = double.value then .double (ByteBuffer.toDouble payload)
  else .string (libs.newString payload)

def tagOf (t : AnnotationType) : Option String :=
  if t.value = bytes.value then some "BYTES"
  else if t.value = i16.value then some "I16"
  else if t.value = i64.value then some "I64"
  else none

theorem known_cases {t : AnnotationType} (h : Known t) : t.value = bool.value ∨ t.value = bytes.value ∨
    t.value = i16.value ∨ t.value = i32.value ∨ t.value = i64.value ∨ t.value = double.value ∨
    t.value = string.value := by
  simpa only [Known, List.mem_cons, List.not_mem_nil, or_false] using h

theorem exec_readPayload_ok {b : BinaryAnnotation κ} {value : ByteBuffer} (hk : Known b.annotationType)
    (hw : width b.annotationType ≤ value.remaining) :
    Effect.exec (readPayload libs b) value =
      (.ok (tagOf b.annotationType, valueOf libs b.annotationType (payload b.annotationType value)),
        value.advance (width b.annotationType)) := by
  rcases known_cases hk with h | h | h | h | h | h | h
  all_goals simp only [width, h] at hw
  all_goals simp only [readPayload, tagOf, valueOf, payload, width, h]
  · exact (Effect.exec_bind_ok (ByteBuffer.exec_get hw)).trans rfl
  · exact congrArg (Prod.mk _) value.advance_zero.symm
  · exact (Effect.exec_bind_ok (ByteBuffer.exec_map_get _ hw)).trans rfl
  · exact (Effect.exec_bind_ok (ByteBuffer.exec_map_get _ hw)).trans rfl
  · exact (Effect.exec_bind_ok (ByteBuffer.exec_map_get _ hw)).trans rfl
  · exact (Effect.exec_bind_ok (ByteBuffer.exec_map_get _ hw)).trans rfl
  · exact congrArg (Prod.mk _) value.advance_zero.symm

/-- **A payload that is too short** for a known type. -/
theorem exec_readPayload_underflow {b : Zipkin.BinaryAnnotation κ} {value : ByteBuffer} (hk : Known b.annotationType)
    (hw : value.remaining < width b.annotationType) :
    Effect.exec (readPayload libs b) value = (.error ⟨"BufferUnderflowException", ""⟩, value) := by
  have hget {α : Type} {n : Nat} (f : List UInt8 → α) (hn : value.remaining < n) :
      Effect.exec (f <$> ByteBuffer.get n) value = (.error ⟨"BufferUnderflowException", ""⟩, value) := by
    rw [Effect.exec_map, ByteBuffer.exec_get_underflow hn]
    rfl
  rcases known_cases hk with h | h | h | h | h | h | h
  all_goals simp only [width, h] at hw
  all_goals simp only [readPayload, h]
  · exact Effect.exec_bind_error (ByteBuffer.exec_get_underflow hw)
  · exact absurd hw (Nat.not_lt_zero _)
  · exact Effect.exec_bind_error (hget _ hw)
  · exact Effect.exec_bind_error (hget _ hw)
  · exact Effect.exec_bind_error (hget _ hw)
  · exact Effect.exec_bind_error (hget _ hw)
  · exact absurd hw (Nat.not_lt_zero _)

theorem exec_readPayload_error {b : Zipkin.BinaryAnnotation κ} {value : ByteBuffer}
    (h : ¬ (Known b.annotationType ∧ width b.annotationType ≤ value.remaining)) :
    ∃ e, Effect.exec (readPayload libs b) value = (.error e, value) := by
  by_cases hk : Known b.annotationType
  · exact ⟨_, exec_readPayload_underflow libs hk (Nat.not_le.1 fun hw => h ⟨hk, hw⟩)⟩
  · simp only [Known, List.mem_cons, List.not_mem_nil, or_false, not_or] at hk
    obtain ⟨h1, h2, h3, h4, h5, h6, h7⟩ := hk
    rw [readPayload, if_neg h1, if_neg h2, if_neg h3, if_neg h4, if_neg h5, if_neg h6, if_neg h7]
    exact ⟨_, rfl⟩

/-- **An annotation goes through** where its type is known and its buffer has the bytes, and moves the buffer by them. -/
theorem exec_apply_ok {b : BinaryAnnotation κ} {value : ByteBuffer} (hk : Known b.annotationType)
    (hw : width b.annotationType ≤ value.remaining) :
    Effect.exec (apply libs b) value =
      (.ok ⟨b.key, valueOf libs b.annotationType (payload b.annotationType value), tagOf b.annotationType,
        b.host.map JsonService.apply⟩, value.advance (width b.annotationType)) := by
  rw [exec_apply, exec_readPayload_ok libs hk hw]

/-- **Elsewhere it throws**, and leaves the buffer as it is. -/
theorem exec_apply_error {b : BinaryAnnotation κ} {value : ByteBuffer}
    (h : ¬ (Known b.annotationType ∧ width b.annotationType ≤ value.remaining)) :
    ∃ e, Effect.exec (apply libs b) value = (.error e, value) := by
  obtain ⟨e, he⟩ := exec_readPayload_error libs h
  exact ⟨matchError e, by rw [exec_apply, he]⟩

/-! ## Well-formed payloads -/

/-- The payload is well formed for the type. -/
inductive WellFormed (b : BinaryAnnotation κ) (value : ByteBuffer) : Prop
  | bool (ht : b.annotationType = bool) (h : value.bytes = [0] ∨ value.bytes = [1])
  | bytes (ht : b.annotationType = bytes)
  | i16 (ht : b.annotationType = i16) (h : value.bytes.length = 2)
  | i32 (ht : b.annotationType = i32) (h : value.bytes.length = 4)
  | i64 (ht : b.annotationType = i64) (h : value.bytes.length = 8)
  | double (ht : b.annotationType = double) (h : value.bytes.length = 8)
  | string (ht : b.annotationType = string) (s : String) (h : value.bytes = getBytesUtf8 s)

/-- **A well-formed payload is read to its end**: it has as many bytes as its type takes, or it is copied. -/
theorem WellFormed.known_width {b : BinaryAnnotation κ} {value : ByteBuffer} (h : WellFormed b value) :
    Known b.annotationType ∧ ((width b.annotationType = value.remaining ∧ 0 < width b.annotationType) ∨
      b.annotationType = AnnotationType.bytes ∨ b.annotationType = AnnotationType.string) := by
  rw [← ByteBuffer.length_bytes]
  cases h with
  | bool ht h =>
    have hlen : value.bytes.length = 1 := by rcases h with h | h <;> rw [h] <;> rfl
    rw [ht, hlen]; decide
  | bytes ht => rw [ht]; exact ⟨by decide, Or.inr (Or.inl rfl)⟩
  | i16 ht h => rw [ht, h]; decide
  | i32 ht h => rw [ht, h]; decide
  | i64 ht h => rw [ht, h]; decide
  | double ht h => rw [ht, h]; decide
  | string ht s h => rw [ht]; exact ⟨by decide, Or.inr (Or.inr rfl)⟩

theorem WellFormed.width_le {b : BinaryAnnotation κ} {value : ByteBuffer} (h : WellFormed b value) :
    width b.annotationType ≤ value.remaining := by
  rcases h.known_width.2 with ⟨h, -⟩ | h | h
  · exact Nat.le_of_eq h
  · rw [h]; exact Nat.zero_le _
  · rw [h]; exact Nat.zero_le _

theorem WellFormed.payload_eq {b : BinaryAnnotation κ} {value : ByteBuffer} (h : WellFormed b value) :
    payload b.annotationType value = value.bytes := by
  rcases h.known_width.2 with ⟨h, -⟩ | h | h
  · rw [payload, h, ← ByteBuffer.length_bytes, List.take_length, ite_self]
  · rw [h]; rfl
  · rw [h]; rfl

/-- **A well-formed payload is read as it is.** -/
theorem exec_apply_of_wellFormed {b : BinaryAnnotation κ} {value : ByteBuffer} (h : WellFormed b value) :
    Effect.exec (apply libs b) value =
      (.ok ⟨b.key, valueOf libs b.annotationType value.bytes, tagOf b.annotationType, b.host.map JsonService.apply⟩,
        value.advance (width b.annotationType)) := by
  rw [exec_apply_ok libs h.known_width.1 h.width_le, h.payload_eq]

end JsonBinaryAnnotation
end Zipkin
