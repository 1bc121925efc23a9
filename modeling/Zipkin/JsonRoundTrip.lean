import Zipkin.JsonPayload
/-!
# JsonRoundTrip — what comes back from JSON text

An endpoint, an annotation and an id come back as they were.  A binary annotation comes back if its type can be told from
the value that is read: numbers are read as integers of the smallest class that holds them, so a short never comes back
as one, and a long only if it is no integer.
-/
namespace Zipkin

/-! ## Endpoints, annotations, ids -/

namespace JsonService

theorem sshiftRight_and_mask (x : BitVec 32) {k : Nat} (hk : k + 8 ≤ 32) :
    x.sshiftRight k &&& 255#32 = BitVec.ofNat 32 (x.toNat / 2 ^ k % 2 ^ 8) := by
  refine BitVec.eq_of_getLsbD_eq (fun i hi => ?_)
  have hmask : (255#32).getLsbD i = decide (i < 8) := by
    rw [BitVec.getLsbD_ofNat, Nat.testBit_two_pow_sub_one 8 i]
    simp [hi]
  rw [BitVec.getLsbD_and, hmask, BitVec.getLsbD_sshiftRight, BitVec.getLsbD_ofNat, Nat.testBit_mod_two_pow,
    Nat.testBit_div_two_pow, ← BitVec.testBit_toNat]
  by_cases h8 : i < 8
  · have h1 : ¬ 32 ≤ i := by omega
    have h2 : k + i < 32 := by omega
    simp [h8, h1, h2, hi, Nat.add_comm]
  · simp [h8]

theorem octet_eq (e : Endpoint) {shift : Int32} {n : Nat} (hn : n + 8 ≤ 32)
    (hs : shift.toBitVec.smod 32 = BitVec.ofNat 32 n) :
    e.octet shift = ((UInt8.ofNat (e.ipv4.toUInt32.toNat / 2 ^ n)).toNat : Int) := by
  have hbits : ((e.ipv4 >>> shift) &&& 0xFF).toBitVec = BitVec.ofNat 32 (e.ipv4.toUInt32.toNat / 2 ^ n % 2 ^ 8) := by
    rw [Int32.toBitVec_and, Int32.toBitVec_shiftRight, hs, BitVec.sshiftRight_eq', BitVec.toNat_ofNat,
      Nat.mod_eq_of_lt (by omega)]
    exact sshiftRight_and_mask _ hn
  have hlt : e.ipv4.toUInt32.toNat / 2 ^ n % 2 ^ 8 < 2 ^ 8 := Nat.mod_lt _ (by decide)
  rw [Endpoint.octet, ← Int32.toInt_toBitVec, hbits, BitVec.toInt_eq_toNat_of_lt, BitVec.toNat_ofNat,
    Nat.mod_eq_of_lt (by omega), UInt8.toNat_ofNat']
  rw [BitVec.toNat_ofNat]
  omega

/-- **An address comes back from its dotted quad.** -/
theorem forString_getHostAddress (libs : Libs) (e : Endpoint) :
    libs.forString e.getHostAddress = .ok (BigEndian.toBytes 4 e.ipv4.toUInt32.toNat) := by
  have h24 : 2 ^ 24 = 256 * 256 * 256 := rfl
  have h16 : 2 ^ 16 = 256 * 256 := rfl
  have h8 : 2 ^ 8 = 256 := rfl
  rw [Endpoint.getHostAddress, octet_eq e (n := 24) (by decide) (by decide),
    octet_eq e (n := 16) (by decide) (by decide), octet_eq e (n := 8) (by decide) (by decide),
    octet_eq e (n := 0) (by decide) (by decide), libs.forString_dottedQuad, h24, h16, h8, pow_zero, Nat.div_one]
  simp only [BigEndian.toBytes, Nat.div_div_eq_div_mul, List.nil_append, List.cons_append]

theorem toInt16_getUnsignedPort (e : Endpoint) : e.getUnsignedPort.toInt16 = e.port := by
  have hones : (0xFFFF : Int32).toInt16.toBitVec = BitVec.allOnes 16 := by decide
  rw [Endpoint.getUnsignedPort, ← Int16.toBitVec_inj, Int32.toInt16_and, Int16.toInt16_toInt32, Int16.toBitVec_and,
    hones, BitVec.and_allOnes]

/-- **An endpoint comes back.** -/
theorem invert_apply (libs : Libs) (e : Endpoint) : invert libs (apply e) = .ok e := by
  have hip : Libs.coerceToInteger (BigEndian.toBytes 4 e.ipv4.toUInt32.toNat) = e.ipv4 := by
    rw [Libs.coerceToInteger, ByteBuffer.toInt, BigEndian.ofBytes_toBytes e.ipv4.toUInt32.toNat_lt, UInt32.ofNat_toNat,
      Int32.toInt32_toUInt32]
  have hport : ((if e.port = 0 then none else some e.getUnsignedPort).map Int32.toInt16).getD 0 = e.port := by
    split
    · rename_i h; rw [h]; rfl
    · rw [Option.map_some, Option.getD_some, toInt16_getUnsignedPort]
  unfold invert apply
  simp only [forString_getHostAddress libs e, hport]
  change Except.ok _ = _
  rw [hip]

theorem mapM_invert_apply (libs : Libs) (host : Option Endpoint) :
    (host.map apply).mapM (invert libs) = .ok host := by
  cases host with
  | none => rfl
  | some e =>
    rw [Option.map_some, Option.mapM_some, invert_apply]
    rfl

end JsonService

namespace JsonAnnotation

/-- **An annotation comes back.** -/
theorem invert_apply (libs : Libs) (a : Annotation) : invert libs (apply a) = .ok a := by
  unfold invert apply
  simp only [JsonService.mapM_invert_apply]
  rfl

theorem apply_inj (libs : Libs) {a b : Annotation} (h : apply a = apply b) : a = b := by
  have ha := invert_apply libs a
  rw [h, invert_apply] at ha
  exact (Except.ok.inj ha).symm

end JsonAnnotation

namespace JsonSpan

/-- **An id comes back.** -/
theorem decodeId_encodeId (libs : Libs) (l : Int64) : decodeId libs (encodeId libs l) = l := by
  have h : (libs.hexDecode (encodeId libs l) >>= Libs.longFromByteArray) = .ok l := by
    rw [encodeId, libs.hexDecode_encode]
    exact Libs.longFromByteArray_toByteArray l
  rw [decodeId, h]

theorem encodeId_inj (libs : Libs) {a b : Int64} (h : encodeId libs a = encodeId libs b) : a = b := by
  rw [← decodeId_encodeId libs a, h, decodeId_encodeId]

/-- **A span is told by what is written of it**, but for its binary annotations. -/
theorem ofSpan_inj (libs : Libs) {κ : Type} {s s' : Span κ} {bs bs' : List JsonBinaryAnnotation}
    (h : ofSpan libs s bs = ofSpan libs s' bs') (hb : s.id = s'.id → s.binaryAnnotations = s'.binaryAnnotations) :
    s = s' := by
  simp only [ofSpan, mk.injEq] at h
  obtain ⟨htrace, hname, hid, hparent, hann, -, hdebug⟩ := h
  have hid := encodeId_inj libs hid
  have hannotations : s.annotations = s'.annotations :=
    List.map_injective_iff.2 (fun a b hab => JsonAnnotation.apply_inj libs hab) hann
  have hparentId : s.parentId = s'.parentId :=
    Option.map_injective (fun a b hab => encodeId_inj libs hab) hparent
  have hdebug' : s.debug = s'.debug := by
    cases hd : s.debug <;> cases hd' : s'.debug <;> simp_all
  exact Span.ext (encodeId_inj libs htrace) hname hid hparentId hannotations (hb hid) hdebug'

theorem exists_of_apply_ok (libs : Libs) {κ : Type} [DecidableEq κ] {s : Span κ} {heap heap' : κ → ByteBuffer}
    {j : JsonSpan} (h : Effect.exec (apply libs s) heap = (.ok j, heap')) : ∃ bs, j = ofSpan libs s bs := by
  obtain ⟨bs, heap₁, -, hj⟩ := Effect.exec_bind_eq_ok h
  exact ⟨bs, (Except.ok.inj (Prod.mk.inj hj).1).symm⟩

/-- **What is written of a span without binary annotations** does not touch a buffer, and is read back as the span. -/
theorem exec_apply_of_no_binary (libs : Libs) {κ : Type} [DecidableEq κ] {s : Span κ} (h : s.binaryAnnotations = [])
    (heap : κ → ByteBuffer) : Effect.exec (apply libs s) heap = (.ok (ofSpan libs s []), heap) := by
  rw [apply, h]
  rfl

theorem invert_ofSpan (libs : Libs) {κ : Type} (s : Span κ) :
    invert libs (ofSpan libs s []) = .ok { s with binaryAnnotations := [] } := by
  have hannotations : (s.annotations.map JsonAnnotation.apply).mapM (Zipkin.JsonAnnotation.invert libs) = .ok s.annotations :=
    Effect.mapM_map_ok (fun a _ => JsonAnnotation.invert_apply libs a)
  have hparent : (s.parentId.map (encodeId libs)).map (decodeId libs) = s.parentId := by
    cases s.parentId with
    | none => rfl
    | some parentId => exact congrArg some (decodeId_encodeId libs parentId)
  have hdebug : (if s.debug then some true else none : Option Bool).getD false = s.debug := by
    cases s.debug <;> rfl
  -- the annotations of a span are sorted, so sorting them again leaves them as they are
  have hsorted := StableSort.sorted_eq_self _ s.sorted
  unfold invert ofSpan
  rw [hannotations]
  change Except.ok (Span.apply _ _ _ _ _ _ _) = _
  rw [decodeId_encodeId, decodeId_encodeId, hparent, hdebug]
  simp only [Span.apply, hsorted]
  rfl

/-- **A span without binary annotations comes back.** -/
theorem invert_apply_span (libs : Libs) (s : Span ByteBuffer) (h : s.binaryAnnotations = [])
    (heap : ByteBuffer → ByteBuffer) :
    ∃ j, Effect.exec (apply libs s) heap = (.ok j, heap) ∧ invert libs j = .ok s := by
  refine ⟨_, exec_apply_of_no_binary libs h heap, (invert_ofSpan libs s).trans ?_⟩
  rw [← h]

/-- A span with negative ids, a negative port, port 0 and an address with its first bit set. -/
theorem invert_apply_span_signed : ∃ j, Effect.exec (apply .sample (Span.apply (-1) "get" (-9223372036854775808) (some 0)
      [⟨20, "sr", some ⟨-1062731775, -1, "db"⟩⟩, ⟨10, "cs", some ⟨2130706433, 0, "web"⟩⟩, ⟨15, "retry", none⟩] [] true))
      (fun b => b) = (.ok j, fun b => b) ∧
    invert .sample j = .ok (Span.apply (-1) "get" (-9223372036854775808) (some 0)
      [⟨20, "sr", some ⟨-1062731775, -1, "db"⟩⟩, ⟨10, "cs", some ⟨2130706433, 0, "web"⟩⟩, ⟨15, "retry", none⟩] [] true) :=
  invert_apply_span .sample _ rfl _

end JsonSpan

/-! ## Binary annotations -/

namespace JsonBinaryAnnotation

open AnnotationType

/-- A double that is neither infinite nor not a number. -/
def isFinite (bits : UInt64) : Bool := (bits >>> 52) &&& 0x7FF != 0x7FF

/-- What a number that JSON has no number for is written as. -/
def nonFiniteName (bits : UInt64) : String :=
  if bits = 0x7FF0000000000000 then "Infinity" else if bits = 0xFFF0000000000000 then "-Infinity" else "NaN"

/-- A long that an `Integer` holds. -/
def fitsInt (n : Int64) : Bool := decide (-2 ^ 31 ≤ n.toInt) && decide (n.toInt < 2 ^ 31)

/-- What is read, with no type asked for, where a value was written: an `Integer` if the number fits and a `Long`
otherwise, a `Double` for a decimal, a text for what was put in quotes.  Left open for other objects. -/
def untyped : AnyRef → Option AnyRef
  | .boolean b => some (.boolean b)
  | .short n => some (.integer n.toInt32)
  | .integer n => some (.integer n)
  | .long n => some (if fitsInt n then .integer n.toInt32 else .long n)
  | .double bits => some (if isFinite bits then .double bits else .string (nonFiniteName bits))
  | .string s => some (.string s)
  | .null => some .null
  | .number _ _ | .other _ _ => none

/-- The Jackson library, as far as its documentation goes for a binary annotation that was written and is read. -/
structure Jackson where
  Text : Type
  writeValueAsString : JsonBinaryAnnotation → Text
  readValue : Text → Except Throwable JsonBinaryAnnotation
  readValue_write : ∀ j v, untyped j.value = some v → readValue (writeValueAsString j) = .ok { j with value := v }

variable (libs : Libs) (jackson : Jackson)

/-- Written by the query server, read and inverted by the web server. -/
def throughText (b : BinaryAnnotation ByteBuffer) : Except Throwable (Zipkin.BinaryAnnotation ByteBuffer) := do
  let json ← (Effect.exec (apply libs b) b.value).1
  let read ← jackson.readValue (jackson.writeValueAsString json)
  invert libs read

/-- The annotation that comes back has the same key, type, payload and host. -/
def RoundTrips (b : BinaryAnnotation ByteBuffer) : Prop :=
  ∃ b', throughText libs jackson b = .ok b' ∧ b'.key = b.key ∧ b'.annotationType = b.annotationType ∧
    b'.value.bytes = b.value.bytes ∧ b'.host = b.host

variable {libs jackson} {b : BinaryAnnotation ByteBuffer}

theorem throughText_eq (h : WellFormed b b.value) {v : AnyRef} {t : AnnotationType}
    (hv : untyped (valueOf libs b.annotationType b.value.bytes) = some v)
    (ht : typeOf libs ⟨b.key, v, tagOf b.annotationType, b.host.map JsonService.apply⟩ = .ok t) :
    throughText libs jackson b = .ok ⟨b.key, payloadOf libs t v, t, b.host⟩ := by
  have hread := jackson.readValue_write
    ⟨b.key, valueOf libs b.annotationType b.value.bytes, tagOf b.annotationType, b.host.map JsonService.apply⟩ v hv
  rw [throughText, exec_apply_of_wellFormed libs h]
  change (jackson.readValue _ >>= invert libs) = _
  rw [hread]
  change invert libs _ = _
  rw [invert, ht]
  change ((b.host.map JsonService.apply).mapM (JsonService.invert libs) >>= _) = _
  rw [JsonService.mapM_invert_apply]
  rfl

theorem roundTrips_iff_of_typeOf (h : WellFormed b b.value) {v : AnyRef} {t : AnnotationType}
    (hv : untyped (valueOf libs b.annotationType b.value.bytes) = some v)
    (ht : typeOf libs ⟨b.key, v, tagOf b.annotationType, b.host.map JsonService.apply⟩ = .ok t) :
    RoundTrips libs jackson b ↔ t = b.annotationType ∧ (payloadOf libs t v).bytes = b.value.bytes := by
  rw [RoundTrips, throughText_eq h hv ht]
  constructor
  · rintro ⟨b', hb', -, htype, hbytes, -⟩
    rw [← Except.ok.inj hb'] at htype hbytes
    exact ⟨htype, hbytes⟩
  · rintro ⟨htype, hbytes⟩
    exact ⟨_, rfl, rfl, htype, hbytes, rfl⟩

theorem typeOf_tagged {tag name : String} {t : AnnotationType} (hname : libs.upperCamel tag = name)
    (ht : AnnotationType.fromName name = some t) (key : String) (v : AnyRef) (endpoint : Option JsonEndpoint) :
    typeOf libs ⟨key, v, some tag, endpoint⟩ = .ok t := by
  simp only [typeOf, Option.map_some, hname, ht]

/-- The text in the place of a payload is longer than any number. -/
theorem length_payloadOf_error (libs : Libs) (t : AnnotationType) (v : AnyRef) {e : Throwable}
    (h : writePayload libs t v = .error e) : 8 < (payloadOf libs t v).bytes.length := by
  have htext : 8 < (getBytesUtf8 "Error parsing json binary annotation: ").length := by decide
  rw [payloadOf, h, ByteBuffer.bytes_wrap, getBytesUtf8_append, List.length_append]
  omega

theorem not_roundTrips_of_error (h : WellFormed b b.value) {v : AnyRef} {t : AnnotationType} {e : Throwable}
    (hv : untyped (valueOf libs b.annotationType b.value.bytes) = some v)
    (ht : typeOf libs ⟨b.key, v, tagOf b.annotationType, b.host.map JsonService.apply⟩ = .ok t)
    (herror : writePayload libs t v = .error e) (hlength : b.value.bytes.length ≤ 8) : ¬ RoundTrips libs jackson b := by
  rw [roundTrips_iff_of_typeOf h hv ht]
  rintro ⟨-, hbytes⟩
  have hlong := length_payloadOf_error libs t v herror
  rw [hbytes] at hlong
  omega

theorem bytes_payloadOf_base64Encode (libs : Libs) (l : List UInt8) :
    (payloadOf libs bytes (.string (libs.base64Encode l))).bytes = l := by
  have hwrite : writePayload libs bytes (.string (libs.base64Encode l)) = .ok (.wrap l) := by
    change (libs.base64Decode (libs.base64Encode l) >>= fun decoded => pure (ByteBuffer.wrap decoded)) = _
    rw [libs.base64Decode_encode]
    rfl
  rw [payloadOf, hwrite]
  exact ByteBuffer.bytes_wrap _

/-- What is asked of shorts, longs and doubles is asked of no other type. -/
theorem otherType {t : AnnotationType} {p q : Prop} (hshort : t ≠ i16) (hlong : t ≠ i64) (hdouble : t ≠ double) :
    t ≠ i16 ∧ (t = i64 → p) ∧ (t = double → q) :=
  ⟨hshort, fun h => absurd h hlong, fun h => absurd h hdouble⟩

/-- **Which binary annotations come back**: all but shorts, longs that an `Integer` holds, and doubles that are no
numbers. -/
theorem roundTrips_iff (libs : Libs) (jackson : Jackson) (b : BinaryAnnotation ByteBuffer) (h : WellFormed b b.value) :
    RoundTrips libs jackson b ↔ b.annotationType ≠ i16 ∧
      (b.annotationType = i64 → fitsInt (ByteBuffer.toLong b.value.bytes) = false) ∧
      (b.annotationType = double → isFinite (ByteBuffer.toDouble b.value.bytes) = true) := by
  cases id h with
  | bool ht hb =>
    rw [roundTrips_iff_of_typeOf h (t := bool) (by rw [ht]; rfl) (by rw [ht]; rfl), ht]
    have hback : (payloadOf libs bool (.boolean (b.value.bytes != [0]))).bytes = b.value.bytes := by
      rcases hb with hb | hb <;> rw [hb] <;> rfl
    exact iff_of_true ⟨rfl, hback⟩ (otherType (by decide) (by decide) (by decide))
  | bytes ht =>
    have htype := typeOf_tagged libs.upperCamel_BYTES (t := bytes) (by decide)
    rw [roundTrips_iff_of_typeOf h (t := bytes) (by rw [ht]; rfl) (by rw [ht]; exact htype ..), ht]
    exact iff_of_true ⟨rfl, bytes_payloadOf_base64Encode libs _⟩ (otherType (by decide) (by decide) (by decide))
  | i16 ht hb =>
    have htype := typeOf_tagged libs.upperCamel_I16 (t := i16) (by decide)
    refine iff_of_false ?_ (fun hcond => hcond.1 ht)
    exact not_roundTrips_of_error h (t := i16) (by rw [ht]; rfl) (by rw [ht]; exact htype ..) rfl (by omega)
  | i32 ht hb =>
    rw [roundTrips_iff_of_typeOf h (t := i32) (by rw [ht]; rfl) (by rw [ht]; rfl), ht]
    have hback : (payloadOf libs i32 (.integer (ByteBuffer.toInt b.value.bytes))).bytes = b.value.bytes :=
      ByteBuffer.bytes_ofInt_toInt hb
    exact iff_of_true ⟨rfl, hback⟩ (otherType (by decide) (by decide) (by decide))
  | i64 ht hb =>
    have htype := typeOf_tagged libs.upperCamel_I64 (t := i64) (by decide)
    cases hfits : fitsInt (ByteBuffer.toLong b.value.bytes) with
    | true =>
      refine iff_of_false ?_ (fun hcond => absurd (hcond.2.1 ht) (by decide))
      exact not_roundTrips_of_error h (t := i64) (by rw [ht]; exact congrArg some (if_pos hfits))
        (by rw [ht]; exact htype ..) rfl (by omega)
    | false =>
      rw [roundTrips_iff_of_typeOf h (t := i64) (by rw [ht]; exact congrArg some (if_neg (by rw [hfits]; decide)))
        (by rw [ht]; exact htype ..), ht]
      have hback : (payloadOf libs i64 (.long (ByteBuffer.toLong b.value.bytes))).bytes = b.value.bytes :=
        ByteBuffer.bytes_ofLong_toLong hb
      exact iff_of_true ⟨rfl, hback⟩ ⟨by decide, fun _ => rfl, fun h => absurd h (by decide)⟩
  | double ht hb =>
    cases hfin : isFinite (ByteBuffer.toDouble b.value.bytes) with
    | true =>
      rw [roundTrips_iff_of_typeOf h (t := double) (by rw [ht]; exact congrArg some (if_pos hfin)) (by rw [ht]; rfl), ht]
      have hback : (payloadOf libs double (.double (ByteBuffer.toDouble b.value.bytes))).bytes = b.value.bytes :=
        ByteBuffer.bytes_ofDouble_toDouble hb
      exact iff_of_true ⟨rfl, hback⟩ ⟨by decide, fun h => absurd h (by decide), fun _ => rfl⟩
    | false =>
      rw [roundTrips_iff_of_typeOf h (t := string) (by rw [ht]; exact congrArg some (if_neg (by rw [hfin]; decide)))
        (by rw [ht]; rfl), ht]
      constructor
      · rintro ⟨htype, -⟩
        exact absurd htype (by decide)
      · rintro ⟨-, -, hdouble⟩
        exact absurd (hdouble rfl) (by decide)
  | string ht s hb =>
    rw [roundTrips_iff_of_typeOf h (t := string) (by rw [ht]; rfl) (by rw [ht]; rfl), ht]
    have hback : (payloadOf libs string (.string (libs.newString b.value.bytes))).bytes = b.value.bytes := by
      rw [hb, libs.newString_getBytes]
      exact ByteBuffer.bytes_wrap _
    exact iff_of_true ⟨rfl, hback⟩ (otherType (by decide) (by decide) (by decide))

/-- An instance: the text is what it says. -/
def Jackson.sample : Jackson where
  Text := JsonBinaryAnnotation
  writeValueAsString j := { j with value := (untyped j.value).getD j.value }
  readValue := .ok
  readValue_write j v h := by rw [h]; rfl

/-- A long that an `Integer` does not hold comes back. -/
theorem roundTrips_long : RoundTrips .sample .sample
    ⟨"bytes", ByteBuffer.ofLong 99999999999, i64, some ⟨3232235521, 9411, "zipkin-query"⟩⟩ :=
  (roundTrips_iff .sample .sample _ (.i64 rfl (by decide))).2 (by decide)

/-- A short does not come back. -/
theorem not_roundTrips_short : WellFormed ⟨"retries", ByteBuffer.ofShort 5, i16, none⟩ (ByteBuffer.ofShort 5) ∧
    ¬ RoundTrips .sample .sample ⟨"retries", ByteBuffer.ofShort 5, i16, none⟩ := by
  have hwell : WellFormed ⟨"retries", ByteBuffer.ofShort 5, i16, none⟩ (ByteBuffer.ofShort 5) := .i16 rfl (by decide)
  exact ⟨hwell, not_roundTrips_of_error hwell (v := .integer 5) (t := i16) rfl rfl rfl (by decide)⟩

end JsonBinaryAnnotation
end Zipkin
