import Zipkin.JsonPayload
import Zipkin.RedisIndex
/-!
# RedisIndexed — what indexing a span writes

`index` puts the service and span names into sets, and the trace id under each key of the span into a sorted set, with the
last timestamp for its score (`exec_index`).  It throws where a payload is too short for its type, and a number that is
read for one service is gone for the next: `binaryKeys` has the keys that are come to.
-/
namespace Zipkin
namespace RedisIndex

open Effect AssocMap

variable {libs : RedisLibs} {r : Redis}

/-! ## What a query finds -/

theorem of_mem_zRevRangeByScore {key : String} {max min limit : Int} {t : Int64 × Int}
    (h : t ∈ r.zRevRangeByScore key max min limit) : ((key, t.1), t.2) ∈ r.zsets ∧ min ≤ t.2 ∧ t.2 ≤ max := by
  obtain ⟨e, he, rfl⟩ := List.mem_map.1 h
  have hmem : e ∈ (r.zsets.filter (fun e => e.1.1 == key && decide (min ≤ e.2 ∧ e.2 ≤ max))).insertionSort Redis.rev := by
    split at he
    · exact he
    · exact List.mem_of_mem_take he
  obtain ⟨hmem, hkey⟩ := List.mem_filter.1 ((List.mem_insertionSort _).1 hmem)
  rw [Bool.and_eq_true, beq_iff_eq, decide_eq_true_eq] at hkey
  rw [← hkey.1]
  exact ⟨hmem, hkey.2⟩

theorem exists_mem_zRevRangeByScore {key : String} {max min limit score : Int} {member : Int64}
    (h : ((key, member), score) ∈ r.zsets) (hmin : min ≤ score) (hmax : score ≤ max) (hlimit : limit ≠ 0) :
    ∃ t, t ∈ r.zRevRangeByScore key max min limit := by
  have hmem : ((key, member), score) ∈
      (r.zsets.filter (fun e => e.1.1 == key && decide (min ≤ e.2 ∧ e.2 ≤ max))).insertionSort Redis.rev :=
    (List.mem_insertionSort _).2 (List.mem_filter.2 ⟨h, by simp [hmin, hmax]⟩)
  refine List.exists_mem_of_ne_nil _ (fun hnil => ?_)
  rw [Redis.zRevRangeByScore, List.map_eq_nil_iff] at hnil
  split at hnil
  · rw [hnil] at hmem
    exact List.not_mem_nil hmem
  · rcases List.take_eq_nil_iff.1 hnil with hzero | hnil
    · omega
    · rw [hnil] at hmem
      exact List.not_mem_nil hmem

theorem mem_zRevRangeByScore {key : String} {max min score : Int} {member : Int64}
    (h : ((key, member), score) ∈ r.zsets) (hmin : min ≤ score) (hmax : score ≤ max) :
    (member, score) ∈ r.zRevRangeByScore key max min (-1) := by
  rw [Redis.zRevRangeByScore, if_pos (by decide)]
  exact List.mem_map.2 ⟨((key, member), score),
    (List.mem_insertionSort _).2 (List.mem_filter.2 ⟨h, by simp [hmin, hmax]⟩), rfl⟩

/-! ## What a run puts -/

/-- A run goes through, and puts entries into sets and sorted sets. -/
def Puts (x : Effect Throwable Redis Unit) (sets : List ((String × String) × Unit))
    (zsets : List ((String × Int64) × Int)) : Prop :=
  ∀ r : Redis, exec x r = (.ok (), { r with sets := putAll sets r.sets, zsets := putAll zsets r.zsets })

section Puts
variable {x y : Effect Throwable Redis Unit} {sets sets' : List ((String × String) × Unit)}
  {zsets zsets' : List ((String × Int64) × Int)}

theorem puts_pure : Puts (pure ()) [] [] := fun _ => rfl

theorem Puts.bind (hx : Puts x sets zsets) (hy : Puts y sets' zsets') :
    Puts (x >>= fun _ => y) (sets ++ sets') (zsets ++ zsets') := by
  intro r
  rw [exec_bind_ok (hx r), hy, putAll_append, putAll_append]

theorem puts_each {α : Type} {f : α → Effect Throwable Redis Unit} {g : α → List ((String × String) × Unit)}
    {h : α → List ((String × Int64) × Int)} {l : List α} (hf : ∀ a ∈ l, Puts (f a) (g a) (h a)) :
    Puts (each l f) (l.flatMap g) (l.flatMap h) := by
  have hmapM : ∀ r : Redis, exec (l.mapM f) r = (.ok (l.map fun _ => ()), { r with
      sets := putAll (l.flatMap g) r.sets, zsets := putAll (l.flatMap h) r.zsets }) := by
    induction l with
    | nil => exact fun r => rfl
    | cons a l ih =>
      intro r
      rw [mapM_cons, exec_bind_ok (hf a List.mem_cons_self r), exec_map,
        ih (fun b hb => hf b (List.mem_cons_of_mem _ hb)), List.flatMap_cons, List.flatMap_cons, putAll_append,
        putAll_append]
      rfl
  intro r
  rw [each, exec_map, hmapM]
  rfl

theorem puts_put (kind key value : String) :
    Puts (SetMultimap.put kind key value) [((SetMultimap.encodeKey kind key, value), ())] [] := fun _ => rfl

theorem puts_each_put {α : Type} (kind : String) (key value : α → String) (l : List α) :
    Puts (each l fun a => SetMultimap.put kind (key a) (value a))
      (l.map fun a => ((SetMultimap.encodeKey kind (key a), value a), ())) [] := by
  have heach := puts_each (l := l) (fun a _ => puts_put kind (key a) (value a))
  rwa [List.flatMap_eq_nil_iff.2 (fun _ _ => rfl), ← List.map_eq_flatMap] at heach

theorem puts_add {κ : Type} (index : TraceIndex κ) (key : κ) (lastTimestamp : Int) (traceId : Int64) :
    Puts (index.add key lastTimestamp traceId) [] [((index.encodeKey key, traceId), toDouble lastTimestamp)] :=
  fun _ => rfl

theorem puts_each_add {α κ : Type} (index : TraceIndex κ) (key : α → κ) (l : List α) (lastTimestamp : Int)
    (traceId : Int64) : Puts (each l fun a => index.add (key a) lastTimestamp traceId) []
      ((l.map fun a => index.encodeKey (key a)).map fun text => ((text, traceId), toDouble lastTimestamp)) := by
  have heach := puts_each (l := l) (fun a _ => puts_add index (key a) lastTimestamp traceId)
  rw [List.flatMap_eq_nil_iff.2 (fun _ _ => rfl), ← List.map_eq_flatMap] at heach
  rw [List.map_map]
  exact heach

end Puts

/-! ## The keys of a span -/

section Keys
variable (libs)

/-- The keys of the binary annotations, for one service after the other, and whether all payloads could be read. -/
def binaryKeys : List String → List (Zipkin.BinaryAnnotation ByteBuffer) → List BinaryAnnotationKey × Except Throwable Unit
  | [], _ => ([], .ok ())
  | service :: services, bins => match encodeAll libs service bins with
    | .error e => ([], .error e)
    | .ok (keys, bins) => (keys ++ (binaryKeys services bins).1, (binaryKeys services bins).2)

def indexKeys (span : Span ByteBuffer) : List String :=
  (services libs span).map serviceIndex.encodeKey ++
    ((services libs span).map (fun s => spanIndex.encodeKey ⟨s, span.name⟩) ++
      ((services libs span).flatMap (fun s => (indexedValues span).map fun a => annotationIndex.encodeKey ⟨s, a⟩) ++
        (binaryKeys libs (services libs span) span.binaryAnnotations).1.map binaryAnnotationIndex.encodeKey))

def entries (span : Span ByteBuffer) : List ((String × Int64) × Int) :=
  match span.lastAnnotation with
  | none => []
  | some lastAnnotation =>
    (indexKeys libs span).map fun key => ((key, span.traceId), toDouble lastAnnotation.timestamp)

def names (span : Span ByteBuffer) : List ((String × String) × Unit) :=
  (services libs span).map (fun s => ((SetMultimap.encodeKey "singleton" "services", s), ())) ++
    if span.name ≠ "" then
      (services libs span).map fun s => ((SetMultimap.encodeKey "span" s, span.name), ())
    else []

def result (span : Span ByteBuffer) : Except Throwable Unit :=
  match span.lastAnnotation with
  | none => .ok ()
  | some _ => (binaryKeys libs (services libs span) span.binaryAnnotations).2

end Keys

theorem exec_indexBinaryAnnotations (lastTimestamp : Int) (traceId : Int64) :
    ∀ (services : List String) (bins : List (Zipkin.BinaryAnnotation ByteBuffer)) (r : Redis),
      exec (indexBinaryAnnotations libs lastTimestamp traceId services bins) r =
        ((binaryKeys libs services bins).2, { r with zsets := putAll (((binaryKeys libs services bins).1.map
          binaryAnnotationIndex.encodeKey).map fun text => ((text, traceId), toDouble lastTimestamp)) r.zsets })
  | [], _, _ => rfl
  | service :: services, bins, r => by
    rw [indexBinaryAnnotations, binaryKeys]
    cases encodeAll libs service bins with
    | error e => rfl
    | ok found =>
      obtain ⟨keys, bins⟩ := found
      have heach := puts_each_add binaryAnnotationIndex id keys lastTimestamp traceId r
      dsimp only [id] at heach ⊢
      rw [exec_bind_ok heach, exec_indexBinaryAnnotations lastTimestamp traceId services bins, List.map_append,
        List.map_append, putAll_append]
      rfl

theorem puts_putSpanName (span : Span ByteBuffer) : Puts (putSpanName libs span)
    (if span.name ≠ "" then
      (services libs span).map fun s => ((SetMultimap.encodeKey "span" s, span.name), ()) else []) [] := by
  unfold putSpanName
  split
  · exact puts_each_put "span" id (fun _ => span.name) (services libs span)
  · exact puts_pure

theorem exec_indexTraceId (span : Span ByteBuffer) (r : Redis) : exec (indexTraceId libs span) r =
    (result libs span, { r with zsets := putAll (entries libs span) r.zsets }) := by
  unfold indexTraceId entries result
  cases span.lastAnnotation with
  | none => rfl
  | some last =>
    have hannotations : Puts (each (services libs span) fun s => each (indexedValues span) fun a =>
        annotationIndex.add ⟨s, a⟩ last.timestamp span.traceId) []
        (((services libs span).flatMap fun s => (indexedValues span).map fun a => annotationIndex.encodeKey ⟨s, a⟩).map
          fun text => ((text, span.traceId), toDouble last.timestamp)) := by
      have heach := puts_each (l := services libs span) (fun s _ => puts_each_add annotationIndex (AnnotationKey.mk s)
        (indexedValues span) last.timestamp span.traceId)
      rw [List.flatMap_eq_nil_iff.2 (fun _ _ => rfl)] at heach
      rw [List.map_flatMap]
      exact heach
    dsimp only
    rw [exec_bind_ok (puts_each_add serviceIndex (fun s => s) _ _ _ _),
      exec_bind_ok (puts_each_add spanIndex (fun s => SpanKey.mk s span.name) _ _ _ _),
      exec_bind_ok (hannotations _), exec_indexBinaryAnnotations, indexKeys, List.map_append, List.map_append,
      List.map_append, putAll_append, putAll_append, putAll_append]
    rfl

/-- **A call puts the names of the span and its trace id under the keys of the span**, also if it throws. -/
theorem exec_index (span : Span ByteBuffer) (r : Redis) : exec (index libs span) r =
    (result libs span, { r with
      sets := putAll (names libs span) r.sets, zsets := putAll (entries libs span) r.zsets }) := by
  rw [index, exec_bind_ok (puts_each_put "singleton" (fun _ => "services") (fun s => s) _ _),
    exec_bind_ok (puts_putSpanName span _), exec_indexTraceId, names, putAll_append]
  rfl

/-! ## The text of a payload -/

def size (t : AnnotationType) : Nat :=
  if t = AnnotationType.bool then 1
  else if t = AnnotationType.double then 8
  else if t = AnnotationType.i16 then 2
  else if t = AnnotationType.i32 then 4
  else if t = AnnotationType.i64 then 8
  else 0

def text (libs : RedisLibs) (t : AnnotationType) (payload : List UInt8) : String :=
  if t = AnnotationType.bool then toString (payload != [0])
  else if t = AnnotationType.double then libs.doubleToString (ByteBuffer.toDouble payload)
  else if t = AnnotationType.i16 then toString (ByteBuffer.toShort payload).toInt
  else if t = AnnotationType.i32 then toString (ByteBuffer.toInt payload).toInt
  else if t = AnnotationType.i64 then toString (ByteBuffer.toLong payload).toInt
  else libs.newString payload

variable {bin : BinaryAnnotation ByteBuffer} {bins : List (Zipkin.BinaryAnnotation ByteBuffer)} {value : ByteBuffer}

theorem encode_of_size_eq_zero (h : size bin.annotationType = 0) :
    exec (encode libs bin) value = (.ok (text libs bin.annotationType value.bytes), value) := by
  unfold size at h
  unfold encode text
  split_ifs at h ⊢
  rfl

theorem encode_of_size_ne_zero (h : size bin.annotationType ≠ 0) :
    encode libs bin = text libs bin.annotationType <$> ByteBuffer.get (size bin.annotationType) := by
  unfold size at h
  unfold encode text size
  split_ifs at h ⊢
  · rfl
  · exact Functor.map_map _ _ _
  · exact Functor.map_map _ _ _
  · exact Functor.map_map _ _ _
  · exact Functor.map_map _ _ _
  · exact absurd rfl h

/-- What a read of the payload takes of it. -/
def payload (t : AnnotationType) (value : ByteBuffer) : List UInt8 :=
  if size t = 0 then value.bytes else value.bytes.take (size t)

/-- The buffer holds the number that `encode` reads. -/
def LongEnough (bin : BinaryAnnotation ByteBuffer) : Prop := size bin.annotationType ≤ bin.value.remaining

instance (bin : BinaryAnnotation ByteBuffer) : Decidable (LongEnough bin) := inferInstanceAs (Decidable (_ ≤ _))

/-- **A payload that is long enough has a text**, and is read to the end of its number. -/
theorem exec_encode (h : LongEnough bin) : exec (encode libs bin) bin.value =
    (.ok (text libs bin.annotationType (payload bin.annotationType bin.value)),
      bin.value.advance (size bin.annotationType)) := by
  by_cases hsize : size bin.annotationType = 0
  · rw [encode_of_size_eq_zero hsize, payload, if_pos hsize, hsize, ByteBuffer.advance_zero]
  · rw [encode_of_size_ne_zero hsize, ByteBuffer.exec_map_get _ h, payload, if_neg hsize]

theorem exec_encode_underflow (h : ¬ LongEnough bin) :
    exec (encode libs bin) bin.value = (.error ⟨"BufferUnderflowException", ""⟩, bin.value) := by
  have hlt : bin.value.remaining < size bin.annotationType := Nat.not_le.1 h
  rw [encode_of_size_ne_zero (by omega), exec_map, ByteBuffer.exec_get_underflow hlt]
  rfl

/-- The annotation with its payload as a read leaves it. -/
def readOn (bin : BinaryAnnotation ByteBuffer) : BinaryAnnotation ByteBuffer :=
  { bin with value := bin.value.advance (size bin.annotationType) }

def keyFor (libs : RedisLibs) (service : String) (bin : BinaryAnnotation ByteBuffer) : BinaryAnnotationKey :=
  ⟨service, bin.key, text libs bin.annotationType (payload bin.annotationType bin.value)⟩

/-- **The keys of a service**: all, if all payloads are long enough, and none if one is not. -/
theorem encodeAll_eq (service : String) : ∀ bins : List (Zipkin.BinaryAnnotation ByteBuffer), encodeAll libs service bins =
    if ∀ bin ∈ bins, LongEnough bin then
      .ok (bins.map (keyFor libs service), bins.map readOn)
    else .error ⟨"BufferUnderflowException", ""⟩
  | [] => rfl
  | bin :: bins => by
    rw [encodeAll]
    by_cases h : LongEnough bin
    · rw [exec_encode h, encodeAll_eq service bins]
      by_cases hall : ∀ bin ∈ bins, LongEnough bin
      · rw [if_pos hall, if_pos (List.forall_mem_cons.2 ⟨h, hall⟩)]
        rfl
      · rw [if_neg hall, if_neg (fun hcons => hall (List.forall_mem_cons.1 hcons).2)]
        rfl
    · rw [exec_encode_underflow h, if_neg (fun hcons => h (List.forall_mem_cons.1 hcons).1)]

theorem binaryKeys_cons (service : String) (services : List String) (bins : List (Zipkin.BinaryAnnotation ByteBuffer)) :
    binaryKeys libs (service :: services) bins =
      if ∀ bin ∈ bins, LongEnough bin then
        (bins.map (keyFor libs service) ++ (binaryKeys libs services (bins.map readOn)).1,
          (binaryKeys libs services (bins.map readOn)).2)
      else ([], .error ⟨"BufferUnderflowException", ""⟩) := by
  rw [binaryKeys, encodeAll_eq]
  split_ifs <;> rfl

end RedisIndex
end Zipkin
