import Zipkin.RedisRecorded
/-!
# RedisMatches — what a query of the indexes in Redis finds is what it asks for

The key of an index is its name and the parts, put together with colons, and a part can have colons of its own: parts
that differ can have one text, and "service:span:a:b" is a key of two indexes.  `noFalseRedisMatch_iff`: a query finds nothing
false exactly when each trace with its text, last recorded at a time that a query can ask for, has a span that matches.
-/
namespace Zipkin
namespace RedisIndex

open Effect AssocMap

variable {libs : RedisLibs} {ttl : Option Int64} {span : Span ByteBuffer} {spans : List (Span ByteBuffer)}

inductive Query where
  | name (service spanName : String)
  | annotation (service annotation : String)
  | binaryAnnotation (service key : String) (value : List UInt8)
deriving DecidableEq, Repr

namespace Query

def find (libs : RedisLibs) (ttl : Option Int64) (r : Redis) (endTs : Int64) (limit : Int) :
    Query → List IndexedTraceId
  | Query.name s n => getTraceIdsByName ttl r s (some n) endTs limit
  | Query.annotation s a => getTraceIdsByAnnotation libs ttl r s a none endTs limit
  | Query.binaryAnnotation s k v => getTraceIdsByAnnotation libs ttl r s k (some v) endTs limit

/-- The value of a binary annotation is its bytes, or the text of its number. -/
def HasValue (libs : RedisLibs) (bin : BinaryAnnotation ByteBuffer) (value : List UInt8) : Prop :=
  if size bin.annotationType = 0 then bin.value.bytes = value
  else LongEnough bin ∧ getBytesUtf8 (text libs bin.annotationType (payload bin.annotationType bin.value)) = value

/-- The span has the service among its service names, and what the query asks for. -/
def Matches (libs : RedisLibs) (y : Span ByteBuffer) : Query → Prop
  | Query.name s n => s ∈ y.serviceNames libs.locale.toLowerCase ∧ y.name = n
  | Query.annotation s a => s ∈ y.serviceNames libs.locale.toLowerCase ∧ ∃ b ∈ y.annotations, b.value = a
  | Query.binaryAnnotation s k v =>
    s ∈ y.serviceNames libs.locale.toLowerCase ∧ ∃ bin ∈ y.binaryAnnotations, bin.key = k ∧ HasValue libs bin v

/-- The parts of a span make up the text of the query.  The service that comes `i` services after the first has its
numbers from payloads that are read `i` times before. -/
def SharesText (libs : RedisLibs) (span : Span ByteBuffer) : Query → Prop
  | Query.name s n =>
    (∃ t, HasService libs span t ∧ t ++ ":" ++ span.name = s ++ ":" ++ n) ∨ HasService libs span ("span:" ++ s ++ ":" ++ n)
  | Query.annotation s a => ∃ t, HasService libs span t ∧ ∃ b ∈ span.annotations,
      Constants.CoreAnnotations.contains b.value = false ∧ t ++ ":" ++ b.value = s ++ ":" ++ a
  | Query.binaryAnnotation s k v => ∃ i t, (services libs span)[i]? = some t ∧
      (∀ bin ∈ span.binaryAnnotations, LongEnough (readOn^[i] bin)) ∧
      ∃ bin ∈ span.binaryAnnotations,
        t ++ ":" ++ bin.key ++ ":" ++ (keyFor libs t (readOn^[i] bin)).value = s ++ ":" ++ k ++ ":" ++ libs.newString v

def key (libs : RedisLibs) : Query → String
  | Query.name s n => spanIndex.encodeKey ⟨s, n⟩
  | Query.annotation s a => annotationIndex.encodeKey ⟨s, a⟩
  | Query.binaryAnnotation s k v => binaryAnnotationIndex.encodeKey ⟨s, k, libs.newString v⟩

theorem find_eq (r : Redis) (endTs : Int64) (limit : Int) (q : Query) : q.find libs ttl r endTs limit =
    (r.zRevRangeByScore (q.key libs) (toDouble endTs.toInt) (toDouble (TraceIndex.startTs ttl endTs).toInt) limit).map
      fun t => ⟨t.1, toLong t.2⟩ := by
  cases q <;> rfl

end Query

/-! ## The calls of a store -/

def indexAll (libs : RedisLibs) (spans : List (Span ByteBuffer)) : Redis :=
  spans.foldl (fun r span => (exec (index libs span) r).2) {}

theorem zsets_indexAll (libs : RedisLibs) (spans : List (Span ByteBuffer)) :
    (indexAll libs spans).zsets = putAll (spans.flatMap (entries libs)) [] := by
  induction spans using List.reverseRecOn with
  | nil => rfl
  | append_singleton spans span ih =>
    rw [indexAll, List.foldl_append, List.foldl_cons, List.foldl_nil, exec_index, List.flatMap_append,
      List.flatMap_singleton, putAll_append, ← ih]
    rfl

/-! ## The keys -/

section Keys

theorem spanKey_eq_serviceKey (key : SpanKey) :
    spanIndex.encodeKey key = serviceIndex.encodeKey ("span:" ++ key.service ++ ":" ++ key.span) := by
  have hname : "service:span:" = "service:" ++ "span:" := by decide
  dsimp only [spanIndex, serviceIndex]
  rw [hname]
  simp only [String.append_assoc]

theorem serviceKey_inj {s t : String} : serviceIndex.encodeKey s = serviceIndex.encodeKey t ↔ s = t :=
  String.append_right_inj _

theorem spanKey_inj {key key' : SpanKey} : spanIndex.encodeKey key = spanIndex.encodeKey key' ↔
    key.service ++ ":" ++ key.span = key'.service ++ ":" ++ key'.span := by
  dsimp only [spanIndex]
  rw [String.append_assoc, String.append_assoc, String.append_assoc, String.append_assoc, String.append_right_inj,
    String.append_assoc, String.append_assoc]

theorem annotationKey_inj {key key' : AnnotationKey} : annotationIndex.encodeKey key = annotationIndex.encodeKey key' ↔
    key.service ++ ":" ++ key.annotation = key'.service ++ ":" ++ key'.annotation := by
  dsimp only [annotationIndex]
  rw [String.append_assoc, String.append_assoc, String.append_assoc, String.append_assoc, String.append_right_inj,
    String.append_assoc, String.append_assoc]

theorem binaryAnnotationKey_inj {key key' : BinaryAnnotationKey} :
    binaryAnnotationIndex.encodeKey key = binaryAnnotationIndex.encodeKey key' ↔
      key.service ++ ":" ++ key.annotation ++ ":" ++ key.value =
        key'.service ++ ":" ++ key'.annotation ++ ":" ++ key'.value := by
  have hassoc (a b c d e f : String) : a ++ b ++ c ++ d ++ e ++ f = a ++ (b ++ c ++ d ++ e ++ f) := by
    simp only [String.append_assoc]
  dsimp only [binaryAnnotationIndex]
  rw [hassoc, hassoc, String.append_right_inj]

theorem serviceKey_ne_annotationKey (s : String) (key : AnnotationKey) :
    serviceIndex.encodeKey s ≠ annotationIndex.encodeKey key := by
  dsimp only [serviceIndex, annotationIndex]
  intro h
  simpa [String.toList_append] using congrArg String.toList h

theorem serviceKey_ne_binaryAnnotationKey (s : String) (key : BinaryAnnotationKey) :
    serviceIndex.encodeKey s ≠ binaryAnnotationIndex.encodeKey key := by
  dsimp only [serviceIndex, binaryAnnotationIndex]
  intro h
  simpa [String.toList_append] using congrArg String.toList h

theorem annotationKey_ne_binaryAnnotationKey (key : AnnotationKey) (key' : BinaryAnnotationKey) :
    annotationIndex.encodeKey key ≠ binaryAnnotationIndex.encodeKey key' := by
  dsimp only [annotationIndex, binaryAnnotationIndex]
  intro h
  simpa [String.toList_append] using congrArg String.toList h

end Keys

/-! ## The keys of a span -/

theorem longEnough_of_iterate {bin : BinaryAnnotation ByteBuffer} : ∀ {i : Nat}, LongEnough (readOn^[i] bin) → LongEnough bin
  | 0, h => h
  | i + 1, h => by
    have hread : LongEnough (readOn bin) := longEnough_of_iterate h
    unfold LongEnough readOn at hread
    dsimp only at hread
    rw [ByteBuffer.remaining_advance] at hread
    exact hread.trans (Nat.sub_le _ _)

theorem key_iterate_readOn (bin : BinaryAnnotation ByteBuffer) : ∀ i : Nat, (readOn^[i] bin).key = bin.key
  | 0 => rfl
  | i + 1 => key_iterate_readOn (readOn bin) i

/-- **The keys of the binary annotations**: of each service that is come to, with the payloads as they are left for it. -/
theorem mem_binaryKeys {key : BinaryAnnotationKey} : ∀ {services : List String}
    {bins : List (Zipkin.BinaryAnnotation ByteBuffer)},
    key ∈ (binaryKeys libs services bins).1 ↔ ∃ i s, services[i]? = some s ∧
      (∀ bin ∈ bins, LongEnough (readOn^[i] bin)) ∧ ∃ bin ∈ bins, key = keyFor libs s (readOn^[i] bin)
  | [], bins => by simp [binaryKeys]
  | s :: services, bins => by
    rw [binaryKeys_cons]
    split
    · rename_i hlong
      rw [List.mem_append, mem_binaryKeys]
      constructor
      · rintro (h | ⟨i, t, ht, hall, bin, hbin, rfl⟩)
        · obtain ⟨bin, hbin, rfl⟩ := List.mem_map.1 h
          exact ⟨0, s, rfl, hlong, bin, hbin, rfl⟩
        · obtain ⟨bin, hmem, rfl⟩ := List.mem_map.1 hbin
          exact ⟨i + 1, t, ht, fun bin hbin => hall _ (List.mem_map_of_mem hbin), bin, hmem, rfl⟩
      · rintro ⟨i, t, ht, hall, bin, hbin, rfl⟩
        cases i with
        | zero =>
          obtain rfl : s = t := Option.some.inj ht
          exact Or.inl (List.mem_map_of_mem hbin)
        | succ i =>
          exact Or.inr ⟨i, t, ht, List.forall_mem_map.2 hall, readOn bin, List.mem_map_of_mem hbin, rfl⟩
    · rename_i hlong
      refine iff_of_false List.not_mem_nil ?_
      rintro ⟨i, -, -, hall, -⟩
      exact hlong (fun bin hbin => longEnough_of_iterate (hall bin hbin))

theorem mem_indexKeys {key : String} : key ∈ indexKeys libs span ↔
    (∃ s, HasService libs span s ∧ serviceIndex.encodeKey s = key) ∨
      (∃ s, HasService libs span s ∧ spanIndex.encodeKey ⟨s, span.name⟩ = key) ∨
        (∃ s, HasService libs span s ∧ ∃ a ∈ span.annotations, Constants.CoreAnnotations.contains a.value = false ∧
          annotationIndex.encodeKey ⟨s, a.value⟩ = key) ∨
          ∃ k ∈ (binaryKeys libs (services libs span) span.binaryAnnotations).1, binaryAnnotationIndex.encodeKey k = key := by
  simp only [indexKeys, indexedValues, List.mem_append, List.mem_map, List.mem_flatMap, List.mem_filter, mem_services]
  simp [and_assoc]

/-- **A span is under the key of a query** if its parts make up the text of the query. -/
theorem key_mem_indexKeys {q : Query} : q.key libs ∈ indexKeys libs span ↔ q.SharesText libs span := by
  rw [mem_indexKeys]
  cases q with
  | name service spanName =>
    simp only [Query.key, Query.SharesText, spanKey_inj]
    simp only [spanKey_eq_serviceKey, serviceKey_inj, (serviceKey_ne_annotationKey _ _).symm,
      (serviceKey_ne_binaryAnnotationKey _ _).symm]
    simp [or_comm]
  | annotation service annotation =>
    simp only [Query.key, Query.SharesText, annotationKey_inj, spanKey_eq_serviceKey, serviceKey_ne_annotationKey,
      (annotationKey_ne_binaryAnnotationKey _ _).symm]
    simp
  | binaryAnnotation service key value =>
    simp only [Query.key, Query.SharesText, binaryAnnotationKey_inj, spanKey_eq_serviceKey,
      serviceKey_ne_binaryAnnotationKey, annotationKey_ne_binaryAnnotationKey, mem_binaryKeys]
    simp only [and_false, exists_false, false_or]
    constructor
    · rintro ⟨_, ⟨i, t, ht, hlong, bin, hbin, rfl⟩, heq⟩
      rw [keyFor, key_iterate_readOn] at heq
      exact ⟨i, t, ht, hlong, bin, hbin, heq⟩
    · rintro ⟨i, t, ht, hlong, bin, hbin, heq⟩
      refine ⟨_, ⟨i, t, ht, hlong, bin, hbin, rfl⟩, ?_⟩
      rw [keyFor, key_iterate_readOn]
      exact heq

/-! ## No false match -/

/-- Some query asks for a window that has the last timestamp of the span in it. -/
def InSomeWindow (ttl : Option Int64) (span : Span ByteBuffer) : Prop :=
  ∃ last ∈ span.lastTimestamp, ∃ endTs : Int64,
    toDouble (TraceIndex.startTs ttl endTs).toInt ≤ toDouble last ∧ toDouble last ≤ toDouble endTs.toInt

/-- Each trace id that the query finds is of a stored span that matches it. -/
def NoFalseMatch (libs : RedisLibs) (ttl : Option Int64) (spans : List (Span ByteBuffer)) (q : Query) : Prop :=
  ∀ (endTs : Int64) (limit : Int), ∀ id ∈ q.find libs ttl (indexAll libs spans) endTs limit,
    ∃ y ∈ spans, y.traceId = id.traceId ∧ q.Matches libs y

/-- A span with the trace id and the text of the query, and with an annotation. -/
def IsUnder (libs : RedisLibs) (q : Query) (traceId : Int64) (x : Span ByteBuffer) : Prop :=
  x.annotations ≠ [] ∧ x.traceId = traceId ∧ q.SharesText libs x

theorem mem_keys_entries {q : Query} {traceId : Int64} {x : Span ByteBuffer} :
    (q.key libs, traceId) ∈ (entries libs x).map Prod.fst ↔ IsUnder libs q traceId x := by
  unfold entries IsUnder
  cases hlast : x.lastAnnotation with
  | none => simp [List.getLast?_eq_none_iff.1 hlast]
  | some last =>
    have hne : x.annotations ≠ [] := List.ne_nil_of_mem (List.mem_of_getLast? hlast)
    simp only [List.map_map, List.mem_map, ← key_mem_indexKeys (q := q)]
    constructor
    · rintro ⟨key, hkey, heq⟩
      obtain ⟨rfl, rfl⟩ := Prod.mk.inj heq
      exact ⟨hne, rfl, hkey⟩
    · rintro ⟨-, rfl, hkey⟩
      exact ⟨_, hkey, rfl⟩

/-- **Under the key of a query is each trace with its text**, at the last timestamp of the span that was last stored. -/
theorem mem_zsets {q : Query} {traceId : Int64} {score : Int} :
    ((q.key libs, traceId), score) ∈ (indexAll libs spans).zsets ↔
      ∃ x, LastWith (IsUnder libs q traceId) spans x ∧ ∃ last ∈ x.lastTimestamp, score = toDouble last := by
  simp only [zsets_indexAll, mem_putAll_flatMap, mem_keys_entries]
  refine exists_congr (fun x => and_congr_right (fun hx => ?_))
  obtain ⟨hne, rfl, hshares⟩ := hx.prop
  obtain ⟨last, hlast⟩ : ∃ last, x.lastAnnotation = some last :=
    Option.isSome_iff_exists.1 (List.getLast?_isSome.2 hne)
  have hts : x.lastTimestamp = some last.timestamp := congrArg (Option.map Annotation.timestamp) hlast
  rw [mem_putAll_of_const (fun e he => (of_mem_entries hlast he).2), hts]
  constructor
  · intro hmem
    exact ⟨_, rfl, (of_mem_entries hlast hmem).2⟩
  · rintro ⟨_, ⟨⟩, rfl⟩
    rw [entries, hlast]
    exact List.mem_map_of_mem (key_mem_indexKeys.2 hshares)

/-- **When a query finds nothing false**: each trace with the text of the query, whose span that was last stored with it is
in a window, has a span that matches the query. -/
theorem noFalseRedisMatch_iff (q : Query) : NoFalseMatch libs ttl spans q ↔
    ∀ x, LastWith (IsUnder libs q x.traceId) spans x → InSomeWindow ttl x →
      ∃ y ∈ spans, y.traceId = x.traceId ∧ q.Matches libs y := by
  constructor
  · rintro hsound x hx ⟨last, hlast, endTs, hmin, hmax⟩
    have hmem := mem_zRevRangeByScore (mem_zsets.2 ⟨x, hx, last, hlast, rfl⟩) hmin hmax
    refine hsound endTs (-1) ⟨x.traceId, toLong (toDouble last)⟩ ?_
    rw [Query.find_eq]
    exact List.mem_map_of_mem hmem
  · intro hmatched endTs limit id hid
    rw [Query.find_eq] at hid
    obtain ⟨t, ht, rfl⟩ := List.mem_map.1 hid
    obtain ⟨hmem, hmin, hmax⟩ := of_mem_zRevRangeByScore ht
    obtain ⟨x, hx, last, hlast, hscore⟩ := mem_zsets.1 hmem
    rw [hscore] at hmin hmax
    have htrace := hx.prop.2.1
    rw [← htrace] at hx
    obtain ⟨y, hy, heq, hmatches⟩ := hmatched x hx ⟨last, hlast, endTs, hmin, hmax⟩
    exact ⟨y, hy, heq.trans htrace, hmatches⟩

/-- A span named "c" of the service "a:b". -/
def colons : Span ByteBuffer := .apply 1 "c" 1 none [⟨1, "sr", some ⟨0, 80, "a:b"⟩⟩] []

/-- It is found as a span named "b:c" of the service "a". -/
theorem not_noFalseMatch_colons : ¬ NoFalseMatch sampleLibs none [colons] (.name "a" "b:c") := by
  intro h
  have hfound : Query.find sampleLibs none (indexAll sampleLibs [colons]) 1 10 (.name "a" "b:c") = [⟨1, 1⟩] := by
    decide +kernel
  obtain ⟨y, hy, -, -, hname⟩ := h 1 10 ⟨1, 1⟩ (by rw [hfound]; exact List.mem_singleton.2 rfl)
  rw [List.mem_singleton.1 hy] at hname
  revert hname
  decide

end RedisIndex
end Zipkin
