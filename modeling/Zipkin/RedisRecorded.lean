import Zipkin.RedisIndexed
/-!
# RedisRecorded — finding a span by its binary annotations

A payload that is well formed for its type has one number, or is text.  The number is read for the first service of the
span; for a second one nothing is left, and the call throws.  `records_iff` says which spans are recorded under each
service and each binary annotation, and are found by all of them.
-/
namespace Zipkin
namespace RedisIndex

open Effect AssocMap
open JsonBinaryAnnotation (WellFormed)

variable {libs : RedisLibs} {bin : BinaryAnnotation ByteBuffer} {bins : List (Zipkin.BinaryAnnotation ByteBuffer)}
  {span : Span ByteBuffer}

/-! ## Well-formed payloads -/

/-- **A well-formed payload** is text, or one number. -/
theorem size_of_wellFormed (h : WellFormed bin bin.value) :
    size bin.annotationType = 0 ∨ 0 < size bin.annotationType ∧ bin.value.bytes.length = size bin.annotationType := by
  cases h with
  | bool ht h =>
    have hlen : bin.value.bytes.length = 1 := by rcases h with h | h <;> rw [h] <;> rfl
    rw [ht, hlen]
    decide
  | bytes ht => rw [ht]; exact Or.inl (by decide)
  | i16 ht h => rw [ht, h]; decide
  | i32 ht h => rw [ht, h]; decide
  | i64 ht h => rw [ht, h]; decide
  | double ht h => rw [ht, h]; decide
  | string ht s h => rw [ht]; exact Or.inl (by decide)

theorem longEnough_of_wellFormed (h : WellFormed bin bin.value) : LongEnough bin := by
  unfold LongEnough
  rw [← ByteBuffer.length_bytes]
  rcases size_of_wellFormed h with hsize | ⟨-, hsize⟩
  · rw [hsize]
    exact Nat.zero_le _
  · exact Nat.le_of_eq hsize.symm

theorem payload_of_wellFormed (h : WellFormed bin bin.value) :
    payload bin.annotationType bin.value = bin.value.bytes := by
  unfold payload
  rcases size_of_wellFormed h with hsize | ⟨-, hsize⟩
  · rw [if_pos hsize]
  · rw [← hsize, List.take_length, ite_self]

theorem not_longEnough_readOn (h : WellFormed bin bin.value) (hsize : size bin.annotationType ≠ 0) :
    ¬ LongEnough (readOn bin) := by
  have hlen := ((size_of_wellFormed h).resolve_left hsize).2
  rw [ByteBuffer.length_bytes] at hlen
  unfold LongEnough readOn
  dsimp only
  rw [ByteBuffer.remaining_advance]
  omega

theorem binaryKeys_of_text (h : ∀ bin ∈ bins, size bin.annotationType = 0) : ∀ services : List String,
    binaryKeys libs services bins = (services.flatMap (fun s => bins.map (keyFor libs s)), .ok ())
  | [] => rfl
  | s :: services => by
    have hlong : ∀ bin ∈ bins, LongEnough bin := fun bin hbin => by
      rw [LongEnough, h bin hbin]
      exact Nat.zero_le _
    have hread : bins.map readOn = bins := by
      refine (List.map_congr_left (fun bin hbin => ?_)).trans (List.map_id bins)
      rw [readOn, h bin hbin, ByteBuffer.advance_zero]
      rfl
    rw [binaryKeys_cons, if_pos hlong, hread, binaryKeys_of_text h services, List.flatMap_cons]

/-- **Which payloads can be read for all services**: those of one service, and text. -/
theorem binaryKeys_ok_iff (h : ∀ bin ∈ bins, WellFormed bin bin.value) (services : List String) :
    (binaryKeys libs services bins).2 = .ok () ↔ services.length ≤ 1 ∨ ∀ bin ∈ bins, size bin.annotationType = 0 := by
  have hlong : ∀ bin ∈ bins, LongEnough bin := fun bin hbin => longEnough_of_wellFormed (h bin hbin)
  match services with
  | [] => exact iff_of_true rfl (Or.inl (Nat.zero_le 1))
  | [s] =>
    refine iff_of_true ?_ (Or.inl (Nat.le_refl 1))
    rw [binaryKeys_cons, if_pos hlong]
    rfl
  | s :: s' :: services =>
    rw [or_iff_right (by simp)]
    constructor
    · intro hok bin hbin
      by_contra hsize
      have hshort : ¬ ∀ bin ∈ bins.map readOn, LongEnough bin := fun hall =>
        not_longEnough_readOn (h bin hbin) hsize (hall _ (List.mem_map_of_mem hbin))
      rw [binaryKeys_cons, if_pos hlong, binaryKeys_cons, if_neg hshort] at hok
      cases hok
    · intro htext
      rw [binaryKeys_of_text htext]

theorem keyFor_mem_binaryKeys (h : ∀ bin ∈ bins, WellFormed bin bin.value) {services : List String}
    (hok : (binaryKeys libs services bins).2 = .ok ()) {s : String} (hs : s ∈ services) (hbin : bin ∈ bins) :
    keyFor libs s bin ∈ (binaryKeys libs services bins).1 := by
  have hlong : ∀ bin ∈ bins, LongEnough bin := fun bin hbin => longEnough_of_wellFormed (h bin hbin)
  rcases (binaryKeys_ok_iff h services).1 hok with hone | htext
  · match services, hs with
    | [s], hs =>
      rw [List.mem_singleton] at hs
      rw [binaryKeys_cons, if_pos hlong, hs]
      exact List.mem_append_left _ (List.mem_map_of_mem hbin)
    | _ :: _ :: _, _ => simp at hone
  · rw [binaryKeys_of_text htext]
    exact List.mem_flatMap.2 ⟨s, hs, List.mem_map_of_mem hbin⟩

/-! ## What is found -/

/-- A service name of the span that is not empty. -/
def HasService (libs : RedisLibs) (span : Span ByteBuffer) (s : String) : Prop :=
  s ∈ span.serviceNames libs.locale.toLowerCase ∧ s ≠ ""

theorem mem_services {s : String} : s ∈ services libs span ↔ HasService libs span s := by
  rw [services, (libs.iterate_perm _).mem_iff, List.mem_filter, List.mem_dedup, decide_eq_true_eq]
  rfl

theorem nodup_services (libs : RedisLibs) (span : Span ByteBuffer) : (services libs span).Nodup := by
  rw [services, (libs.iterate_perm _).nodup_iff]
  exact (List.nodup_dedup _).filter _

/-- The text that a query for the annotation asks for. -/
def textOf (libs : RedisLibs) (bin : BinaryAnnotation ByteBuffer) : String :=
  text libs bin.annotationType bin.value.bytes

/-- The call goes through and puts the trace id under each service, key and text; and when nothing else is in Redis, each
query by them that does not end before the span finds it. -/
def RecordsBinaryAnnotations (libs : RedisLibs) (ttl : Option Int64) (span : Span ByteBuffer) : Prop :=
  (∀ r, ∃ r', exec (index libs span) r = (.ok (), r') ∧
    ∀ s, HasService libs span s → ∀ bin ∈ span.binaryAnnotations,
      (binaryAnnotationIndex.encodeKey ⟨s, bin.key, textOf libs bin⟩, span.traceId) ∈ r'.zsets.map Prod.fst) ∧
  ∀ r', exec (index libs span) {} = (.ok (), r') → ∀ s, HasService libs span s → ∀ bin ∈ span.binaryAnnotations,
    ∀ (endTs : Int64) (limit : Int), (∀ ts ∈ span.lastTimestamp, ts ≤ endTs.toInt) → 1 ≤ limit →
      span.traceId ∈ (RedisIndex.getTraceIdsByAnnotation libs ttl r' s bin.key (some (getBytesUtf8 (textOf libs bin)))
        endTs limit).map IndexedTraceId.traceId

/-- The window of a query that does not end before the timestamp has the timestamp in it. -/
def InEachWindow (ttl : Option Int64) (timestamp : Int) : Prop :=
  ∀ endTs : Int64, timestamp ≤ endTs.toInt → toDouble (TraceIndex.startTs ttl endTs).toInt ≤ toDouble timestamp

section Found
variable {ttl : Option Int64} {last : Annotation} {r : Redis} {s : String}

theorem length_services_le_one_iff : (services libs span).length ≤ 1 ↔
    ∀ s s', HasService libs span s → HasService libs span s' → s = s' := by
  simp only [← mem_services]
  match services libs span, nodup_services libs span with
  | [], _ => exact iff_of_true (Nat.zero_le 1) (fun s s' hs => (List.not_mem_nil hs).elim)
  | [a], _ =>
    refine iff_of_true (Nat.le_refl 1) (fun s s' hs hs' => ?_)
    rw [List.mem_singleton.1 hs, List.mem_singleton.1 hs']
  | a :: b :: l, hnodup =>
    refine iff_of_false (by simp) (fun h => (List.nodup_cons.1 hnodup).1 ?_)
    rw [h a b List.mem_cons_self (List.mem_cons_of_mem _ List.mem_cons_self)]
    exact List.mem_cons_self

theorem of_mem_entries (hlast : span.lastAnnotation = some last) {e : (String × Int64) × Int}
    (he : e ∈ entries libs span) : e.1.2 = span.traceId ∧ e.2 = toDouble last.timestamp := by
  rw [entries, hlast] at he
  obtain ⟨key, -, rfl⟩ := List.mem_map.1 he
  exact ⟨rfl, rfl⟩

/-- The key of an annotation is put where the payloads of all services can be read. -/
theorem key_mem_entries (hlast : span.lastAnnotation = some last)
    (hwf : ∀ bin ∈ span.binaryAnnotations, WellFormed bin bin.value)
    (hok : (binaryKeys libs (services libs span) span.binaryAnnotations).2 = .ok ()) (hs : HasService libs span s)
    (hbin : bin ∈ span.binaryAnnotations) :
    ((binaryAnnotationIndex.encodeKey ⟨s, bin.key, textOf libs bin⟩, span.traceId), toDouble last.timestamp) ∈
      entries libs span := by
  have hkey := keyFor_mem_binaryKeys hwf hok (mem_services.2 hs) hbin
  rw [keyFor, payload_of_wellFormed (hwf bin hbin)] at hkey
  rw [entries, hlast]
  refine List.mem_map.2 ⟨_, ?_, rfl⟩
  exact List.mem_append_right _ (List.mem_append_right _ (List.mem_append_right _ (List.mem_map_of_mem hkey)))

end Found

/-- **Which spans are recorded under their binary annotations**: those with one service, or with text alone, where the
window of a query goes back to the span. -/
theorem records_iff {ttl : Option Int64} (hann : span.annotations ≠ [])
    (hwf : ∀ bin ∈ span.binaryAnnotations, WellFormed bin bin.value) :
    RecordsBinaryAnnotations libs ttl span ↔
      ((∀ s s', HasService libs span s → HasService libs span s' → s = s') ∨
        ∀ bin ∈ span.binaryAnnotations, size bin.annotationType = 0) ∧
      ((∃ s, HasService libs span s) → span.binaryAnnotations ≠ [] → ∀ ts ∈ span.lastTimestamp, InEachWindow ttl ts) := by
  obtain ⟨last, hlast⟩ : ∃ last, span.lastAnnotation = some last :=
    Option.isSome_iff_exists.1 (List.getLast?_isSome.2 hann)
  have hts : span.lastTimestamp = some last.timestamp := congrArg (Option.map Annotation.timestamp) hlast
  have hresult : result libs span = (binaryKeys libs (services libs span) span.binaryAnnotations).2 := by
    rw [result, hlast]
  have hzsets : ∀ {e : (String × Int64) × Int}, e ∈ putAll (entries libs span) [] →
      e.1.2 = span.traceId ∧ e.2 = toDouble last.timestamp := fun he => of_mem_entries hlast (mem_of_mem_putAll he)
  have hempty : ∀ {r'}, exec (index libs span) {} = (.ok (), r') → r'.zsets = putAll (entries libs span) [] :=
    fun hexec => by
      rw [exec_index] at hexec
      rw [← (Prod.mk.inj hexec).2]
  rw [RecordsBinaryAnnotations, ← length_services_le_one_iff, ← binaryKeys_ok_iff hwf, hts]
  simp only [Option.mem_some_iff, forall_eq']
  constructor
  · rintro ⟨hgoes, hfound⟩
    obtain ⟨r', hexec, -⟩ := hgoes {}
    have hok : (binaryKeys libs (services libs span) span.binaryAnnotations).2 = .ok () := by
      have hfst := congrArg Prod.fst hexec
      rw [exec_index] at hfst
      exact hresult.symm.trans hfst
    refine ⟨hok, fun ⟨s, hs⟩ hne endTs hend => ?_⟩
    obtain ⟨bin, hbin⟩ := List.exists_mem_of_ne_nil _ hne
    obtain ⟨id, hid, -⟩ := List.mem_map.1 (hfound r' hexec s hs bin hbin endTs 1 hend (Int.le_refl 1))
    obtain ⟨t, ht, -⟩ := List.mem_map.1 hid
    obtain ⟨hmem, hmin, -⟩ := of_mem_zRevRangeByScore ht
    rw [hempty hexec] at hmem
    rwa [(hzsets hmem).2] at hmin
  · rintro ⟨hok, hwindow⟩
    refine ⟨fun r => ⟨_, by rw [exec_index, hresult, hok], fun s hs bin hbin => ?_⟩,
      fun r' hexec s hs bin hbin endTs limit hend hlimit => ?_⟩
    · exact mem_keys_putAll.2 (Or.inl (List.mem_map_of_mem (key_mem_entries hlast hwf hok hs hbin)))
    · have hmem := (mem_putAll_of_const (fun e he => (of_mem_entries hlast he).2)).2
        (key_mem_entries hlast hwf hok hs hbin)
      rw [← hempty hexec] at hmem
      have hmin := hwindow ⟨s, hs⟩ (List.ne_nil_of_mem hbin) endTs hend
      have hlimit0 : limit ≠ 0 := by omega
      obtain ⟨t, ht⟩ := exists_mem_zRevRangeByScore hmem hmin (toDouble_mono hend) hlimit0
      have hfound := (of_mem_zRevRangeByScore ht).1
      rw [hempty hexec] at hfound
      rw [RedisIndex.getTraceIdsByAnnotation, libs.newString_getBytes, TraceIndex.list, List.map_map]
      exact List.mem_map.2 ⟨t, ht, (hzsets hfound).1⟩

/-- Libraries for which a double has its bits for its text. -/
def sampleLibs : RedisLibs where
  locale := .ascii
  newString := Libs.sample.newString
  newString_getBytes := Libs.sample.newString_getBytes
  doubleToString bits := toString bits.toNat
  iterate l := l
  iterate_perm l := .refl l

/-- A call between two services, with one binary annotation. -/
def callWith (t : AnnotationType) (payload : List UInt8) : Span ByteBuffer :=
  .apply 1 "get" 1 none [⟨1, "cs", some ⟨0, 80, "web"⟩⟩, ⟨2, "sr", some ⟨0, 80, "db"⟩⟩] [⟨"error", .wrap payload, t, none⟩]

theorem records_string : RecordsBinaryAnnotations sampleLibs none (callWith .string (getBytesUtf8 "disk")) := by
  have hwf : ∀ bin ∈ (callWith .string (getBytesUtf8 "disk")).binaryAnnotations, WellFormed bin bin.value := fun bin h => by
    rw [List.mem_singleton.1 h]
    exact .string rfl "disk" (ByteBuffer.bytes_wrap _)
  refine (records_iff (by decide) hwf).2 ⟨Or.inr (by decide), fun _ _ ts hts endTs _ => ?_⟩
  have hlast : (callWith .string (getBytesUtf8 "disk")).lastTimestamp = some 2 := by decide
  rw [hlast] at hts
  rw [← Option.some.inj hts]
  exact (by decide : toDouble 0 ≤ toDouble 2)

/-- A truth value: the call throws when it reads the payload for the second service. -/
theorem not_records_bool :
    WellFormed (⟨"error", .wrap [1], .bool, none⟩ : BinaryAnnotation ByteBuffer) (.wrap [1]) ∧
      ¬ RecordsBinaryAnnotations sampleLibs none (callWith .bool [1]) := by
  refine ⟨.bool rfl (Or.inr rfl), fun h => ?_⟩
  obtain ⟨r', hexec, -⟩ := h.1 {}
  have hthrows : (exec (index sampleLibs (callWith .bool [1])) {}).1 = .error ⟨"BufferUnderflowException", ""⟩ := by
    decide +kernel
  rw [hexec] at hthrows
  cases hthrows

end RedisIndex
end Zipkin
