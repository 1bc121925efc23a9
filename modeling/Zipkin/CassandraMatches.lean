import Zipkin.CassandraNameIndex
/-!
# CassandraMatches — what a query finds is what it asks for

The keys of the indexes are texts and bytes put together with a dot or a colon, and a name can have dots and colons of its
own.  `noFalseMatch_iff`: the indexes give no false match exactly when, whatever query has the key of an entry, the trace
of the entry has a span that matches the query.
-/
namespace Zipkin

/-- The same machine, drawing other numbers. -/
def Jvm.withRandom (jvm : Jvm) (nextInt : Nat → Fin Repository.BUCKETS) : Jvm := { jvm with nextInt := nextInt }

namespace CassandraSpanStore

open Effect Repository AssocMap

variable {jvm : Jvm} {calls : List (Nat × List (Span (List UInt8)))} {r : Repository}

/-! ## What a query asks for -/

def HasName (jvm : Jvm) (serviceName spanName : String) (y : Span (List UInt8)) : Prop :=
  serviceName ∈ serviceNames jvm y ∧ y.name = spanName

/-- The service has the annotation or, with a value, the binary annotation with this value. -/
def HasAnnotation (serviceName annotation : String) (value : Option (List UInt8)) (y : Span (List UInt8)) : Prop :=
  match value with
  | none =>
    (∃ a ∈ y.annotations, ∃ h ∈ a.host, h.serviceName = serviceName ∧ a.value = annotation) ∨
      ∃ ba ∈ y.binaryAnnotations, ∃ h ∈ ba.host, h.serviceName = serviceName ∧ ba.key = annotation
  | some v => ∃ ba ∈ y.binaryAnnotations, ∃ h ∈ ba.host, h.serviceName = serviceName ∧ ba.key = annotation ∧ ba.value = v

/-- Each trace id that a query finds is of a stored span with what the query asks for. -/
def Sound (jvm : Jvm) (calls : List (Nat × List (Span (List UInt8)))) (r : Repository) : Prop :=
  (∀ (s n : String) (endTs limit : Int) (ids : List IndexedTraceId),
    getTraceIdsByName r s (some n) endTs limit = .ok ids →
      ∀ id ∈ ids.map IndexedTraceId.traceId, ∃ y ∈ stored calls, y.traceId = id ∧ HasName jvm s n y) ∧
  ∀ (s a : String) (v : Option (List UInt8)) (endTs limit : Int) (ids : List IndexedTraceId),
    getTraceIdsByAnnotation jvm r s a v endTs limit = .ok ids →
      ∀ id ∈ ids.map IndexedTraceId.traceId, ∃ y ∈ stored calls, y.traceId = id ∧ HasAnnotation s a v y

/-- No query finds anything else, whatever the buckets are that are drawn. -/
def NoFalseMatch (jvm : Jvm) (calls : List (Nat × List (Span (List UInt8)))) : Prop :=
  ∀ nextInt r, exec (applyAll (jvm.withRandom nextInt) calls) (Repository.empty jvm.toMachine) = (.ok (), r) →
    Sound jvm calls r

/-! ## The index of annotations -/

theorem annotations_index_eq (hok : exec (applyAll jvm calls) (Repository.empty jvm.toMachine) = (.ok (), r)) :
    r.session.annotations_index = putAll ((Submission.executed jvm.nextInt 0
      ((stored calls).flatMap (statements jvm))).filterMap Insert.annotationRow) [] :=
  table_of_applyAll Keyspace.isTable_annotations_index (fun i hi => by cases i <;> first | rfl | cases hi) hok

theorem annotationRow_of_mem_executed {nextInt : Nat → Fin BUCKETS} {d : Nat} {l : List Submission}
    (hl : ∀ submission ∈ l, submission ∈ (stored calls).flatMap (statements jvm)) {i : Insert}
    (hi : i ∈ Submission.executed nextInt d l) {row : ((List UInt8 × Nat) × Int) × Int64}
    (hrow : i.annotationRow = some row) :
    ∃ x ∈ stored calls, ∃ key ∈ annotationKeys jvm x, ∃ last n, x.lastAnnotation = some last ∧ d ≤ n ∧
      row = (((key, (nextInt n : Nat)), last.timestamp), x.traceId) := by
  rcases Submission.mem_executed hi with hi | ⟨f, n, hf, hn, rfl⟩
  · obtain ⟨x, -, hi⟩ := List.mem_flatMap.1 (hl _ hi)
    rcases bound_of_mem_statements hi with hi | ⟨_, _, _, rfl⟩
    · rw [Submission.bound.inj hi] at hrow
      cases hrow
    · cases hrow
  · obtain ⟨x, hx, hf⟩ := List.mem_flatMap.1 (hl _ hf)
    rcases drawn_of_mem_statements hf with ⟨_, _, _, rfl⟩ | ⟨key, hkey, last, hlast, rfl⟩
    · cases hrow
    · exact ⟨x, hx, key, hkey, last, n, hlast, hn, (Option.some.inj hrow).symm⟩

/-- **A row is of a span that is indexed under its key.** -/
theorem exists_span_of_annotation_row (hok : exec (applyAll jvm calls) (Repository.empty jvm.toMachine) = (.ok (), r))
    {row : ((List UInt8 × Nat) × Int) × Int64} (hrow : row ∈ r.session.annotations_index) :
    ∃ x ∈ stored calls, x.annotations ≠ [] ∧ row.1.1.1 ∈ annotationKeys jvm x ∧ x.traceId = row.2 := by
  rw [annotations_index_eq hok] at hrow
  obtain ⟨i, hi, hrow⟩ := List.mem_filterMap.1 (mem_of_mem_putAll hrow)
  obtain ⟨x, hx, key, hkey, last, n, hlast, -, rfl⟩ := annotationRow_of_mem_executed (fun _ h => h) hi hrow
  exact ⟨x, hx, List.ne_nil_of_mem (List.mem_of_getLast? hlast), hkey, rfl⟩

/-- Up to the `n`th number 0 is drawn, and 1 from then on. -/
def drawUpTo (n : Nat) : Nat → Fin BUCKETS := fun d => if d ≤ n then ⟨0, BUCKETS_pos⟩ else ⟨1, by decide⟩

/-- **An entry can stay**: with some numbers drawn, no later entry goes into its bucket. -/
theorem exists_annotation_row {x : Span (List UInt8)} (hx : x ∈ stored calls) {key : List UInt8}
    (hkey : key ∈ annotationKeys jvm x) {last : Annotation} (hlast : x.lastAnnotation = some last) :
    ∃ nextInt, ∀ r, exec (applyAll (jvm.withRandom nextInt) calls) (Repository.empty jvm.toMachine) = (.ok (), r) →
      (((key, 0), last.timestamp), x.traceId) ∈ r.session.annotations_index := by
  have hmem : .drawn (fun b => .traceIdByAnnotationKey key b last.timestamp x.traceId) ∈
      (stored calls).flatMap (statements jvm) :=
    List.mem_flatMap.2 ⟨x, hx, drawn_mem_statements hkey hlast⟩
  obtain ⟨l, l', hl⟩ := List.append_of_mem hmem
  refine ⟨drawUpTo (Submission.draws l), fun r hok => ?_⟩
  have hstatements : statements (jvm.withRandom (drawUpTo (Submission.draws l))) = statements jvm := rfl
  have hrow : Insert.annotationRow (.traceIdByAnnotationKey key (drawUpTo (Submission.draws l) (Submission.draws l))
      last.timestamp x.traceId) = some (((key, 0), last.timestamp), x.traceId) := by
    rw [drawUpTo, if_pos (Nat.le_refl _)]
    rfl
  have hnext : (jvm.withRandom (drawUpTo (Submission.draws l))).nextInt = drawUpTo (Submission.draws l) := rfl
  rw [annotations_index_eq hok, hstatements, hl, Submission.executed_append, List.filterMap_append, Submission.executed,
    List.filterMap_cons, Nat.zero_add, hnext, hrow]
  refine mem_putAll_of_last List.nodup_nil (fun hkeys => ?_)
  -- a later row is in bucket 1
  obtain ⟨row, hrow, hkeyeq⟩ := List.mem_map.1 hkeys
  obtain ⟨i, hi, hrow⟩ := List.mem_filterMap.1 hrow
  obtain ⟨_, -, _, -, _, n, -, hn, rfl⟩ := annotationRow_of_mem_executed
    (fun _ h => hl ▸ List.mem_append_right _ (List.mem_cons_of_mem _ h)) hi hrow
  dsimp only at hkeyeq
  rw [drawUpTo, if_neg (by omega)] at hkeyeq
  cases hkeyeq

theorem exists_row_of_mem_annotation_ids {s a : String} {v : Option (List UInt8)} {endTs limit : Int}
    {ids : List IndexedTraceId} (hids : getTraceIdsByAnnotation jvm r s a v endTs limit = .ok ids) {id : Int64}
    (hid : id ∈ ids.map IndexedTraceId.traceId) :
    ∃ bucket ts, (((annotationKey jvm s a v, bucket), ts), id) ∈ r.session.annotations_index := by
  obtain ⟨answer, hanswer, rfl⟩ := exists_of_map_eq_ok hids
  rw [map_traceId_indexedTraceIds] at hid
  obtain ⟨p, ts, hp, hrow⟩ := exists_row_of_mem_answer hanswer hid
  rw [Bool.and_eq_true, beq_iff_eq] at hp
  exact ⟨p.2, ts, hp.1 ▸ hrow⟩

theorem exists_ids_of_annotation_row {s a : String} {v : Option (List UInt8)} {ts : Int} {id : Int64}
    (hrow : (((annotationKey jvm s a v, 0), ts), id) ∈ r.session.annotations_index) :
    ∃ limit ids, getTraceIdsByAnnotation jvm r s a v ts limit = .ok ids ∧ id ∈ ids.map IndexedTraceId.traceId := by
  have hpos : (0 : Int) < r.session.annotations_index.length := by exact_mod_cast List.length_pos_of_mem hrow
  refine ⟨r.session.annotations_index.length, indexedTraceIds (traceIdsToTimestamps
    (Table.select (fun p => p.1 == annotationKey jvm s a v && decide (p.2 < BUCKETS)) ts
      r.session.annotations_index.length r.session.annotations_index)), ?_, ?_⟩
  · rw [CassandraSpanStore.getTraceIdsByAnnotation, Repository.getTraceIdsByAnnotation, checkLimit, if_pos hpos]
    rfl
  · rw [map_traceId_indexedTraceIds, mem_traceIdsToTimestamps]
    have hpart : (annotationKey jvm s a v == annotationKey jvm s a v && decide (0 < BUCKETS)) = true := by
      rw [beq_self_eq_true]
      rfl
    exact List.mem_map.2 ⟨(ts, id), Table.mem_select_of_le hrow hpart (Int.le_refl ts)
      (List.length_filter_le _ _), rfl⟩

/-! ## No false match -/

theorem exists_run_withRandom {r : Repository}
    (hok : exec (applyAll jvm calls) (Repository.empty jvm.toMachine) = (.ok (), r)) (nextInt : Nat → Fin BUCKETS) :
    ∃ r, exec (applyAll (jvm.withRandom nextInt) calls) (Repository.empty jvm.toMachine) = (.ok (), r) := by
  have hsucceeds : Succeeds (applyAll (jvm.withRandom nextInt) calls) :=
    succeeds_join fun call hcall => succeeds_join fun x hx => succeeds_applySpan
      (fun hempty => ne_empty_of_applyAll hok (List.mem_flatMap.2 ⟨call, hcall, hx⟩) hempty rfl)
  obtain ⟨_, r, hr⟩ := hsucceeds (Repository.empty jvm.toMachine)
  exact ⟨r, hr⟩

/-- **When there is no false match**: the service and the name of every query with the text of a row, and the service,
annotation and value of every query with the key of an entry, are those of a span of the trace. -/
theorem noFalseMatch_iff {r : Repository}
    (hok : exec (applyAll jvm calls) (Repository.empty jvm.toMachine) = (.ok (), r)) :
    NoFalseMatch jvm calls ↔
      (∀ text ts x, LastWith (IndexedAs jvm text ts) (stored calls) x → ∀ s n : String, s ≠ "" → n ≠ "" →
        s ++ "." ++ n = text → ∃ y ∈ stored calls, y.traceId = x.traceId ∧ HasName jvm s n y) ∧
      ∀ x ∈ stored calls, x.annotations ≠ [] → ∀ key ∈ annotationKeys jvm x, ∀ s a v, annotationKey jvm s a v = key →
        ∃ y ∈ stored calls, y.traceId = x.traceId ∧ HasAnnotation s a v y := by
  constructor
  · intro hsound
    refine ⟨fun text ts x hx s n hs hn htext => ?_, fun x hx hne key hkey s a v heq => ?_⟩
    · have hrow := (mem_service_span_name_index hok).2 ⟨x, hx, rfl⟩
      obtain ⟨ids, hids, hid⟩ := exists_ids_of_row hok hs hn (htext ▸ hrow) (Int.le_refl ts) (Int.le_refl _)
      exact (hsound jvm.nextInt r hok).1 s n ts _ ids hids _ hid
    · obtain ⟨last, hlast⟩ := Option.isSome_iff_exists.1 (List.getLast?_isSome.2 hne)
      obtain ⟨nextInt, hstays⟩ := exists_annotation_row hx hkey hlast
      obtain ⟨r', hok'⟩ := exists_run_withRandom hok nextInt
      have hrow := hstays r' hok'
      rw [← heq] at hrow
      obtain ⟨limit, ids, hids, hid⟩ := exists_ids_of_annotation_row hrow
      exact (hsound nextInt r' hok').2 s a v _ limit ids hids _ hid
  · rintro ⟨hnames, hannotations⟩ nextInt r' hok'
    refine ⟨fun s n endTs limit ids hids id hid => ?_, fun s a v endTs limit ids hids id hid => ?_⟩
    · obtain ⟨ts, hrow⟩ := exists_row_of_mem_ids hids hid
      obtain ⟨x, hx, rfl⟩ := (mem_service_span_name_index hok').1 hrow
      refine hnames _ ts x hx s n (fun hs => ?_) (fun hn => ?_) rfl
      · rw [hs] at hids
        cases hids
      · rw [hn] at hids
        exact getTraceIdsByName_empty s endTs limit ids hids
    · obtain ⟨bucket, ts, hrow⟩ := exists_row_of_mem_annotation_ids hids hid
      obtain ⟨x, hx, hne, hkey, rfl⟩ := exists_span_of_annotation_row hok' hrow
      exact hannotations x hx hne _ hkey s a v rfl

/-- Two names with one dot between them are told apart if the text has no other. -/
theorem dotted_inj {s n a b : String} (h : s ++ "." ++ n = a ++ "." ++ b) (ha : '.' ∉ a.toList) (hb : '.' ∉ b.toList) :
    s = a ∧ n = b := by
  have hlist : s.toList ++ '.' :: n.toList = a.toList ++ '.' :: b.toList := by
    simpa [String.toList_append] using congrArg String.toList h
  obtain ⟨hs, -, hn⟩ := (List.append_cons_inj_of_notMem ha hb).1 hlist.symm
  exact ⟨String.toList_injective hs.symm, String.toList_injective hn.symm⟩

theorem getBytes_inj {s t : String} (h : sampleJvm.getBytes s = sampleJvm.getBytes t) : s = t :=
  String.toByteArray_inj.1 (ByteArray.ext (Array.toList_inj.1 h))

/-- And so are two with a colon between their bytes, also from those of a query with a value. -/
theorem annotationKey_inj {s a t b : String} {v : Option (List UInt8)}
    (h : annotationKey sampleJvm s a v = annotationKey sampleJvm t b none) (ht : 58 ∉ sampleJvm.getBytes t)
    (hb : 58 ∉ sampleJvm.getBytes b) : s = t ∧ a = b ∧ v = none := by
  have hcolon : IndexDelimiterBytes sampleJvm = [58] := by decide +kernel
  unfold annotationKey at h
  rw [hcolon, Option.map_none, Option.getD_none, List.append_nil, List.append_assoc, List.append_assoc, List.append_assoc,
    List.singleton_append, List.singleton_append] at h
  obtain ⟨hs, -, ha⟩ := (List.append_cons_inj_of_notMem ht hb).1 h.symm
  cases v with
  | none =>
    rw [Option.map_none, Option.getD_none, List.append_nil] at ha
    exact ⟨getBytes_inj hs.symm, getBytes_inj ha.symm, rfl⟩
  | some v =>
    rw [ha] at hb
    exact absurd (List.mem_append_right _ List.mem_cons_self) hb

/-- A span of a web server that missed the cache. -/
def missSpan : Span (List UInt8) :=
  .apply 1 "get" 1 none [⟨1, "sr", some ⟨0, 80, "web"⟩⟩, ⟨2, "miss", some ⟨0, 80, "web"⟩⟩] []

def miss : List (Nat × List (Span (List UInt8))) := [(0, [missSpan])]

theorem noFalseMatch_miss : NoFalseMatch sampleJvm miss := by
  refine (noFalseMatch_iff (sampleRun_eq (by decide +kernel))).2
    ⟨fun text ts x hx s n _ _ htext => ?_, fun x hx _ key hkey s a v heq => ?_⟩
  · obtain rfl := List.mem_singleton.1 hx.mem
    have hservices : serviceNames sampleJvm missSpan = ["web"] := by decide +kernel
    obtain ⟨-, -, t, ht, heq⟩ := hx.prop
    rw [hservices, List.mem_singleton] at ht
    rw [ht, ← htext] at heq
    obtain ⟨rfl, rfl⟩ := dotted_inj heq.symm (by decide) (by decide)
    exact ⟨_, hx.mem, rfl, by rw [hservices]; exact List.mem_cons_self, rfl⟩
  · obtain rfl := List.mem_singleton.1 hx
    have hkeys : annotationKeys sampleJvm missSpan = [annotationKey sampleJvm "web" "miss" none] := by decide +kernel
    rw [hkeys, List.mem_singleton] at hkey
    obtain ⟨rfl, rfl, rfl⟩ := annotationKey_inj (heq.trans hkey) (by decide +kernel) (by decide +kernel)
    exact ⟨missSpan, hx, rfl, Or.inl (by decide +kernel)⟩

/-- A span named "c" of the service "a.b". -/
def dotted : List (Nat × List (Span (List UInt8))) :=
  [(0, [.apply 1 "c" 1 none [⟨1, "sr", some ⟨0, 80, "a.b"⟩⟩] []])]

/-- It is found as a span named "b.c" of the service "a". -/
theorem not_noFalseMatch_dotted : ¬ NoFalseMatch sampleJvm dotted := by
  intro h
  have hfound : getTraceIdsByName (sampleRun dotted).2 "a" (some "b.c") 1 10 = .ok [⟨1, 1⟩] := by decide +kernel
  obtain ⟨y, hy, -, hname, -⟩ := (h sampleJvm.nextInt _ (sampleRun_eq (by decide +kernel))).1 _ _ _ _ _ hfound 1 (by decide)
  obtain rfl := List.mem_singleton.1 hy
  revert hname
  decide +kernel

end CassandraSpanStore
end Zipkin
