import Zipkin.AnormMerged
import Zipkin.Base.Groups
import Zipkin.InMemoryAnswers
/-!
# AnormQueries — looking for traces in the three tables

The queries of `AnormSpanStore.scala` for trace ids and for names.  A column that is neither grouped by nor aggregated is
one of any row of the group, and `ORDER BY` such a column is no order, so that a limit takes any of the ids that are found.
-/
namespace Zipkin
namespace AnormSpanStore

open Effect Transaction Groups SpanBuffer

section Definitions
variable (order : RowOrder) (nullFound : Throwable)

/-- `long(column)`, the parser of a column that is not to be null. -/
def long : Option Int → Except Throwable Int
  | some n => .ok n
  | none => .error nullFound

def indexedTraceId (row : Int64 × Option Int) : Except Throwable IndexedTraceId :=
  (fun ts => ⟨row.1, ts⟩) <$> long nullFound row.2

/-- `SELECT trace_id, value FROM rows GROUP BY trace_id` -/
def selectGroups {ρ : Type} (trace_id : ρ → Int64) (value : List ρ → Option Int) (rows : List ρ) :
    List (Int64 × Option Int) :=
  (order.rows (groupBy trace_id rows)).map fun group => (group.1, value group.2)

def max_a_timestamp (group : List AnnotationRow) : Option Int := (group.map AnnotationRow.a_timestamp).max?

/-- `created_ts` of a group. -/
def anyCreatedTs (group : List SpanRow) : Option Int := (order.rows group).head?.bind SpanRow.created_ts

def foundByName (serviceName spanName : String) (endTs : Int) (r : AnnotationRow) : Bool :=
  r.service_name == serviceName && (r.span_name == spanName || spanName == "") && decide (r.a_timestamp < endTs)

def getTraceIdsByName (t : SpanTables) (serviceName : String) (spanName : Option String) (endTs limit : Int) :
    Except Throwable (List IndexedTraceId) :=
  if endTs ≤ 0 ∨ limit ≤ 0 then .ok []
  else
    let t2 := (selectDistinct order t.zipkin_annotations (foundByName serviceName (spanName.getD "") endTs)
      AnnotationRow.trace_id).take limit.toNat
    (selectGroups order AnnotationRow.trace_id max_a_timestamp
      (innerJoin AnnotationRow.trace_id t.zipkin_annotations t2)).mapM (indexedTraceId nullFound)

def foundByValue (serviceName annotation : String) (endTs : Int) (r : AnnotationRow) : Bool :=
  r.service_name == serviceName && r.value == annotation && decide (r.a_timestamp < endTs)

def foundByKey (serviceName annotation : String) (value : List UInt8) (endTs : Int) (r : BinaryAnnotationRow) : Bool :=
  r.service_name == serviceName && r.annotation_key == annotation && r.annotation_value == value &&
    r.annotation_ts.any fun ts => decide (ts < endTs)

def getTraceIdsByAnnotation (t : SpanTables) (serviceName annotation : String) (value : Option (List UInt8))
    (endTs limit : Int) : Except Throwable (List IndexedTraceId) :=
  if Constants.CoreAnnotations.contains annotation ∨ endTs ≤ 0 ∨ limit ≤ 0 then .ok []
  else match value with
    | some bytes =>
      let t2 := (selectDistinct order t.zipkin_binary_annotations (foundByKey serviceName annotation bytes endTs)
        BinaryAnnotationRow.trace_id).take limit.toNat
      (selectGroups order SpanRow.trace_id (anyCreatedTs order)
        (innerJoin SpanRow.trace_id t.zipkin_spans t2)).mapM (indexedTraceId nullFound)
    | none =>
      ((selectGroups order AnnotationRow.trace_id max_a_timestamp
        (t.zipkin_annotations.filter (foundByValue serviceName annotation endTs))).take limit.toNat).mapM
          (indexedTraceId nullFound)

def getTraceIds (t : SpanTables) (endTs limit : Int) : IdQuery → Except Throwable (List IndexedTraceId)
  | .byName serviceName spanName => getTraceIdsByName order nullFound t serviceName spanName endTs limit
  | .byAnnotated serviceName annotation value =>
    getTraceIdsByAnnotation order nullFound t serviceName annotation value endTs limit

def getAllServiceNames (t : SpanTables) : List String :=
  selectDistinct order t.zipkin_annotations (fun _ => true) AnnotationRow.service_name

def getSpanNames (t : SpanTables) (service : String) : List String :=
  selectDistinct order t.zipkin_annotations (fun r => r.service_name == service && r.span_name != "") AnnotationRow.span_name

end Definitions

/-! ## What is in the tables -/

/-- A call of `storeSpan`: what its calls of the database throw, and the span. -/
structure StoreCall where
  faults : Nat → Option Throwable
  span : Span (List UInt8)

/-- The calls one after the other: the spans of those that do not fail, and the tables. -/
def runCalls (isSQLRecoverableException : Throwable → Bool) :
    List StoreCall → SpanTables → List (Span (List UInt8)) × SpanTables
  | [], t => ([], t)
  | c :: calls, t => match exec (storeSpan c.faults isSQLRecoverableException c.span) t with
    | (.ok (), t') => let (stored, t'') := runCalls isSQLRecoverableException calls t'; (c.span :: stored, t'')
    | (.error _, t') => runCalls isSQLRecoverableException calls t'

variable {isSQLRecoverableException : Throwable → Bool} {stored : List (Span (List UInt8))}

theorem exec_storeSpan (isSQLRecoverableException : Throwable → Bool) (faults : Nat → Option Throwable)
    (x : Span (List UInt8)) (t : SpanTables)
    (ht : t = tablesOf stored) :
    (∃ e, exec (storeSpan faults isSQLRecoverableException x) t = (.error e, tablesOf stored)) ∨
      exec (storeSpan faults isSQLRecoverableException x) t = (.ok (), tablesOf (stored ++ [x])) := by
  subst ht
  rcases DB.exec_pooled_cases faults isSQLRecoverableException (inserts x) (tablesOf stored) with
    ⟨e, hexec⟩ | ⟨_, t, hrun, hexec⟩
  · rw [storeSpan, exec_map, hexec]
    exact Or.inl ⟨e, rfl⟩
  · rw [exec_inserts] at hrun
    rw [storeSpan, exec_map, hexec]
    exact Or.inr (congrArg (Prod.mk _) (congrArg Prod.snd hrun).symm)

/-- **The tables have all rows of the spans that were stored**, and of no other. -/
theorem tablesOf_run (isSQLRecoverableException : Throwable → Bool) :
    ∀ (calls : List StoreCall) (before : List (Span (List UInt8))),
    (runCalls isSQLRecoverableException calls (tablesOf before)).2 =
      tablesOf (before ++ (runCalls isSQLRecoverableException calls (tablesOf before)).1)
  | [], before => by rw [runCalls, List.append_nil]
  | c :: calls, before => by
    rw [runCalls]
    rcases exec_storeSpan isSQLRecoverableException c.faults c.span (tablesOf before) rfl with
      ⟨e, hexec⟩ | hexec
    · rw [hexec]
      exact tablesOf_run isSQLRecoverableException calls before
    · rw [hexec]
      dsimp only
      rw [tablesOf_run isSQLRecoverableException calls (before ++ [c.span]), List.append_assoc, List.singleton_append]

theorem mem_zipkin_annotations {r : AnnotationRow} :
    r ∈ (tablesOf stored).zipkin_annotations ↔ ∃ x ∈ stored, ∃ a ∈ x.annotations, annotationRow x a = r := by
  simp only [tablesOf, List.mem_flatMap, List.mem_map]

theorem mem_zipkin_binary_annotations {r : BinaryAnnotationRow} :
    r ∈ (tablesOf stored).zipkin_binary_annotations ↔
      ∃ x ∈ stored, ∃ b ∈ x.binaryAnnotations, binaryAnnotationRow x b = r := by
  simp only [tablesOf, List.mem_flatMap, List.mem_map]

theorem mem_zipkin_spans {r : SpanRow} : r ∈ (tablesOf stored).zipkin_spans ↔ ∃ x ∈ stored, spanRow x = r := by
  simp only [tablesOf, List.mem_map]

/-! ## What is found -/

/-- The service that an annotation without a host is stored under. -/
def hostName (b : BinaryAnnotation (List UInt8)) : String := (b.host.map Endpoint.serviceName).getD "Unknown service name"

/-- The span is one that the query finds. -/
def matchesQuery (endTs : Int) (x : Span (List UInt8)) : IdQuery → Bool
  | .byName serviceName spanName => decide (0 < endTs) && (x.name == spanName.getD "" || spanName.getD "" == "") &&
    x.annotations.any fun a => a.serviceName == serviceName && decide (a.timestamp < endTs)
  | .byAnnotated serviceName annotation none => decide (0 < endTs) && !Constants.CoreAnnotations.contains annotation &&
    x.annotations.any fun a => a.serviceName == serviceName && a.value == annotation && decide (a.timestamp < endTs)
  | .byAnnotated serviceName annotation (some bytes) => decide (0 < endTs) && !Constants.CoreAnnotations.contains annotation &&
    x.firstTimestamp.any (fun ts => decide (ts < endTs)) &&
      x.binaryAnnotations.any fun b => hostName b == serviceName && b.key == annotation && b.value == bytes

def matching (stored : List (Span (List UInt8))) (endTs : Int) (q : IdQuery) : List (Span (List UInt8)) :=
  stored.filter fun x => matchesQuery endTs x q

/-- By name, the latest timestamp of the trace; by annotation, the latest of those that are found; with a value, the first
of any span of the trace. -/
def TimestampOf (stored : List (Span (List UInt8))) (endTs : Int) (e : IndexedTraceId) : IdQuery → Prop
  | .byName _ _ =>
    IsGreatest {ts | ∃ x ∈ stored, x.traceId = e.traceId ∧ ∃ a ∈ x.annotations, a.timestamp = ts} e.timestamp
  | .byAnnotated serviceName annotation none =>
    IsGreatest {ts | ∃ x ∈ stored, x.traceId = e.traceId ∧ ∃ a ∈ x.annotations,
      (a.serviceName = serviceName ∧ a.value = annotation ∧ a.timestamp < endTs) ∧ a.timestamp = ts} e.timestamp
  | .byAnnotated _ _ (some _) => ∃ x ∈ stored, x.traceId = e.traceId ∧ x.firstTimestamp = some e.timestamp

structure Answers (stored : List (Span (List UInt8))) (endTs limit : Int) (q : IdQuery) (answer : List IndexedTraceId) :
    Prop where
  counts : CountsTraces (matching stored endTs q) limit answer
  found : ∀ e ∈ answer, ∃ x ∈ matching stored endTs q, x.traceId = e.traceId
  timestamps : ∀ e ∈ answer, TimestampOf stored endTs e q

/-- Nothing is asked for, or nothing is from before the end. -/
theorem answers_nil {endTs limit : Int} {q : IdQuery} (h : limit ≤ 0 ∨ matching stored endTs q = []) :
    Answers stored endTs limit q [] where
  counts := by
    refine ⟨List.nodup_nil, ?_⟩
    rcases h with h | h
    · rw [Int.toNat_of_nonpos h, Nat.zero_min]
      rfl
    · rw [h]
      exact (Nat.min_zero _).symm
  found _ he := (List.not_mem_nil he).elim
  timestamps _ he := (List.not_mem_nil he).elim

section Rows
variable {order : RowOrder} {nullFound : Throwable} {rows : List (Int64 × Option Int)}

/-- **Without a null** the rows are the answer. -/
theorem mapM_indexedTraceId (h : ∀ row ∈ rows, row.2 ≠ none) : ∃ answer, rows.mapM (indexedTraceId nullFound) = .ok answer ∧
    answer.map (fun e => (e.traceId, some e.timestamp)) = rows := by
  induction rows with
  | nil => exact ⟨[], rfl, rfl⟩
  | cons row rows ih =>
    obtain ⟨answer, hanswer, hrows⟩ := ih fun row' hrow' => h row' (List.mem_cons_of_mem row hrow')
    obtain ⟨id, ts⟩ := row
    cases ts with
    | none => exact absurd rfl (h _ List.mem_cons_self)
    | some ts =>
      refine ⟨⟨id, ts⟩ :: answer, ?_, by rw [List.map_cons, hrows]⟩
      rw [List.mapM_cons, hanswer]
      rfl

/-- With one, what the parser throws. -/
theorem mapM_indexedTraceId_none (h : ∃ row ∈ rows, row.2 = none) :
    rows.mapM (indexedTraceId nullFound) = .error nullFound := by
  obtain ⟨row, hrow, hnone⟩ := h
  induction rows with
  | nil => exact (List.not_mem_nil hrow).elim
  | cons row' rows ih =>
    obtain ⟨id, ts⟩ := row'
    rw [List.mapM_cons]
    cases ts with
    | none => rfl
    | some ts =>
      rcases List.mem_cons.1 hrow with rfl | hrow
      · cases hnone
      · rw [ih hrow]
        rfl

theorem map_fst_selectGroups {ρ : Type} (trace_id : ρ → Int64) (value : List ρ → Option Int) (l : List ρ) :
    ((selectGroups order trace_id value l).map Prod.fst).Perm (l.map trace_id).dedup := by
  rw [selectGroups, List.map_map, ← map_fst_groupBy]
  exact (order.rows_perm _).map Prod.fst

theorem of_mem_selectGroups {ρ : Type} {trace_id : ρ → Int64} {value : List ρ → Option Int} {l : List ρ}
    {row : Int64 × Option Int} (h : row ∈ selectGroups order trace_id value l) :
    ∃ group ≠ [], (∀ r, r ∈ group ↔ r ∈ l ∧ trace_id r = row.1) ∧ row.2 = value group := by
  obtain ⟨group, hgroup, rfl⟩ := List.mem_map.1 h
  obtain ⟨hne, hmem⟩ := of_mem_groupBy ((order.rows_perm _).mem_iff.1 hgroup)
  exact ⟨group.2, hne, hmem, rfl⟩

/-- The ids that are found, as many as the limit allows. -/
theorem selectDistinct_perm {ρ : Type} {table : List ρ} {found : ρ → Bool} {trace_id : ρ → Int64} {ids : List Int64}
    (h : ∀ id, (∃ r ∈ table, found r = true ∧ trace_id r = id) ↔ id ∈ ids) :
    (selectDistinct order table found trace_id).Perm ids.dedup :=
  (List.perm_ext_iff_of_nodup nodup_selectDistinct (List.nodup_dedup ids)).2 fun id => by
    rw [mem_selectDistinct, h, List.mem_dedup]

/-- **The answer of rows**: one for each of the ids that are taken, if there is no null. -/
theorem answers_of_rows {endTs limit : Int} {q : IdQuery} {ids : List Int64}
    (hids : ids.Perm ((matching stored endTs q).map Span.traceId).dedup)
    (hperm : (rows.map Prod.fst).Perm (ids.take limit.toNat))
    (hrows : ∀ row ∈ rows, ∀ ts, row.2 = some ts → TimestampOf stored endTs ⟨row.1, ts⟩ q) :
    (rows.mapM (indexedTraceId nullFound) = .error nullFound ∧ ∃ row ∈ rows, row.2 = none) ∨
      ∃ answer, rows.mapM (indexedTraceId nullFound) = .ok answer ∧ Answers stored endTs limit q answer := by
  by_cases hnull : ∃ row ∈ rows, row.2 = none
  · exact Or.inl ⟨mapM_indexedTraceId_none hnull, hnull⟩
  obtain ⟨answer, hanswer, heq⟩ : ∃ answer, rows.mapM (indexedTraceId nullFound) = .ok answer ∧
      answer.map (fun e => (e.traceId, some e.timestamp)) = rows :=
    mapM_indexedTraceId fun row hrow hnone => hnull ⟨row, hrow, hnone⟩
  have htraceIds : answer.map IndexedTraceId.traceId = rows.map Prod.fst := by
    rw [← heq, List.map_map]
    rfl
  obtain ⟨hnodup, hlength⟩ := nodup_length_take hids limit.toNat
  refine Or.inr ⟨answer, hanswer, ⟨?_, ?_⟩, fun e he => ?_, fun e he => ?_⟩
  · rw [htraceIds]
    exact hperm.nodup_iff.2 hnodup
  · rw [← List.length_map (f := IndexedTraceId.traceId), htraceIds, hperm.length_eq, hlength]
  · have hmem : e.traceId ∈ rows.map Prod.fst := htraceIds ▸ List.mem_map_of_mem he
    have hmem := hids.mem_iff.1 (List.mem_of_mem_take (hperm.mem_iff.1 hmem))
    exact List.mem_map.1 (List.mem_dedup.1 hmem)
  · have hmem : (e.traceId, some e.timestamp) ∈ rows := heq ▸ List.mem_map_of_mem he
    exact hrows _ hmem e.timestamp rfl

end Rows

/-! ## The three queries -/

section Queries
variable (order : RowOrder) (nullFound : Throwable) (stored : List (Span (List UInt8))) (endTs limit : Int)

theorem mem_map_matching {q : IdQuery} {id : Int64} : id ∈ (matching stored endTs q).map Span.traceId ↔
    ∃ x ∈ stored, matchesQuery endTs x q = true ∧ x.traceId = id := by
  simp only [matching, List.mem_map, List.mem_filter, and_assoc]

/-- An annotation is found by its row. -/
theorem exists_annotationRow {found : AnnotationRow → Bool} {id : Int64} :
    (∃ r ∈ (tablesOf stored).zipkin_annotations, found r = true ∧ r.trace_id = id) ↔
      ∃ x ∈ stored, (∃ a ∈ x.annotations, found (annotationRow x a) = true) ∧ x.traceId = id := by
  simp only [mem_zipkin_annotations]
  constructor
  · rintro ⟨_, ⟨x, hx, a, ha, rfl⟩, hfound, hid⟩
    exact ⟨x, hx, ⟨a, ha, hfound⟩, hid⟩
  · rintro ⟨x, hx, ⟨a, ha, hfound⟩, hid⟩
    exact ⟨_, ⟨x, hx, a, ha, rfl⟩, hfound, hid⟩

/-- The latest of a group of rows of annotations. -/
theorem timestamp_of_group (found : AnnotationRow → Bool) (id : Int64) {group : List AnnotationRow} {ts : Int}
    (hne : group ≠ []) (hmem : ∀ r, r ∈ group ↔ (r ∈ (tablesOf stored).zipkin_annotations ∧ found r = true) ∧ r.trace_id = id)
    (hts : max_a_timestamp group = some ts) : IsGreatest {ts | ∃ x ∈ stored, x.traceId = id ∧ ∃ a ∈ x.annotations,
      found (annotationRow x a) = true ∧ a.timestamp = ts} ts := by
  obtain ⟨m, hm, hgreatest⟩ := isGreatest_max? AnnotationRow.a_timestamp hne
  obtain rfl : m = ts := Option.some.inj (hm.symm.trans hts)
  convert hgreatest using 1
  ext n
  simp only [Set.mem_ofPred_eq, hmem, mem_zipkin_annotations]
  constructor
  · rintro ⟨x, hx, hid, a, ha, hfound, rfl⟩
    exact ⟨_, ⟨⟨⟨x, hx, a, ha, rfl⟩, hfound⟩, hid⟩, rfl⟩
  · rintro ⟨_, ⟨⟨⟨x, hx, a, ha, rfl⟩, hfound⟩, hid⟩, rfl⟩
    exact ⟨x, hx, hid, a, ha, hfound, rfl⟩

theorem max_a_timestamp_ne_none {group : List AnnotationRow} (hne : group ≠ []) :
    max_a_timestamp group ≠ none := fun hnone => by
  obtain ⟨m, hm, -⟩ := isGreatest_max? AnnotationRow.a_timestamp hne
  cases hm.symm.trans hnone

/-- The groups of the rows that are joined to the ids that are taken. -/
theorem map_fst_joined {ρ : Type} (trace_id : ρ → Int64) (rows : List ρ) (value : List ρ → Option Int) {ids : List Int64}
    (hnodup : ids.Nodup) (hrows : ∀ id ∈ ids, ∃ r ∈ rows, trace_id r = id) :
    ((selectGroups order trace_id value (innerJoin trace_id rows ids)).map Prod.fst).Perm ids :=
  (map_fst_selectGroups trace_id value _).trans (dedup_innerJoin_perm hnodup hrows)

/-- The ids for a name. -/
theorem selectDistinct_foundByName (serviceName : String) (spanName : Option String) (hend : 0 < endTs) :
    (selectDistinct order (tablesOf stored).zipkin_annotations (foundByName serviceName (spanName.getD "") endTs)
      AnnotationRow.trace_id).Perm ((matching stored endTs (.byName serviceName spanName)).map Span.traceId).dedup := by
  have hfound : ∀ x a, foundByName serviceName (spanName.getD "") endTs (annotationRow x a) =
      ((x.name == spanName.getD "" || spanName.getD "" == "") &&
        (a.serviceName == serviceName && decide (a.timestamp < endTs))) := fun x a => by
    rw [foundByName, annotationRow, Bool.and_assoc, Bool.and_left_comm]
  refine selectDistinct_perm fun id => ?_
  rw [exists_annotationRow, mem_map_matching]
  refine exists_congr fun x => and_congr_right fun _ => and_congr_left fun _ => ?_
  simp only [hfound, matchesQuery, decide_eq_true hend, Bool.true_and, Bool.and_eq_true, List.any_eq_true]
  exact ⟨fun ⟨a, ha, hname, hservice⟩ => ⟨hname, a, ha, hservice⟩, fun ⟨hname, a, ha, hservice⟩ => ⟨a, ha, hname, hservice⟩⟩

theorem getTraceIdsByName_answers (serviceName : String) (spanName : Option String) :
    ∃ answer, getTraceIdsByName order nullFound (tablesOf stored) serviceName spanName endTs limit = .ok answer ∧
      Answers stored endTs limit (.byName serviceName spanName) answer := by
  unfold getTraceIdsByName
  split
  · rename_i h
    refine ⟨[], rfl, answers_nil (h.symm.imp_right fun hend => List.filter_eq_nil_iff.2 fun x _ => ?_)⟩
    rw [matchesQuery, decide_eq_false (not_lt.2 hend), Bool.false_and, Bool.false_and]
    exact Bool.false_ne_true
  · rename_i h
    rw [not_or, not_le, not_le] at h
    have hids := selectDistinct_foundByName order stored endTs serviceName spanName h.1
    have htaken := (nodup_length_take hids limit.toNat).1
    have hrow : ∀ id ∈ (selectDistinct order (tablesOf stored).zipkin_annotations
        (foundByName serviceName (spanName.getD "") endTs) AnnotationRow.trace_id).take limit.toNat,
        ∃ r ∈ (tablesOf stored).zipkin_annotations, r.trace_id = id := fun id hid => by
      obtain ⟨r, hr, -, hid⟩ := mem_selectDistinct.1 (List.mem_of_mem_take hid)
      exact ⟨r, hr, hid⟩
    have hperm := map_fst_joined order AnnotationRow.trace_id (tablesOf stored).zipkin_annotations max_a_timestamp htaken hrow
    refine (answers_of_rows hids hperm fun row hrow ts hts => ?_).resolve_left fun ⟨_, row, hrow, hnone⟩ => ?_
    · obtain ⟨group, hne, hmem, hvalue⟩ := of_mem_selectGroups hrow
      have hid := hperm.mem_iff.1 (List.mem_map_of_mem (f := Prod.fst) hrow)
      have hgreatest := timestamp_of_group stored (fun _ => true) row.1 hne (fun r => by
        rw [hmem, mem_innerJoin, and_iff_left rfl]
        exact and_congr_left fun heq => and_iff_left (heq ▸ hid)) (hvalue ▸ hts)
      simpa only [TimestampOf, true_and] using hgreatest
    · obtain ⟨group, hne, -, hvalue⟩ := of_mem_selectGroups hrow
      exact max_a_timestamp_ne_none hne (hvalue.symm.trans hnone)

/-- Where the query is not asked at all. -/
theorem matching_eq_nil {serviceName annotation : String} {value : Option (List UInt8)}
    (h : Constants.CoreAnnotations.contains annotation = true ∨ endTs ≤ 0) :
    matching stored endTs (.byAnnotated serviceName annotation value) = [] := by
  refine List.filter_eq_nil_iff.2 fun x _ => ?_
  rcases h with h | h
  · cases value <;> rw [matchesQuery, h, Bool.not_true, Bool.and_false, Bool.false_and] <;> exact Bool.false_ne_true
  · cases value <;> rw [matchesQuery, decide_eq_false (not_lt.2 h), Bool.false_and, Bool.false_and] <;>
      exact Bool.false_ne_true

theorem foundByValue_annotationRow {serviceName annotation : String} {x : Span (List UInt8)} {a : Annotation} :
    foundByValue serviceName annotation endTs (annotationRow x a) = true ↔
      a.serviceName = serviceName ∧ a.value = annotation ∧ a.timestamp < endTs := by
  rw [foundByValue, Bool.and_eq_true, Bool.and_eq_true, beq_iff_eq, beq_iff_eq, decide_eq_true_iff, and_assoc]
  rfl

theorem getTraceIdsByAnnotation_answers (serviceName annotation : String) : ∃ answer,
    getTraceIdsByAnnotation order nullFound (tablesOf stored) serviceName annotation none endTs limit = .ok answer ∧
      Answers stored endTs limit (.byAnnotated serviceName annotation none) answer := by
  unfold getTraceIdsByAnnotation
  split
  · rename_i h
    exact ⟨[], rfl, answers_nil (or_assoc.2 h |>.symm.imp_right (matching_eq_nil stored endTs))⟩
  · rename_i h
    rw [not_or, not_or, not_le, not_le, Bool.not_eq_true] at h
    have hids : ((selectGroups order AnnotationRow.trace_id max_a_timestamp
        ((tablesOf stored).zipkin_annotations.filter (foundByValue serviceName annotation endTs))).map Prod.fst).Perm
          ((matching stored endTs (.byAnnotated serviceName annotation none)).map Span.traceId).dedup := by
      refine (map_fst_selectGroups _ _ _).trans ((List.perm_ext_iff_of_nodup (List.nodup_dedup _) (List.nodup_dedup _)).2 ?_)
      intro id
      have hfilter : id ∈ ((tablesOf stored).zipkin_annotations.filter (foundByValue serviceName annotation endTs)).map
          AnnotationRow.trace_id ↔
            ∃ r ∈ (tablesOf stored).zipkin_annotations,
              foundByValue serviceName annotation endTs r = true ∧ r.trace_id = id := by
        simp only [List.mem_map, List.mem_filter, and_assoc]
      rw [List.mem_dedup, List.mem_dedup, hfilter, exists_annotationRow, mem_map_matching]
      refine exists_congr fun x => and_congr_right fun _ => and_congr_left fun _ => ?_
      rw [matchesQuery, decide_eq_true h.2.1, h.1, Bool.not_false, Bool.true_and, Bool.true_and, List.any_eq_true]
      rfl
    refine (answers_of_rows hids (.of_eq List.map_take) fun row hrow ts hts => ?_).resolve_left
      fun ⟨_, row, hrow, hnone⟩ => ?_
    · obtain ⟨group, hne, hmem, hvalue⟩ := of_mem_selectGroups (List.mem_of_mem_take hrow)
      have hgreatest := timestamp_of_group stored (foundByValue serviceName annotation endTs) row.1 hne
        (fun r => by rw [hmem, List.mem_filter]) (hvalue ▸ hts)
      simpa only [TimestampOf, foundByValue_annotationRow] using hgreatest
    · obtain ⟨group, hne, -, hvalue⟩ := of_mem_selectGroups (List.mem_of_mem_take hrow)
      exact max_a_timestamp_ne_none hne (hvalue.symm.trans hnone)

/-- The traces that are found have no span without annotations, which has no `created_ts`. -/
def NoneUntimed (stored : List (Span (List UInt8))) (endTs : Int) (q : IdQuery) : Prop :=
  ∀ x ∈ stored, ∀ y ∈ matching stored endTs q, y.traceId = x.traceId → x.annotations ≠ []

theorem firstTimestamp_eq_none_iff {x : Span (List UInt8)} : x.firstTimestamp = none ↔ x.annotations = [] := by
  rw [Span.firstTimestamp, Option.map_eq_none_iff, Span.firstAnnotation, List.head?_eq_none_iff]

/-- The ids for a key and a value. -/
theorem selectDistinct_foundByKey { annotation : String} (serviceName : String) (bytes : List UInt8) (hend : 0 < endTs)
    (hcore : Constants.CoreAnnotations.contains annotation = false) :
    (selectDistinct order (tablesOf stored).zipkin_binary_annotations (foundByKey serviceName annotation bytes endTs)
      BinaryAnnotationRow.trace_id).Perm
        ((matching stored endTs (.byAnnotated serviceName annotation (some bytes))).map Span.traceId).dedup := by
  refine selectDistinct_perm fun id => ?_
  have hfound : ∀ x b, foundByKey serviceName annotation bytes endTs (binaryAnnotationRow x b) =
      (x.firstTimestamp.any (fun ts => decide (ts < endTs)) &&
        (hostName b == serviceName && b.key == annotation && b.value == bytes)) := fun x b => Bool.and_comm _ _
  rw [mem_map_matching]
  simp only [mem_zipkin_binary_annotations, matchesQuery, decide_eq_true hend, hcore, Bool.not_false, Bool.true_and]
  constructor
  · rintro ⟨_, ⟨x, hx, b, hb, rfl⟩, hfoundRow, hid⟩
    rw [hfound, Bool.and_eq_true] at hfoundRow
    exact ⟨x, hx, Bool.and_eq_true _ _ ▸ ⟨hfoundRow.1, List.any_eq_true.2 ⟨b, hb, hfoundRow.2⟩⟩, hid⟩
  · rintro ⟨x, hx, hmatches, hid⟩
    obtain ⟨hfirst, hany⟩ := (Bool.and_eq_true _ _).mp hmatches
    obtain ⟨b, hb, hkey⟩ := List.any_eq_true.1 hany
    exact ⟨_, ⟨x, hx, b, hb, rfl⟩, hfound x b ▸ (Bool.and_eq_true _ _).mpr ⟨hfirst, hkey⟩, hid⟩

theorem exists_zipkin_spans {q : IdQuery} {id : Int64} (h : id ∈ ((matching stored endTs q).map Span.traceId).dedup) :
    ∃ r ∈ (tablesOf stored).zipkin_spans, r.trace_id = id := by
  obtain ⟨x, hx, -, rfl⟩ := (mem_map_matching stored endTs).1 (List.mem_dedup.1 h)
  exact ⟨spanRow x, mem_zipkin_spans.2 ⟨x, hx, rfl⟩, rfl⟩

/-- `created_ts` of a group is that of one of its rows. -/
theorem anyCreatedTs_eq {group : List SpanRow} (hne : group ≠ []) :
    ∃ r ∈ group, anyCreatedTs order group = r.created_ts := by
  have hperm := order.rows_perm group
  cases hrows : order.rows group with
  | nil => exact absurd (List.nil_perm.1 (hrows ▸ hperm)) hne
  | cons r rows =>
    refine ⟨r, hperm.mem_iff.1 (hrows ▸ List.mem_cons_self), ?_⟩
    rw [anyCreatedTs, hrows]
    rfl

/-- A row of the answer has the timestamp of a span of its trace. -/
theorem of_mem_selectGroups_anyCreatedTs {ids : List Int64} {row : Int64 × Option Int}
    (h : row ∈ selectGroups order SpanRow.trace_id (anyCreatedTs order)
      (innerJoin SpanRow.trace_id (tablesOf stored).zipkin_spans ids)) :
    ∃ x ∈ stored, x.traceId = row.1 ∧ row.2 = x.firstTimestamp := by
  obtain ⟨group, hne, hmem, hvalue⟩ := of_mem_selectGroups h
  obtain ⟨r, hr, heq⟩ := anyCreatedTs_eq order hne
  obtain ⟨hr, hid⟩ := (hmem r).1 hr
  obtain ⟨x, hx, rfl⟩ := mem_zipkin_spans.1 (mem_innerJoin.1 hr).1
  exact ⟨x, hx, hid, hvalue.trans heq⟩

theorem getTraceIdsByAnnotation_cases (serviceName annotation : String) (bytes : List UInt8) :
    (AnormSpanStore.getTraceIdsByAnnotation order nullFound (tablesOf stored) serviceName annotation (some bytes) endTs limit =
      .error nullFound ∧ ¬ NoneUntimed stored endTs (.byAnnotated serviceName annotation (some bytes))) ∨ ∃ answer,
        getTraceIdsByAnnotation order nullFound (tablesOf stored) serviceName annotation (some bytes) endTs limit =
          .ok answer ∧ Answers stored endTs limit (.byAnnotated serviceName annotation (some bytes)) answer := by
  unfold getTraceIdsByAnnotation
  split
  · rename_i h
    exact Or.inr ⟨[], rfl, answers_nil (or_assoc.2 h |>.symm.imp_right (matching_eq_nil stored endTs))⟩
  · rename_i h
    rw [not_or, not_or, not_le, not_le, Bool.not_eq_true] at h
    have hids := selectDistinct_foundByKey order stored endTs serviceName bytes h.2.1 h.1
    have hperm := map_fst_joined order SpanRow.trace_id (tablesOf stored).zipkin_spans
      (anyCreatedTs order) (nodup_length_take hids limit.toNat).1
      fun id hid => exists_zipkin_spans stored endTs (hids.mem_iff.1 (List.mem_of_mem_take hid))
    refine (answers_of_rows hids hperm fun row hmem ts hts => ?_).imp_left
      (And.imp_right fun ⟨row, hmem, hnone⟩ htimed => ?_)
    · obtain ⟨x, hx, hid, heq⟩ := of_mem_selectGroups_anyCreatedTs order stored hmem
      exact ⟨x, hx, hid, heq.symm.trans hts⟩
    · obtain ⟨x, hx, hid, heq⟩ := of_mem_selectGroups_anyCreatedTs order stored hmem
      have hfound := hids.mem_iff.1 (List.mem_of_mem_take (hperm.mem_iff.1 (List.mem_map_of_mem (f := Prod.fst) hmem)))
      obtain ⟨y, hy, hyid⟩ := List.mem_map.1 (List.mem_dedup.1 hfound)
      exact htimed x hx y hy (hyid.trans hid.symm) (firstTimestamp_eq_none_iff.1 (heq.symm.trans hnone))

end Queries

end AnormSpanStore
end Zipkin
