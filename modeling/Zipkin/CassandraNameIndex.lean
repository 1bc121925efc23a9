import Mathlib.Data.Finset.Dedup
import Mathlib.Data.Finset.Order
import Zipkin.CassandraStored
/-!
# CassandraNameIndex — the index of service and span names

A row of `service_span_name_index` has the text "service.name" and the last timestamp of a span for its key, and the trace
id for its value.  Two traces with the same text and the same timestamp have one row, which the later one has:
`noEntryErased_iff` says when every trace is found all the same.
-/
namespace Zipkin
namespace CassandraSpanStore

open Effect Repository AssocMap

variable {jvm : Jvm} {calls : List (Nat × List (Span (List UInt8)))} {r : Repository} {span : Span (List UInt8)}

/-- The span is indexed under the text at the timestamp. -/
def IndexedAs (jvm : Jvm) (text : String) (ts : Int) (span : Span (List UInt8)) : Prop :=
  span.name ≠ "" ∧ span.lastTimestamp = some ts ∧ ∃ s ∈ serviceNames jvm span, s ++ "." ++ span.name = text

instance (jvm : Jvm) (text : String) (ts : Int) : DecidablePred (IndexedAs jvm text ts) :=
  fun _ => inferInstanceAs (Decidable (_ ∧ _ ∧ _))

/-! ## The rows -/

def nameRows (jvm : Jvm) (span : Span (List UInt8)) : List ((String × Int) × Int64) :=
  (statements jvm span).filterMap (Submission.rowOf Insert.spanNameRow)

theorem mem_nameRows {row : (String × Int) × Int64} :
    row ∈ nameRows jvm span ↔ IndexedAs jvm row.1.1 row.1.2 span ∧ row.2 = span.traceId := by
  rw [nameRows, List.mem_filterMap]
  constructor
  · rintro ⟨submission, hsubmission, hrow⟩
    rcases mem_statements.1 hsubmission with rfl | ⟨last, hlast, ⟨s, hs, rfl | ⟨hname, rfl⟩⟩ | ⟨key, -, rfl⟩⟩
    · cases hrow
    · cases hrow
    · cases hrow
      exact ⟨⟨hname, congrArg (Option.map Annotation.timestamp) hlast, s, hs, rfl⟩, rfl⟩
    · cases hrow
  · obtain ⟨⟨text, ts⟩, id⟩ := row
    rintro ⟨⟨hname, hts, s, hs, rfl⟩, rfl⟩
    obtain ⟨last, hlast, rfl⟩ := Option.map_eq_some_iff.1 hts
    exact ⟨_, mem_statements.2 (Or.inr ⟨last, hlast, Or.inl ⟨s, hs, Or.inr ⟨hname, rfl⟩⟩⟩), rfl⟩

theorem mem_keys_nameRows {key : String × Int} :
    key ∈ (nameRows jvm span).map Prod.fst ↔ IndexedAs jvm key.1 key.2 span := by
  constructor
  · intro h
    obtain ⟨row, hrow, rfl⟩ := List.mem_map.1 h
    exact (mem_nameRows.1 hrow).1
  · exact fun h => List.mem_map.2 ⟨(key, span.traceId), mem_nameRows.2 ⟨h, rfl⟩, rfl⟩

theorem service_span_name_index_eq (hok : exec (applyAll jvm calls) (Repository.empty jvm.toMachine) = (.ok (), r)) :
    r.session.service_span_name_index = putAll ((stored calls).flatMap (nameRows jvm)) [] := by
  refine table_of_applyAll_bound Keyspace.isTable_service_span_name_index (fun i hi => by cases i <;> first | rfl | cases hi)
    (fun span f hf b => ?_) hok
  rcases drawn_of_mem_statements hf with ⟨_, _, _, rfl⟩ | ⟨_, -, _, -, rfl⟩ <;> rfl

/-- **A row is of the last span that is indexed under its key.** -/
theorem mem_service_span_name_index
    (hok : exec (applyAll jvm calls) (Repository.empty jvm.toMachine) = (.ok (), r)) {text : String} {ts : Int}
    {id : Int64} : ((text, ts), id) ∈ r.session.service_span_name_index ↔
      ∃ x, LastWith (IndexedAs jvm text ts) (stored calls) x ∧ x.traceId = id := by
  rw [service_span_name_index_eq hok, mem_putAll_flatMap]
  simp only [mem_keys_nameRows]
  refine exists_congr (fun x => and_congr_right (fun hlast => ?_))
  rw [mem_putAll_of_const (fun e he => (mem_nameRows.1 he).2), mem_nameRows]
  exact ⟨fun h => h.2.symm, fun h => ⟨hlast.prop, h.symm⟩⟩

theorem length_rows_le (hok : exec (applyAll jvm calls) (Repository.empty jvm.toMachine) = (.ok (), r)) (text : String) :
    (r.session.service_span_name_index.filter (fun row => row.1.1 == text)).length ≤ (stored calls).length := by
  have hkeys : (r.session.service_span_name_index.map Prod.fst).Nodup := by
    rw [service_span_name_index_eq hok]
    exact nodup_keys_putAll_nil _
  generalize hrows : r.session.service_span_name_index.filter (fun row => row.1.1 == text) = rows
  have hmem : ∀ row ∈ rows, row ∈ r.session.service_span_name_index ∧ row.1.1 = text := fun row hrow => by
    rw [← hrows, List.mem_filter, beq_iff_eq] at hrow
    exact hrow
  have hnodup : (rows.map (fun row => row.1.2)).Nodup := by
    refine List.Nodup.map_on (fun a ha b hb hab => ?_) (hrows ▸ hkeys.of_map.filter _)
    exact List.inj_on_of_nodup_map hkeys (hmem a ha).1 (hmem b hb).1
      (Prod.ext ((hmem a ha).2.trans (hmem b hb).2.symm) hab)
  have hsub : rows.map (fun row => row.1.2) ⊆ (stored calls).filterMap Span.lastTimestamp := by
    intro ts hts
    obtain ⟨row, hrow, rfl⟩ := List.mem_map.1 hts
    obtain ⟨x, hx, -⟩ := (mem_service_span_name_index hok).1 (hmem row hrow).1
    exact List.mem_filterMap.2 ⟨x, hx.mem, hx.prop.2.1⟩
  have hle := (List.subperm_of_subset hnodup hsub).length_le
  rw [List.length_map] at hle
  exact hle.trans (List.length_filterMap_le _ _)

/-! ## The queries -/

theorem getTraceIdsByName_empty (s : String) (endTs limit : Int) (ids : List IndexedTraceId) :
    getTraceIdsByName r s (some "") endTs limit ≠ .ok ids := by
  simp only [getTraceIdsByName, getTraceIdsBySpanName, illegalArgument, ite_self, if_true]
  exact fun h => by cases h

/-- **A row is found** by a query that goes far enough and asks for as many ids as there are spans. -/
theorem exists_ids_of_row (hok : exec (applyAll jvm calls) (Repository.empty jvm.toMachine) = (.ok (), r)) {s n : String}
    (hs : s ≠ "") (hn : n ≠ "") {ts endTs limit : Int} {id : Int64}
    (hrow : ((s ++ "." ++ n, ts), id) ∈ r.session.service_span_name_index) (hend : ts ≤ endTs)
    (hlimit : ((stored calls).length : Int) ≤ limit) :
    ∃ ids, getTraceIdsByName r s (some n) endTs limit = .ok ids ∧ id ∈ ids.map IndexedTraceId.traceId := by
  obtain ⟨x, hx, -⟩ := (mem_service_span_name_index hok).1 hrow
  have hpos := List.length_pos_of_mem hx.mem
  refine ⟨_, getTraceIdsByName_eq hs hn endTs (by omega), ?_⟩
  rw [map_traceId_indexedTraceIds, mem_traceIdsToTimestamps]
  have hfound : (ts, id) ∈ Table.select (fun p => p == s ++ "." ++ n) endTs limit.toNat
      r.session.service_span_name_index :=
    Table.mem_select_of_le hrow (beq_self_eq_true _) hend ((length_rows_le hok _).trans (by omega))
  exact List.mem_map.2 ⟨_, hfound, rfl⟩

/-! ## Every trace is found -/

/-- The trace of each stored span is found under each service of the span and its name, by a query that goes far enough
and asks for as many ids as there are spans. -/
def NoEntryErased (jvm : Jvm) (calls : List (Nat × List (Span (List UInt8)))) (r : Repository) : Prop :=
  ∀ (s n : String) (endTs limit : Int), (∀ x ∈ stored calls, ∀ ts ∈ x.lastTimestamp, ts ≤ endTs) →
    ((stored calls).length : Int) ≤ limit → ∀ x ∈ stored calls, s ∈ serviceNames jvm x → x.name = n →
    ∃ ids, getTraceIdsByName r s (some n) endTs limit = .ok ids ∧ x.traceId ∈ ids.map IndexedTraceId.traceId

theorem exists_endTs (spans : List (Span (List UInt8))) : ∃ endTs, ∀ x ∈ spans, ∀ ts ∈ x.lastTimestamp, ts ≤ endTs := by
  obtain ⟨endTs, h⟩ := (spans.filterMap Span.lastTimestamp).toFinset.exists_le
  exact ⟨endTs, fun x hx ts hts => h ts (List.mem_toFinset.2 (List.mem_filterMap.2 ⟨x, hx, hts⟩))⟩

/-- **When no trace is erased**: every span with a service has a name, and each of its texts has, at some timestamp, a
last span that is of the same trace. -/
theorem noEntryErased_iff (hok : exec (applyAll jvm calls) (Repository.empty jvm.toMachine) = (.ok (), r)) :
    NoEntryErased jvm calls r ↔ ∀ x ∈ stored calls, ∀ s ∈ serviceNames jvm x, x.name ≠ "" ∧
      ∃ ts y, LastWith (IndexedAs jvm (s ++ "." ++ x.name) ts) (stored calls) y ∧ y.traceId = x.traceId := by
  constructor
  · intro hall x hx s hs
    obtain ⟨endTs, hend⟩ := exists_endTs (stored calls)
    obtain ⟨ids, hids, hid⟩ := hall s x.name endTs _ hend (Int.le_refl _) x hx hs rfl
    refine ⟨fun hname => ?_, ?_⟩
    · rw [hname] at hids
      exact getTraceIdsByName_empty s endTs _ ids hids
    · obtain ⟨ts, hrow⟩ := exists_row_of_mem_ids hids hid
      exact ⟨ts, (mem_service_span_name_index hok).1 hrow⟩
  · rintro hlast s n endTs limit hend hlimit x hx hs rfl
    obtain ⟨hname, ts, y, hy, hid⟩ := hlast x hx s hs
    have hrow := (mem_service_span_name_index hok).2 ⟨y, hy, hid⟩
    exact exists_ids_of_row hok (ne_empty_of_applyAll hok hx hs) hname hrow (hend y hy.mem ts hy.prop.2.1) hlimit

def sampleRun (calls : List (Nat × List (Span (List UInt8)))) : Except Throwable Unit × Repository :=
  exec (applyAll sampleJvm calls) (Repository.empty sampleJvm.toMachine)

theorem sampleRun_eq {calls : List (Nat × List (Span (List UInt8)))} (h : (sampleRun calls).1 = .ok ()) :
    exec (applyAll sampleJvm calls) (Repository.empty sampleJvm.toMachine) = (.ok (), (sampleRun calls).2) := by
  rw [← h]
  rfl

def spanOf (traceId : Int64) (service : String) : Span (List UInt8) :=
  .apply traceId "get" traceId none [⟨1, "sr", some ⟨0, 80, service⟩⟩] []

def twoServices : List (Nat × List (Span (List UInt8))) := [(0, [spanOf 1 "web"]), (1, [spanOf 2 "db"])]

def twoTraces : List (Nat × List (Span (List UInt8))) := [(0, [spanOf 1 "web"]), (1, [spanOf 2 "web"])]

/-- Two traces of two services are both found. -/
theorem noEntryErased_twoServices : NoEntryErased sampleJvm twoServices (sampleRun twoServices).2 := by
  refine (noEntryErased_iff (sampleRun_eq (by decide +kernel))).2 ?_
  have hweb : LastWith (IndexedAs sampleJvm ("web" ++ "." ++ (spanOf 1 "web").name) 1) (stored twoServices)
      (spanOf 1 "web") :=
    ⟨[], [spanOf 2 "db"], rfl, by decide +kernel, by decide +kernel⟩
  have hdb : LastWith (IndexedAs sampleJvm ("db" ++ "." ++ (spanOf 2 "db").name) 1) (stored twoServices)
      (spanOf 2 "db") :=
    ⟨[spanOf 1 "web"], [], rfl, by decide +kernel, by decide +kernel⟩
  have hservices : serviceNames sampleJvm (spanOf 1 "web") = ["web"] ∧ serviceNames sampleJvm (spanOf 2 "db") = ["db"] := by
    decide +kernel
  intro x hx s hs
  rcases List.mem_pair.1 hx with rfl | rfl
  · rw [hservices.1, List.mem_singleton] at hs
    subst hs
    exact ⟨by decide, 1, _, hweb, rfl⟩
  · rw [hservices.2, List.mem_singleton] at hs
    subst hs
    exact ⟨by decide, 1, _, hdb, rfl⟩

/-- Two traces of one service with the same name and timestamp: both are stored, and the first is not found. -/
theorem not_noEntryErased_twoTraces : ∃ r,
    exec (applyAll sampleJvm twoTraces) (Repository.empty sampleJvm.toMachine) = (.ok (), r) ∧
      ¬ NoEntryErased sampleJvm twoTraces r := by
  refine ⟨_, sampleRun_eq (by decide +kernel), fun h => ?_⟩
  have hend : ∀ x ∈ stored twoTraces, ∀ ts ∈ x.lastTimestamp, ts ≤ 1 := by decide +kernel
  have hlimit : ((stored twoTraces).length : Int) ≤ 2 := by decide
  have hmem : spanOf 1 "web" ∈ stored twoTraces := List.mem_cons_self
  have hweb : "web" ∈ serviceNames sampleJvm (spanOf 1 "web") := by decide +kernel
  obtain ⟨ids, hids, hid⟩ := h "web" "get" 1 2 hend hlimit _ hmem hweb rfl
  have hfound : getTraceIdsByName (sampleRun twoTraces).2 "web" (some "get") 1 2 = .ok [⟨2, 1⟩] := by decide +kernel
  rw [hfound] at hids
  cases hids
  revert hid
  decide

end CassandraSpanStore
end Zipkin
