import Zipkin.CassandraRepository
/-!
# CassandraTimestamps — the timestamps of the trace ids

The three queries for trace ids read index rows, the latest first, and put each trace id with its timestamp into a
`LinkedHashMap`.  There a key that is put again keeps its place and gets the new value: the order of the answer is that of
the latest rows, and the timestamps are those of the earliest.  A trace has a row for each of its spans, so the two agree
only where all rows of a trace have one timestamp (`mapsToLatest_iff`).
-/
namespace Zipkin
namespace Repository

open Table (LatestFirst OneTimestampEach)

/-- The queries for trace ids, each of its own index. -/
inductive IndexQuery
  | serviceName (serviceName : String)
  | spanName (serviceName spanName : String)
  | annotationKey (annotationKey : List UInt8)

def getTraceIds (k : Keyspace) (endTs limit : Int) : IndexQuery → Except Throwable (List (Int64 × Int))
  | .serviceName serviceName => getTraceIdsByServiceName k serviceName endTs limit
  | .spanName serviceName spanName => getTraceIdsBySpanName k serviceName spanName endTs limit
  | .annotationKey annotationKey => getTraceIdsByAnnotation k annotationKey endTs limit

/-- The rows that the statement of a query returns.  There are none for a name that is refused. -/
def returnedRows (k : Keyspace) (endTs limit : Int) : IndexQuery → List (Int × Int64)
  | .serviceName serviceName =>
    if serviceName = "" then []
    else Table.select (fun p => p.1 == serviceName && decide (p.2 < BUCKETS)) endTs limit.toNat k.service_name_index
  | .spanName serviceName spanName =>
    if serviceName = "" ∨ spanName = "" then []
    else Table.select (fun p => p == serviceName ++ "." ++ spanName) endTs limit.toNat k.service_span_name_index
  | .annotationKey annotationKey =>
    Table.select (fun p => p.1 == annotationKey && decide (p.2 < BUCKETS)) endTs limit.toNat k.annotations_index

/-- If the query is answered, then with the latest timestamps of the rows. -/
def MapsToLatest (k : Keyspace) (endTs limit : Int) (q : IndexQuery) : Prop :=
  ∀ m, getTraceIds k endTs limit q = .ok m → LatestFirst (returnedRows k endTs limit q) m

theorem pairwise_returnedRows (k : Keyspace) (endTs limit : Int) (q : IndexQuery) :
    (returnedRows k endTs limit q).Pairwise (fun a b => b.1 ≤ a.1) := by
  cases q <;> simp only [returnedRows]
  case serviceName s =>
    split
    · exact .nil
    · exact Table.pairwise_select ..
  case spanName s n =>
    split
    · exact .nil
    · exact Table.pairwise_select ..
  case annotationKey a => exact Table.pairwise_select ..

/-- **The three queries are one**: where they are answered, their rows are folded into the map. -/
theorem getTraceIds_eq_ok {k : Keyspace} {endTs limit : Int} {q : IndexQuery} {m : List (Int64 × Int)}
    (h : getTraceIds k endTs limit q = .ok m) : m = traceIdsToTimestamps (returnedRows k endTs limit q) := by
  have hlimit {rows : Nat → List (Int × Int64)} (h : (checkLimit limit rows).map traceIdsToTimestamps = .ok m) :
      m = traceIdsToTimestamps (rows limit.toNat) := by
    unfold checkLimit at h
    split at h
    · exact (Except.ok.inj h).symm
    · cases h
  cases q with
  | serviceName s =>
    simp only [getTraceIds, getTraceIdsByServiceName, illegalArgument, returnedRows] at h ⊢
    split at h
    · cases h
    · rename_i hs
      rw [if_neg hs]
      exact hlimit h
  | spanName s n =>
    simp only [getTraceIds, getTraceIdsBySpanName, illegalArgument, returnedRows] at h ⊢
    split at h
    · cases h
    · split at h
      · cases h
      · rename_i hs hn
        rw [if_neg (not_or.2 ⟨hs, hn⟩)]
        exact hlimit h
  | annotationKey a => exact hlimit h

/-- **An answered query, or no rows.** -/
theorem getTraceIds_ok_or (k : Keyspace) (endTs limit : Int) (q : IndexQuery) :
    (∃ m, getTraceIds k endTs limit q = .ok m) ∨ returnedRows k endTs limit q = [] := by
  have hlimit (rows : Nat → List (Int × Int64)) : (∃ m, (checkLimit limit rows).map traceIdsToTimestamps = .ok m) ∨
      limit.toNat = 0 := by
    unfold checkLimit
    split
    · exact Or.inl ⟨_, rfl⟩
    · exact Or.inr (by omega)
  have hnone {π : Type} (part : π → Bool) (table : List ((π × Int) × Int64)) (h : limit.toNat = 0) :
      Table.select part endTs limit.toNat table = [] := by
    rw [h]; rfl
  cases q with
  | serviceName s =>
    simp only [getTraceIds, getTraceIdsByServiceName, returnedRows]
    split
    · exact Or.inr rfl
    · exact (hlimit _).imp_right (hnone _ _)
  | spanName s n =>
    simp only [getTraceIds, getTraceIdsBySpanName, returnedRows]
    by_cases hs : s = ""
    · rw [if_pos (Or.inl hs)]; exact Or.inr rfl
    · by_cases hn : n = ""
      · rw [if_pos (Or.inr hn)]; exact Or.inr rfl
      · rw [if_neg hs, if_neg hn, if_neg (not_or.2 ⟨hs, hn⟩)]
        exact (hlimit _).imp_right (hnone _ _)
  | annotationKey a =>
    simp only [getTraceIds, getTraceIdsByAnnotation, returnedRows]
    exact (hlimit _).imp_right (hnone _ _)

/-! ## The fold -/

/-- **The map has the earliest timestamp of each trace id.** -/
theorem le_of_mem_traceIdsToTimestamps {rows : List (Int × Int64)} (hrows : rows.Pairwise (fun a b => b.1 ≤ a.1))
    {id : Int64} {ts : Int} (h : (id, ts) ∈ traceIdsToTimestamps rows) :
    (ts, id) ∈ rows ∧ ∀ row ∈ rows, row.2 = id → ts ≤ row.1 := by
  have hperm := AssocMap.putAll_map_perm Prod.snd Prod.fst rows
  obtain ⟨row, hrow, heq⟩ := List.mem_map.1 (hperm.mem_iff.1 h)
  obtain ⟨rfl, rfl⟩ := Prod.mk.inj heq
  obtain ⟨before, after, rfl, -, hafter⟩ := AssocMap.mem_lasts.1 hrow
  refine ⟨by simp, fun row' hrow' hid => ?_⟩
  rcases List.mem_append.1 hrow' with hbefore | hrest
  · exact (List.pairwise_append.1 hrows).2.2 row' hbefore row List.mem_cons_self
  · rcases List.mem_cons.1 hrest with rfl | hmem
    · exact Int.le_refl _
    · exact absurd hid (hafter row' hmem)

theorem exists_mem_traceIdsToTimestamps {rows : List (Int × Int64)} {row : Int × Int64} (h : row ∈ rows) :
    ∃ ts, (row.2, ts) ∈ traceIdsToTimestamps rows := by
  have hkey : row.2 ∈ (traceIdsToTimestamps rows).map Prod.fst :=
    AssocMap.mem_keys_putAll.2 (Or.inl (List.mem_map.2 ⟨row.swap, List.mem_map_of_mem h, rfl⟩))
  obtain ⟨e, he, hid⟩ := List.mem_map.1 hkey
  exact ⟨e.2, hid ▸ he⟩

/-- **When the fold gives the latest timestamps**: exactly if no trace id has two. -/
theorem latestFirst_iff {rows : List (Int × Int64)} (hrows : rows.Pairwise (fun a b => b.1 ≤ a.1)) :
    LatestFirst rows (traceIdsToTimestamps rows) ↔ OneTimestampEach rows := by
  constructor
  · intro h
    -- the timestamp in the map is the latest and the earliest of the trace id
    have hall : ∀ row ∈ rows, (row.2, row.1) ∈ traceIdsToTimestamps rows := fun row hrow => by
      obtain ⟨ts, hts⟩ := exists_mem_traceIdsToTimestamps hrow
      have hle := (le_of_mem_traceIdsToTimestamps hrows hts).2 row hrow rfl
      have hge := ((h.latest row.2 ts).1 hts).2 row hrow rfl
      rwa [Int.le_antisymm hge hle]
    intro row hrow row' hrow' hid
    exact Int.le_antisymm (((h.latest _ _).1 (hall row' hrow')).2 row hrow hid)
      (((h.latest _ _).1 (hall row hrow)).2 row' hrow' hid.symm)
  · intro h
    have hsub : (traceIdsToTimestamps rows).Sublist (rows.map Prod.swap) := by
      refine AssocMap.putAll_sublist (fun e he e' he' hkey => ?_)
      obtain ⟨row, hrow, rfl⟩ := List.mem_map.1 he
      obtain ⟨row', hrow', rfl⟩ := List.mem_map.1 he'
      exact h row hrow row' hrow' hkey
    refine ⟨AssocMap.nodup_keys_putAll_nil _, fun id ts => ⟨fun hmem => ?_, fun hmem => ?_⟩, ?_⟩
    · obtain ⟨hrow, -⟩ := le_of_mem_traceIdsToTimestamps hrows hmem
      exact ⟨hrow, fun row hrow' hid => Int.le_of_eq (h row hrow' _ hrow hid)⟩
    · obtain ⟨ts', hts'⟩ := exists_mem_traceIdsToTimestamps hmem.1
      have heq : ts' = ts := h _ (le_of_mem_traceIdsToTimestamps hrows hts').1 _ hmem.1 rfl
      rwa [← heq]
    · exact (List.pairwise_map.2 hrows).sublist hsub

/-- **When the answers have the latest timestamps**: exactly if no trace id has two timestamps in the returned rows. -/
theorem mapsToLatest_iff (k : Keyspace) (endTs limit : Int) (q : IndexQuery) :
    MapsToLatest k endTs limit q ↔ OneTimestampEach (returnedRows k endTs limit q) := by
  have hrows := pairwise_returnedRows k endTs limit q
  rcases getTraceIds_ok_or k endTs limit q with ⟨m, hm⟩ | hnone
  · have heq := getTraceIds_eq_ok hm
    rw [← latestFirst_iff hrows, ← heq]
    exact ⟨fun h => h m hm, fun h m' hm' => by rwa [Except.ok.inj (hm'.symm.trans hm)]⟩
  · refine iff_of_true (fun m hm => ?_) (fun row hrow => by rw [hnone] at hrow; cases hrow)
    rw [getTraceIds_eq_ok hm]
    exact (latestFirst_iff hrows).2 (fun row hrow => by rw [hnone] at hrow; cases hrow)

/-- Two rows for trace 1, at 20 and at 10, and one for trace 2, at 15. -/
def threeRows : Keyspace :=
  { service_name_index := [((("web", 0), 20), 1), ((("web", 1), 15), 2), ((("web", 2), 10), 1)]
    service_span_name_index := [(("web.get", 20), 1), (("web.get", 15), 2), (("web.get", 10), 1)]
    annotations_index := [((([1], 0), 20), 1), ((([1], 1), 15), 2), ((([1], 2), 10), 1)] }

/-- Trace 1 comes first, with the timestamp 10. -/
theorem not_mapsToLatest_threeRows : ¬ MapsToLatest threeRows 100 10 (.serviceName "web") ∧
    ¬ MapsToLatest threeRows 100 10 (.spanName "web" "get") ∧ ¬ MapsToLatest threeRows 100 10 (.annotationKey [1]) := by
  have hanswer : ∀ q, getTraceIds threeRows 100 10 q = .ok [(1, 10), (2, 15)] → ¬ MapsToLatest threeRows 100 10 q := by
    intro q hq h
    exact absurd (h _ hq).descending (by decide)
  exact ⟨hanswer _ rfl, hanswer _ rfl, hanswer _ rfl⟩

end Repository
end Zipkin
