import Zipkin.QueryTraceIds
/-!
# QueryInMemory — what a request with several conditions finds in the store in memory

For each condition a span of the store has a timestamp from which on it is found (`due`).  Both rounds of the request are
told by it: the first takes the first stored span of each condition, wherever that stands in time, and the second finds
what is due a minute after the earliest of these.  `exactIntersection_iff` says when that end makes no difference.
-/
namespace Zipkin
namespace QueryTraceIds

variable {κ : Type} (toLowerCase : String → String) (heap : κ → ByteBuffer)

/-- The timestamp from which on the store finds a span for a condition, if it ever does. -/
def due (serviceName : String) (span : Span κ) : SliceQuery → Option Int
  | .spanSliceQuery name =>
    if (span.serviceNames toLowerCase).any (fun s => toLowerCase s == toLowerCase serviceName) &&
        toLowerCase span.name == toLowerCase name then span.lastTimestamp
    else none
  | .annotationSliceQuery key value =>
    if !Constants.CoreAnnotations.contains key &&
        (span.serviceNames toLowerCase).any (fun s => toLowerCase s == toLowerCase serviceName) then
      match value with
      | some v =>
        if span.binaryAnnotations.any (fun ba => ba.key == key && (heap ba.value).bytes == v) then span.lastTimestamp
        else none
      | none => if span.annotations.any (fun a => a.value == key) then span.firstTimestamp else none
    else none

/-- The span is found for the condition, with this end. -/
def found (serviceName : String) (endTs : Int) (c : SliceQuery) (span : Span κ) : Bool :=
  (due toLowerCase heap serviceName span c).any (fun ts => decide (ts ≤ endTs))

theorem any_ite (b : Bool) (o : Option Int) (p : Int → Bool) : (if b then o else none).any p = (b && o.any p) := by
  cases b <;> rfl

variable (store : SpanBuffer κ) (qr : QueryRequest)

/-- **A query of the store**: the spans that are found, as many as are asked for. -/
theorem querySlice_inMemory (endTs limit : Int) (c : SliceQuery) :
    querySlice (store.toSpanStore toLowerCase heap) qr endTs limit c =
      ((store.filter (found toLowerCase heap qr.serviceName endTs c)).take limit.toNat).map
        InMemorySpanStore.indexed := by
  cases c with
  | spanSliceQuery name =>
    have hfound : found toLowerCase heap qr.serviceName endTs (.spanSliceQuery name) =
        SpanBuffer.matchesName toLowerCase qr.serviceName (some name) endTs := funext fun span => any_ite _ _ _
    rw [hfound]
    exact SpanBuffer.getTraceIdsByName_eq toLowerCase store qr.serviceName (some name) endTs limit
  | annotationSliceQuery key value =>
    have hfound : found toLowerCase heap qr.serviceName endTs (.annotationSliceQuery key value) =
        SpanBuffer.matchesAnnotation toLowerCase heap qr.serviceName key value endTs := funext fun span => by
      cases value with
      | some v => exact (any_ite _ _ _).trans (congrArg _ (any_ite _ _ _))
      | none => exact (any_ite _ _ _).trans (congrArg _ (any_ite _ _ _))
    rw [hfound]
    exact SpanBuffer.getTraceIdsByAnnotation_eq toLowerCase heap store qr.serviceName key value endTs limit

/-- The trace has a span that is due for the condition by an end. -/
def Matched (id : Int64) (endTs : Int) (c : SliceQuery) : Prop :=
  ∃ s ∈ store, s.traceId = id ∧ ∃ ts, due toLowerCase heap qr.serviceName s c = some ts ∧ ts ≤ endTs

theorem found_iff {serviceName : String} {endTs : Int} {c : SliceQuery} {s : Span κ} :
    found toLowerCase heap serviceName endTs c s = true ↔
      ∃ ts, due toLowerCase heap serviceName s c = some ts ∧ ts ≤ endTs := by
  rw [found, Option.any_eq_true]
  simp only [decide_eq_true_eq]

theorem Matched.mono {id : Int64} {endTs endTs' : Int} {c : SliceQuery}
    (h : Matched toLowerCase heap store qr id endTs c) (hle : endTs ≤ endTs') :
    Matched toLowerCase heap store qr id endTs' c := by
  obtain ⟨s, hs, hid, ts, hts, hend⟩ := h
  exact ⟨s, hs, hid, ts, hts, Int.le_trans hend hle⟩

/-- **With a limit that no query reaches**, the store returns the traces that match. -/
theorem mem_querySlice_inMemory {endTs limit : Int} (hlimit : store.length ≤ limit) {c : SliceQuery} {id : Int64} :
    id ∈ (querySlice (store.toSpanStore toLowerCase heap) qr endTs limit c).map IndexedTraceId.traceId ↔
      Matched toLowerCase heap store qr id endTs c := by
  have hlen : (store.filter (found toLowerCase heap qr.serviceName endTs c)).length ≤ limit.toNat := by
    have := List.length_filter_le (found toLowerCase heap qr.serviceName endTs c) store
    omega
  rw [querySlice_inMemory, List.take_of_length_le hlen, List.map_map, List.mem_map]
  simp only [List.mem_filter, found_iff, Matched, Function.comp_apply, InMemorySpanStore.indexed]
  constructor
  · rintro ⟨s, ⟨hs, hdue⟩, hid⟩; exact ⟨s, hs, hid, hdue⟩
  · rintro ⟨s, hs, hid, hdue⟩; exact ⟨s, ⟨hs, hdue⟩, hid⟩

/-- One minute after the earliest last timestamp of the spans that are stored first for each condition, up to the end of
the request. -/
def firstStoredEnd : Int :=
  padTimestamp ((((sliceQueries qr).filterMap (fun c =>
    (store.find? (found toLowerCase heap qr.serviceName qr.endTs c)).map
      (fun s => s.lastTimestamp.getD 0))).min?).getD 0)

/-- **The first round takes the span that is stored first** for each condition. -/
theorem paddedEndTs_inMemory :
    paddedEndTs (store.toSpanStore toLowerCase heap) qr = firstStoredEnd toLowerCase heap store qr := by
  rw [paddedEndTs, firstStoredEnd, List.filterMap_eq_flatMap_toList, querySlices, List.flatMap_map]
  refine congrArg (fun l => padTimestamp ((List.min? l).getD 0)) (List.flatMap_congr (fun c _ => ?_))
  rw [querySlice_inMemory, List.map_map, Int.toNat_one, List.take_one, List.head?_filter]
  cases store.find? (found toLowerCase heap qr.serviceName qr.endTs c) <;> rfl

/-- The result is the intersection of what the store returns for each condition alone. -/
def ExactIntersection (order : KeyOrder) : Prop :=
  ∀ id, id ∈ apply order (store.toSpanStore toLowerCase heap) qr ↔ ∀ c ∈ sliceQueries qr,
    id ∈ (querySlice (store.toSpanStore toLowerCase heap) qr qr.endTs qr.limit c).map IndexedTraceId.traceId

/-- **What is returned**: the traces that match every condition by the end of the second round. -/
theorem mem_apply_inMemory (order : KeyOrder) (hlen : 2 ≤ (sliceQueries qr).length)
    (hlimit : store.length ≤ qr.limit) {id : Int64} :
    id ∈ apply order (store.toSpanStore toLowerCase heap) qr ↔ ∀ c ∈ sliceQueries qr,
      Matched toLowerCase heap store qr id (firstStoredEnd toLowerCase heap store qr) c := by
  rw [apply_of_two_le order _ qr hlen, paddedEndTs_inMemory, queryResponse, List.map_take]
  let slices := querySlices (store.toSpanStore toLowerCase heap) qr (firstStoredEnd toLowerCase heap store qr) qr.limit
  have hne : slices ≠ [] := by
    intro hnil
    rw [List.map_eq_nil_iff.1 hnil] at hlen
    exact absurd hlen (by simp)
  have hall : ∀ id, id ∈ (traceIdsIntersect order slices).map IndexedTraceId.traceId ↔ ∀ c ∈ sliceQueries qr,
      Matched toLowerCase heap store qr id (firstStoredEnd toLowerCase heap store qr) c := by
    intro id
    rw [mem_traceIdsIntersect order hne]
    refine List.forall_mem_map.trans ?_
    simp only [mem_querySlice_inMemory toLowerCase heap store qr hlimit]
  -- the ids are of stored spans, each once: they are no more than the limit
  have hcut : ((traceIdsIntersect order slices).map IndexedTraceId.traceId).length ≤ qr.limit.toNat := by
    have hsub : (traceIdsIntersect order slices).map IndexedTraceId.traceId ⊆ store.map Span.traceId := by
      intro id hid
      obtain ⟨c, hc⟩ := List.exists_mem_of_ne_nil _ (List.ne_nil_of_length_pos (Nat.lt_of_lt_of_le (by decide) hlen))
      obtain ⟨s, hs, hsid, -⟩ := (hall id).1 hid c hc
      exact List.mem_map.2 ⟨s, hs, hsid⟩
    have hle := (List.subperm_of_subset (nodup_traceIdsIntersect order slices) hsub).length_le
    rw [List.length_map (f := Span.traceId)] at hle
    omega
  rw [List.take_of_length_le hcut, hall]

/-- **When the second round misses nothing and finds nothing else**: exactly when no trace comes to match all conditions
between its end and the end of the request. -/
theorem exactIntersection_iff (order : KeyOrder) (hlen : 2 ≤ (sliceQueries qr).length)
    (hlimit : store.length ≤ qr.limit) :
    ExactIntersection toLowerCase heap store qr order ↔ ∀ id,
      (∀ c ∈ sliceQueries qr, Matched toLowerCase heap store qr id
        (max qr.endTs (firstStoredEnd toLowerCase heap store qr)) c) →
      ∀ c ∈ sliceQueries qr, Matched toLowerCase heap store qr id
        (min qr.endTs (firstStoredEnd toLowerCase heap store qr)) c := by
  unfold ExactIntersection
  simp only [mem_apply_inMemory toLowerCase heap store qr order hlen hlimit,
    mem_querySlice_inMemory toLowerCase heap store qr hlimit]
  rcases Int.le_total qr.endTs (firstStoredEnd toLowerCase heap store qr) with hle | hle
  · rw [max_eq_right hle, min_eq_left hle]
    exact ⟨fun h id => (h id).1, fun h id => ⟨h id, fun hm c hc => (hm c hc).mono _ _ _ _ hle⟩⟩
  · rw [max_eq_left hle, min_eq_right hle]
    exact ⟨fun h id => (h id).2, fun h id => ⟨fun hm c hc => (hm c hc).mono _ _ _ _ hle, h id⟩⟩

/-- Two traces, a span each, with the same name and annotation. -/
def traceAt (id : Int64) (timestamp : Int) : Span Unit :=
  Span.apply id "get" id none [⟨timestamp, "error", some ⟨10, 80, "web"⟩⟩] []

/-- One trace, at 0 s. -/
theorem exactIntersection_oneTrace : ExactIntersection (fun s => s) (fun _ => .wrap []) [traceAt 1 0]
    ⟨"web", some "get", some ["error"], none, 200000000, 10, true⟩ .insertion := by
  refine (exactIntersection_iff _ _ _ _ _ (by decide) (by decide)).2 (fun id h c hc => ?_)
  obtain ⟨s, hs, hid, ts, hts, -⟩ := h c hc
  refine ⟨s, hs, hid, ts, hts, ?_⟩
  rw [List.mem_singleton.1 hs] at hts
  have hzero : ∀ c ∈ sliceQueries ⟨"web", some "get", some ["error"], none, 200000000, 10, true⟩,
      due (fun s => s) (fun _ => ByteBuffer.wrap []) "web" (traceAt 1 0) c = some 0 := by decide
  rw [hzero c hc] at hts
  rw [← Option.some.inj hts]
  decide

/-- With a second trace at 100 s: both match by the end of the request, at 200 s, and only the first is returned. -/
theorem not_exactIntersection_twoTraces :
    ¬ ExactIntersection (fun s => s) (fun _ => .wrap []) [traceAt 1 0, traceAt 2 100000000]
      ⟨"web", some "get", some ["error"], none, 200000000, 10, true⟩ .insertion := by
  intro h
  have hmissed := (h 2).2 (by decide)
  revert hmissed
  decide

end QueryTraceIds
end Zipkin
