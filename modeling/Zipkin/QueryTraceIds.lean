import Mathlib.Data.List.Dedup
import Mathlib.Data.List.Lattice
import Zipkin.Libs
import Zipkin.SpanStore
/-!
# QueryTraceIds — the trace ids that match a request

`QueryTraceIds.scala`.  A request with several conditions is answered in two rounds.  The first asks the store for one
entry of each condition; one minute after the earliest timestamp among these is the end of the second, which asks for all
entries of each condition and keeps the ids that all of them have.
-/
namespace Zipkin

structure QueryRequest where
  serviceName : String
  spanName : Option String
  annotations : Option (List String)
  binaryAnnotations : Option (List (String × String))
  endTs : Int
  limit : Int
  adjustClockSkew : Bool := true
deriving DecidableEq, Repr

inductive SliceQuery where
  | spanSliceQuery (name : String)
  | annotationSliceQuery (key : String) (value : Option (List UInt8))
deriving DecidableEq, Repr

/-- The order in which the keys of a `groupBy` come: any rearrangement. -/
structure KeyOrder where
  keys : List Int64 → List Int64
  keys_perm : ∀ l, (keys l).Perm l

def KeyOrder.insertion : KeyOrder := ⟨fun l => l, fun l => .refl l⟩

namespace QueryTraceIds

variable {κ : Type} (order : KeyOrder) (spanStore : SpanStore κ) (qr : QueryRequest)

def TraceTimestampPadding : Int := 60 * 1000000

def padTimestamp (timestamp : Int) : Int := wrap64 (timestamp + TraceTimestampPadding)

def sliceQueries : List SliceQuery :=
  (qr.spanName.map (fun n => [SliceQuery.spanSliceQuery n])).getD [] ++
  (qr.annotations.map (fun l => l.map (fun a => SliceQuery.annotationSliceQuery a none))).getD [] ++
  (qr.binaryAnnotations.map
    (fun l => l.map (fun e => SliceQuery.annotationSliceQuery e.1 (some (getBytesUtf8 e.2))))).getD []

def querySlice (endTs limit : Int) : SliceQuery → List IndexedTraceId
  | .spanSliceQuery name => spanStore.getTraceIdsByName qr.serviceName (some name) endTs limit
  | .annotationSliceQuery key value => spanStore.getTraceIdsByAnnotation qr.serviceName key value endTs limit

def querySlices (endTs limit : Int) : List (List IndexedTraceId) :=
  (sliceQueries qr).map (querySlice spanStore qr endTs limit)

/-- The keys of `groupBy(_.traceId)`. -/
def groupKeys (ids : List IndexedTraceId) : List Int64 := order.keys (ids.map IndexedTraceId.traceId).dedup

/-- The ids that all have, each with its latest timestamp. -/
def traceIdsIntersect : List (List IndexedTraceId) → List IndexedTraceId
  | [] => []
  | ids :: idSeqs =>
    let commonTraceIds := (idSeqs.map (groupKeys order)).foldl List.bagInter (groupKeys order ids)
    commonTraceIds.map (fun id => ⟨id, ((((ids :: idSeqs).flatMap (fun l => l.filter (fun e => e.traceId == id))).map
      IndexedTraceId.timestamp).max?).getD 0⟩)

def queryResponse (ids : List IndexedTraceId) : List Int64 := (ids.take qr.limit.toNat).map IndexedTraceId.traceId

/-- The end of the second round: one minute after the earliest timestamp of the first. -/
def paddedEndTs : Int :=
  padTimestamp ((((querySlices spanStore qr qr.endTs 1).flatMap (fun l => l.map IndexedTraceId.timestamp)).min?).getD 0)

def apply : List Int64 :=
  match sliceQueries qr with
  | [] => queryResponse qr (spanStore.getTraceIdsByName qr.serviceName none qr.endTs qr.limit)
  | [_] => queryResponse qr (querySlices spanStore qr qr.endTs qr.limit).flatten
  | _ => queryResponse qr (traceIdsIntersect order (querySlices spanStore qr (paddedEndTs spanStore qr) qr.limit))

/-! ## The intersection -/

theorem mem_groupKeys {ids : List IndexedTraceId} {id : Int64} :
    id ∈ groupKeys order ids ↔ id ∈ ids.map IndexedTraceId.traceId := by
  rw [groupKeys, (order.keys_perm _).mem_iff, List.mem_dedup]

theorem nodup_groupKeys (ids : List IndexedTraceId) : (groupKeys order ids).Nodup :=
  (order.keys_perm _).nodup_iff.2 (List.nodup_dedup _)

theorem mem_foldl_bagInter {id : Int64} {ls : List (List Int64)} : ∀ {l : List Int64},
    id ∈ ls.foldl List.bagInter l ↔ id ∈ l ∧ ∀ l' ∈ ls, id ∈ l' := by
  induction ls with
  | nil => intro l; simp
  | cons l' ls ih => intro l; rw [List.foldl_cons, ih, List.mem_bagInter, List.forall_mem_cons, and_assoc]

theorem nodup_foldl_bagInter {ls : List (List Int64)} : ∀ {l : List Int64}, l.Nodup →
    (ls.foldl List.bagInter l).Nodup := by
  induction ls with
  | nil => exact fun h => h
  | cons l' ls ih => exact fun h => ih (h.sublist List.bagInter_sublist_left)

theorem bagInter_eq_filter {l : List Int64} : ∀ {l' : List Int64}, l.Nodup →
    l.bagInter l' = l.filter (fun id => decide (id ∈ l')) := by
  induction l with
  | nil => exact fun _ => List.nil_bagInter _
  | cons a l ih =>
    intro l' hnd
    obtain ⟨ha, hnd⟩ := List.nodup_cons.1 hnd
    by_cases hmem : a ∈ l'
    · -- the other ids are not the one that is taken out
      have herase : ∀ id ∈ l, decide (id ∈ l'.erase a) = decide (id ∈ l') := fun id hid => by
        have hne : id ≠ a := fun h => ha (h ▸ hid)
        exact decide_eq_decide.2 (List.mem_erase_of_ne hne)
      rw [List.cons_bagInter_of_mem _ hmem, ih hnd, List.filter_congr herase, List.filter_cons,
        if_pos (decide_eq_true hmem)]
    · rw [List.cons_bagInter_of_not_mem _ hmem, ih hnd, List.filter_cons, if_neg (by rwa [decide_eq_true_iff])]

theorem foldl_bagInter_eq_filter {ls : List (List Int64)} : ∀ {l : List Int64}, l.Nodup →
    ls.foldl List.bagInter l = l.filter (fun id => decide (∀ l' ∈ ls, id ∈ l')) := by
  induction ls with
  | nil => exact fun _ => (List.filter_eq_self.2 (fun _ _ => by simp)).symm
  | cons l' ls ih =>
    intro l hnd
    rw [List.foldl_cons, ih (hnd.sublist List.bagInter_sublist_left), bagInter_eq_filter hnd, List.filter_filter]
    refine List.filter_congr (fun id _ => ?_)
    rw [Bool.eq_iff_iff]
    simp only [Bool.and_eq_true, decide_eq_true_iff, List.forall_mem_cons]
    exact and_comm

/-- **The intersection has the ids that every list has**, each once. -/
theorem mem_traceIdsIntersect {idSeqs : List (List IndexedTraceId)} (hne : idSeqs ≠ []) {id : Int64} :
    id ∈ (traceIdsIntersect order idSeqs).map IndexedTraceId.traceId ↔
      ∀ l ∈ idSeqs, id ∈ l.map IndexedTraceId.traceId := by
  cases idSeqs with
  | nil => exact absurd rfl hne
  | cons ids idSeqs =>
    have hids : (traceIdsIntersect order (ids :: idSeqs)).map IndexedTraceId.traceId =
        (idSeqs.map (groupKeys order)).foldl List.bagInter (groupKeys order ids) := by
      rw [traceIdsIntersect, List.map_map]
      exact List.map_id _
    rw [hids, mem_foldl_bagInter, List.forall_mem_map, mem_groupKeys, List.forall_mem_cons]
    simp only [mem_groupKeys]

theorem nodup_traceIdsIntersect (idSeqs : List (List IndexedTraceId)) :
    ((traceIdsIntersect order idSeqs).map IndexedTraceId.traceId).Nodup := by
  cases idSeqs with
  | nil => exact List.nodup_nil
  | cons ids idSeqs =>
    rw [traceIdsIntersect, List.map_map]
    exact (List.map_id _).symm ▸ nodup_foldl_bagInter (nodup_groupKeys order ids)

theorem mem_querySlices {endTs limit : Int} {l : List IndexedTraceId} :
    l ∈ querySlices spanStore qr endTs limit ↔ ∃ c ∈ sliceQueries qr, querySlice spanStore qr endTs limit c = l :=
  List.mem_map

theorem querySlices_ne_nil (endTs limit : Int)
    (h : 2 ≤ (sliceQueries qr).length) : querySlices spanStore qr endTs limit ≠ [] := by
  intro hnil
  rw [querySlices, List.map_eq_nil_iff] at hnil
  rw [hnil] at h
  exact absurd h (by decide)

/-- **Two conditions or more**: what the second round leaves is cut to the limit. -/
theorem apply_of_two_le (h : 2 ≤ (sliceQueries qr).length) : apply order spanStore qr =
    queryResponse qr (traceIdsIntersect order (querySlices spanStore qr (paddedEndTs spanStore qr) qr.limit)) := by
  unfold apply
  split
  · rename_i heq; rw [heq] at h; exact absurd h (by simp)
  · rename_i heq; rw [heq] at h; exact absurd h (by simp)
  · rfl

theorem forall_of_mem_apply (h : 2 ≤ (sliceQueries qr).length) {id : Int64} (hid : id ∈ apply order spanStore qr) :
    ∀ c ∈ sliceQueries qr,
      id ∈ (querySlice spanStore qr (paddedEndTs spanStore qr) qr.limit c).map IndexedTraceId.traceId := by
  rw [apply_of_two_le order spanStore qr h, queryResponse, List.map_take] at hid
  have hmem := (mem_traceIdsIntersect order (querySlices_ne_nil spanStore qr _ _ h)).1 (List.mem_of_mem_take hid)
  exact fun c hc => hmem _ ((mem_querySlices spanStore qr).2 ⟨c, hc, rfl⟩)

end QueryTraceIds
end Zipkin
