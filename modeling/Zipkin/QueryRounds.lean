import Mathlib.Data.Set.Card
import Zipkin.Base.AssocMap
import Zipkin.QueryTraceIds
/-!
# QueryRounds — the two rounds with what they could throw

`traceIdsIntersect` takes the head and the tail of the answers, looks every common id up in the maps of all answers and takes
the latest of the timestamps there.  Each of these throws where there is nothing to take.  With two conditions or more there
always is (`traceIdsIntersect_eq_ok`), whatever the store answers in each round.
-/
namespace Zipkin
namespace QueryTraceIds

variable {κ : Type} (order : KeyOrder) (first second : SpanStore κ) (qr : QueryRequest)

namespace Throwing

def tail {α : Type} : List α → Except Throwable (List α)
  | [] => .error ⟨"UnsupportedOperationException", "empty.tail"⟩
  | _ :: l => .ok l

/-- `l(0)` -/
def head {α : Type} : List α → Except Throwable α
  | [] => .error ⟨"IndexOutOfBoundsException", "0"⟩
  | a :: _ => .ok a

def max (l : List Int) : Except Throwable Int :=
  match l.max? with
  | some m => .ok m
  | none => .error ⟨"UnsupportedOperationException", "empty.max"⟩

/-- `groupBy(_.traceId)` -/
def idMap (ids : List IndexedTraceId) : List (Int64 × List IndexedTraceId) :=
  (groupKeys order ids).map fun id => (id, ids.filter fun e => e.traceId == id)

/-- `idMap(id)` -/
def lookup (idMap : List (Int64 × List IndexedTraceId)) (id : Int64) : Except Throwable (List IndexedTraceId) :=
  match idMap.lookup id with
  | some ids => .ok ids
  | none => .error ⟨"NoSuchElementException", s!"key not found: {id}"⟩

/-- An id with its latest timestamp. -/
def latest (idMaps : List (List (Int64 × List IndexedTraceId))) (id : Int64) : Except Throwable IndexedTraceId := do
  let timestamps ← idMaps.mapM fun m => (lookup m id).map fun ids => ids.map IndexedTraceId.timestamp
  return ⟨id, ← max timestamps.flatten⟩

def traceIdsIntersect (idSeqs : List (List IndexedTraceId)) : Except Throwable (List IndexedTraceId) := do
  let idMaps := idSeqs.map (idMap order)
  let traceIds := idMaps.map fun m => m.map Prod.fst
  let commonTraceIds := (← tail traceIds).foldl List.bagInter (← head traceIds)
  commonTraceIds.mapM (latest idMaps)

/-- The answers of the store may differ between the rounds. -/
def apply : Except Throwable (List Int64) :=
  match sliceQueries qr with
  | [] => .ok (queryResponse qr (first.getTraceIdsByName qr.serviceName none qr.endTs qr.limit))
  | [_] => .ok (queryResponse qr (querySlices first qr qr.endTs qr.limit).flatten)
  | _ => do return queryResponse qr (← traceIdsIntersect order (querySlices second qr (paddedEndTs first qr) qr.limit))

variable {order}

/-! ## What is there to take -/

theorem map_fst_idMap (ids : List IndexedTraceId) : (idMap order ids).map Prod.fst = groupKeys order ids := by
  rw [idMap, List.map_map]
  exact List.map_id _

/-- **A lookup of an id that an answer has.** -/
theorem lookup_idMap {ids : List IndexedTraceId} {id : Int64} (h : id ∈ groupKeys order ids) :
    lookup (idMap order ids) id = .ok (ids.filter fun e => e.traceId == id) := by
  have hmem : (id, ids.filter fun e => e.traceId == id) ∈ idMap order ids := List.mem_map_of_mem h
  have hkeys : ((idMap order ids).map Prod.fst).Nodup := by rw [map_fst_idMap]; exact nodup_groupKeys order ids
  rw [lookup, AssocMap.lookup_of_mem hkeys hmem]

theorem max_eq_ok {l : List Int} (h : l ≠ []) : max l = .ok (l.max?.getD 0) := by
  unfold max
  cases hmax : l.max? with
  | none => exact absurd (List.max?_eq_none_iff.1 hmax) h
  | some m => rfl

theorem latest_eq_ok {idSeqs : List (List IndexedTraceId)} {id : Int64} (hne : idSeqs ≠ [])
    (h : ∀ l ∈ idSeqs, id ∈ groupKeys order l) : latest (idSeqs.map (idMap order)) id =
      .ok ⟨id, (((idSeqs.flatMap fun l => l.filter fun e => e.traceId == id).map IndexedTraceId.timestamp).max?).getD 0⟩ := by
  have hlookups : (idSeqs.map (idMap order)).mapM (fun m => (lookup m id).map fun ids => ids.map IndexedTraceId.timestamp) =
      .ok (idSeqs.map fun l => (l.filter fun e => e.traceId == id).map IndexedTraceId.timestamp) :=
    Effect.mapM_map_eq_ok (fun l hl => by rw [lookup_idMap (h l hl)]; rfl)
  have hflatten : (idSeqs.map fun l => (l.filter fun e => e.traceId == id).map IndexedTraceId.timestamp).flatten =
      (idSeqs.flatMap fun l => l.filter fun e => e.traceId == id).map IndexedTraceId.timestamp := by
    rw [List.map_flatMap]
    rfl
  -- an answer that has the id has an entry for it
  have hentry : (idSeqs.flatMap fun l => l.filter fun e => e.traceId == id).map IndexedTraceId.timestamp ≠ [] := by
    obtain ⟨l, hl⟩ := List.exists_mem_of_ne_nil idSeqs hne
    obtain ⟨e, he, hid⟩ := List.mem_map.1 ((mem_groupKeys order).1 (h l hl))
    have hmem : e ∈ idSeqs.flatMap fun l => l.filter fun e => e.traceId == id :=
      List.mem_flatMap.2 ⟨l, hl, List.mem_filter.2 ⟨he, beq_iff_eq.2 hid⟩⟩
    exact List.ne_nil_of_mem (List.mem_map_of_mem hmem)
  rw [latest, hlookups]
  show (do return (⟨id, ← max _⟩ : IndexedTraceId) : Except Throwable IndexedTraceId) = _
  rw [hflatten, max_eq_ok hentry]
  rfl

/-- **Nothing is thrown** where there is an answer to intersect. -/
theorem traceIdsIntersect_eq_ok {idSeqs : List (List IndexedTraceId)} (h : idSeqs ≠ []) :
    traceIdsIntersect order idSeqs = .ok (QueryTraceIds.traceIdsIntersect order idSeqs) := by
  cases idSeqs with
  | nil => exact absurd rfl h
  | cons ids idSeqs =>
    have htraceIds : ((ids :: idSeqs).map (idMap order)).map (fun m => m.map Prod.fst) =
        groupKeys order ids :: idSeqs.map (groupKeys order) := by
      rw [List.map_map]
      exact congrArg₂ List.cons (map_fst_idMap ids) (List.map_congr_left fun l _ => map_fst_idMap l)
    rw [traceIdsIntersect, htraceIds]
    refine Effect.mapM_eq_ok (fun id hid => latest_eq_ok h ?_)
    obtain ⟨hids, hall⟩ := mem_foldl_bagInter.1 hid
    exact List.forall_mem_cons.2 ⟨hids, List.forall_mem_map.1 hall⟩

variable {first second qr}

theorem apply_of_two_le (h : 2 ≤ (sliceQueries qr).length) : apply order first second qr =
    .ok (queryResponse qr (QueryTraceIds.traceIdsIntersect order (querySlices second qr (paddedEndTs first qr) qr.limit))) := by
  unfold apply
  split
  · rename_i heq; rw [heq] at h; exact absurd h (by simp)
  · rename_i heq; rw [heq] at h; exact absurd h (by simp)
  · rw [traceIdsIntersect_eq_ok (querySlices_ne_nil second qr _ _ h)]
    rfl

/-- **A store that does not change between the rounds** is asked as in `QueryTraceIds.apply`. -/
theorem apply_eq_ok (order : KeyOrder) (spanStore : SpanStore κ) (qr : QueryRequest) :
    apply order spanStore spanStore qr = .ok (QueryTraceIds.apply order spanStore qr) := by
  match hqueries : sliceQueries qr with
  | [] => simp only [apply, QueryTraceIds.apply, hqueries]
  | [c] => simp only [apply, QueryTraceIds.apply, hqueries]
  | c :: c' :: queries =>
    have htwo : 2 ≤ (sliceQueries qr).length := by rw [hqueries]; exact Nat.le_add_left 2 _
    rw [apply_of_two_le htwo, QueryTraceIds.apply_of_two_le order spanStore qr htwo]

end Throwing

/-! ## What is returned -/

/-- The ids that the second round has for every condition. -/
def commonIds : Set Int64 :=
  { id | ∀ c ∈ sliceQueries qr, id ∈ (querySlice second qr (paddedEndTs first qr) qr.limit c).map IndexedTraceId.traceId }

/-- Ids that answer a request: ids that all conditions have, each once, as many as the limit allows; and all of them, if it
allows that many. -/
structure IsAnswer (ids : List Int64) : Prop where
  nodup : ids.Nodup
  length_le : (ids.length : Int) ≤ qr.limit
  common : ∀ id ∈ ids, id ∈ commonIds first second qr
  all : ((commonIds first second qr).ncard : Int) ≤ qr.limit → ∀ id ∈ commonIds first second qr, id ∈ ids

/-- The intersection of the second round. -/
def intersection : List IndexedTraceId := traceIdsIntersect order (querySlices second qr (paddedEndTs first qr) qr.limit)

variable {first second qr}

theorem mem_intersection (h : 2 ≤ (sliceQueries qr).length) {id : Int64} :
    id ∈ (intersection order first second qr).map IndexedTraceId.traceId ↔ id ∈ commonIds first second qr := by
  rw [intersection, mem_traceIdsIntersect order (querySlices_ne_nil second qr _ _ h)]
  exact List.forall_mem_map

theorem ncard_commonIds (h : 2 ≤ (sliceQueries qr).length) :
    (commonIds first second qr).ncard = (intersection order first second qr).length := by
  have hset : commonIds first second qr = ((intersection order first second qr).map IndexedTraceId.traceId).toFinset :=
    Set.ext fun id => by rw [Finset.mem_coe, List.mem_toFinset, mem_intersection order h]
  have hnodup : ((intersection order first second qr).map IndexedTraceId.traceId).Nodup := nodup_traceIdsIntersect order _
  rw [hset, Set.ncard_coe_finset, List.toFinset_card_of_nodup hnodup, List.length_map]

/-- **Two conditions or more**: nothing is thrown, and the ids that are returned are an answer. -/
theorem exists_isAnswer (order : KeyOrder) (first second : SpanStore κ) (qr : QueryRequest)
    (h : 2 ≤ (sliceQueries qr).length) (hlimit : 0 ≤ qr.limit) :
    ∃ ids, Throwing.apply order first second qr = .ok ids ∧ IsAnswer first second qr ids := by
  have hsub : (queryResponse qr (intersection order first second qr)).Sublist
      ((intersection order first second qr).map IndexedTraceId.traceId) := (List.take_sublist _ _).map _
  refine ⟨_, Throwing.apply_of_two_le h, ?_, ?_, fun id hid => ?_, fun hcard id hid => ?_⟩
  · exact (nodup_traceIdsIntersect order _).sublist hsub
  · rw [queryResponse, List.length_map, List.length_take]
    omega
  · exact (mem_intersection order h).1 (hsub.subset hid)
  · rw [ncard_commonIds order h] at hcard
    have hlength : (intersection order first second qr).length ≤ qr.limit.toNat := by omega
    show id ∈ ((intersection order first second qr).take qr.limit.toNat).map IndexedTraceId.traceId
    rw [List.take_of_length_le hlength]
    exact (mem_intersection order h).2 hid

/-- A store with several entries of trace 1 under the name, and with trace 3 under the annotation only. -/
def repeatedEntries : SpanStore Unit where
  getSpansByTraceIds _ := []
  getTraceIdsByName _ _ _ _ := [⟨1, 10⟩, ⟨1, 5⟩, ⟨2, 20⟩]
  getTraceIdsByAnnotation _ _ _ _ _ := [⟨2, 30⟩, ⟨3, 1⟩, ⟨1, 7⟩]

/-- Traces 1 and 2 have both, and each is returned once. -/
theorem isAnswer_repeatedEntries : IsAnswer repeatedEntries repeatedEntries
    ⟨"web", some "get", some ["error"], none, 100, 2, true⟩ [1, 2] := by
  obtain ⟨ids, happly, hanswer⟩ := exists_isAnswer .insertion repeatedEntries repeatedEntries
    ⟨"web", some "get", some ["error"], none, 100, 2, true⟩ (by decide) (by decide)
  have hids : Throwing.apply .insertion repeatedEntries repeatedEntries
      ⟨"web", some "get", some ["error"], none, 100, 2, true⟩ = .ok [1, 2] :=
    (Throwing.apply_eq_ok _ _ _).trans (congrArg Except.ok (by decide))
  rw [happly] at hids
  exact Except.ok.inj hids ▸ hanswer

end QueryTraceIds
end Zipkin
