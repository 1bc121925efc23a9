import Mathlib.Data.List.Dedup
import Zipkin.SpanStore
/-!
# InMemoryAnswers — what the store in memory answers

`SpanStore` asks for the spans of a trace by first timestamp, for traces by that of their first span, and for no more trace
ids than a limit.  The store in memory hands out spans in the order in which they came and counts spans, not traces: it
meets the contract for spans that come in order (`inOrder_iff`), and for queries whose limit is not reached twice by one
trace (`countsTraces_iff`).  The timestamp of an entry is that of the last annotation, which a query by annotation without
a value does not look at (`timestampsInRange_iff`).
-/
namespace Zipkin
namespace SpanBuffer

open StableSort InMemorySpanStore

variable {κ : Type}

def applyAll (calls : List (List (Span κ))) : SpanBuffer κ := calls.foldl apply []

theorem copyAnnotations_sorted (s : Span κ) : s.copyAnnotations (sorted Ord.compare s.annotations) = s := by
  have hsorted : sorted Ord.compare (sorted Ord.compare s.annotations) = s.annotations := by
    rw [sorted_eq_self Ord.compare s.sorted, sorted_eq_self Ord.compare s.sorted]
  exact Span.ext rfl rfl rfl rfl hsorted rfl rfl

/-- **The array has the spans of all calls**, in the order in which they came. -/
theorem applyAll_eq (calls : List (List (Span κ))) : applyAll calls = calls.flatten := by
  have happly : ∀ (spans newSpans : List (Span κ)), apply spans newSpans = spans ++ newSpans := fun spans newSpans => by
    rw [apply, List.map_congr_left (fun s _ => copyAnnotations_sorted s), List.map_id']
  induction calls using List.reverseRecOn with
  | nil => rfl
  | append_singleton calls newSpans ih =>
    rw [applyAll, List.foldl_append, List.foldl_cons, List.foldl_nil, happly, List.flatten_append, List.flatten_singleton,
      ← ih]
    rfl

/-! ## The traces, by first timestamp -/

section Traces
variable (spans : SpanBuffer κ) (traceIds : List Int64)

/-- By first timestamp, a span without one first. -/
def compareFirst (a b : Span κ) : Ordering := Ord.compare a.firstTimestamp b.firstTimestamp

instance : Std.TransCmp (compareFirst (κ := κ)) := inferInstanceAs (Std.TransCmp (compareOn Span.firstTimestamp))

/-- By the first timestamp of the first span. -/
def compareHead (a b : List (Span κ)) : Ordering :=
  Ord.compare (a.head?.bind Span.firstTimestamp) (b.head?.bind Span.firstTimestamp)

instance : Std.TransCmp (compareHead (κ := κ)) :=
  inferInstanceAs (Std.TransCmp (compareOn fun l : List (Span κ) => l.head?.bind Span.firstTimestamp))

theorem firstTimestampLe_iff {a b : List (Span κ)} : firstTimestampLe a b = true ↔ le compareHead a b := by
  unfold firstTimestampLe le compareHead
  cases a.head?.bind Span.firstTimestamp with
  | none => cases b.head?.bind Span.firstTimestamp <;> exact iff_of_true rfl rfl
  | some x =>
    cases b.head?.bind Span.firstTimestamp with
    | none => exact iff_of_false Bool.false_ne_true Bool.false_ne_true
    | some y => rw [decide_eq_true_eq]; exact Int.isLE_compare.symm

def traceOf (id : Int64) : List (Span κ) := spans.filter (fun s => s.traceId == id)

def storedIds : List Int64 := traceIds.filter (fun id => traceOf spans id ≠ [])

theorem flatMap_filter_singleton {α β : Type} (f : α → β) (p : β → Bool) : ∀ l : List α,
    l.flatMap (fun a => [f a].filter p) = (l.filter (fun a => p (f a))).map f
  | [] => rfl
  | a :: l => by
    rw [List.flatMap_cons, flatMap_filter_singleton f p l, List.filter_singleton, List.filter_cons]
    cases p (f a) <;> rfl

theorem getSpansByTraceIds_perm :
    (getSpansByTraceIds spans traceIds).Perm ((storedIds spans traceIds).map (traceOf spans)) := by
  have hstored : storedIds spans traceIds = traceIds.filter (fun id => decide ((traceOf spans id).length > 0)) :=
    List.filter_congr (fun id _ => decide_eq_decide.2 List.length_pos_iff.symm)
  rw [hstored]
  exact (List.perm_insertionSort _ _).trans
    (.of_eq (flatMap_filter_singleton (traceOf spans) (fun l => decide (l.length > 0)) traceIds))

theorem pairwise_getSpansByTraceIds : (getSpansByTraceIds spans traceIds).Pairwise (le compareHead) := by
  have htotal : Std.Total (fun a b : List (Span κ) => firstTimestampLe a b = true) :=
    ⟨fun a b => (Std.Total.total (r := le compareHead) a b).imp firstTimestampLe_iff.2 firstTimestampLe_iff.2⟩
  have htrans : IsTrans (List (Span κ)) (fun a b => firstTimestampLe a b = true) :=
    ⟨fun a b c hab hbc => firstTimestampLe_iff.2
      (IsTrans.trans (r := le compareHead) a b c (firstTimestampLe_iff.1 hab) (firstTimestampLe_iff.1 hbc))⟩
  exact (List.pairwise_insertionSort (fun a b => firstTimestampLe a b = true) _).imp firstTimestampLe_iff.1

/-- An answer of `getSpansByTraceIds`: the spans of each id that has some, ascending in their first timestamps, and the
traces ascending in the least of theirs. -/
structure InOrder (traces : List (List (Span κ))) : Prop where
  spans_of_ids : ∃ ids, ids.Perm (storedIds spans traceIds) ∧
    List.Forall₂ (fun trace id => trace.Perm (traceOf spans id)) traces ids
  ascending : ∀ trace ∈ traces, trace.Pairwise (le compareFirst)
  traces_ascending : traces.Pairwise (fun trace trace' => ∃ a ∈ trace, ∀ b ∈ trace', le compareFirst a b)

/-- **When the answer is in order**: exactly if the spans of each of the ids were stored in order. -/
theorem inOrder_getSpansByTraceIds_iff : InOrder spans traceIds (getSpansByTraceIds spans traceIds) ↔
    ∀ id ∈ traceIds, (traceOf spans id).Pairwise (le compareFirst) := by
  have hperm := getSpansByTraceIds_perm spans traceIds
  have hmem : ∀ {trace}, trace ∈ getSpansByTraceIds spans traceIds ↔
      ∃ id ∈ traceIds, traceOf spans id ≠ [] ∧ traceOf spans id = trace := fun {trace} => by
    rw [hperm.mem_iff, List.mem_map, storedIds]
    simp only [List.mem_filter, decide_eq_true_eq, and_assoc]
  constructor
  · intro h id hid
    by_cases hnil : traceOf spans id = []
    · rw [hnil]; exact .nil
    · exact h.ascending _ (hmem.2 ⟨id, hid, hnil, rfl⟩)
  · intro hstored
    have hascending : ∀ trace ∈ getSpansByTraceIds spans traceIds, trace.Pairwise (le compareFirst) := fun trace htrace => by
      obtain ⟨id, hid, -, rfl⟩ := hmem.1 htrace
      exact hstored id hid
    refine ⟨?_, hascending, ?_⟩
    · have hsame : List.Forall₂ (fun trace id => trace.Perm (traceOf spans id))
          ((storedIds spans traceIds).map (traceOf spans)) (storedIds spans traceIds) := by
        rw [List.forall₂_map_left_iff]
        exact List.forall₂_same.2 (fun id _ => .refl _)
      obtain ⟨ids, hids, hids'⟩ := List.perm_comp_forall₂ hperm hsame
      exact ⟨ids, hids', hids⟩
    · refine (pairwise_getSpansByTraceIds spans traceIds).imp_of_mem (fun {trace trace'} htrace htrace' hle => ?_)
      cases trace with
      | nil =>
        obtain ⟨id, -, hne, hnil⟩ := hmem.1 htrace
        exact absurd hnil hne
      | cons a trace =>
        refine ⟨a, List.mem_cons_self, fun b hb => ?_⟩
        cases trace' with
        | nil => cases hb
        | cons b' trace' =>
          have hhead : le compareFirst a b' := hle
          rcases List.mem_cons.1 hb with rfl | hb
          · exact hhead
          · exact IsTrans.trans (r := le compareFirst) a b' b hhead
              (List.rel_of_pairwise_cons (hascending _ htrace') hb)

/-- **When the store in memory answers in order**, whatever was stored in which calls: exactly if the spans of each of the
ids came in the order of their first timestamps. -/
theorem inOrder_iff (calls : List (List (Span κ))) :
    InOrder calls.flatten traceIds (getSpansByTraceIds (applyAll calls) traceIds) ↔
      ∀ id ∈ traceIds, (traceOf calls.flatten id).Pairwise (le compareFirst) := by
  rw [applyAll_eq]
  exact inOrder_getSpansByTraceIds_iff calls.flatten traceIds

def spanAt (traceId : Int64) (timestamp : Int) : Span Unit :=
  .apply traceId "get" 1 none [⟨timestamp, "custom", some ⟨10, 80, "web"⟩⟩] []

/-- Two hosts report their spans of one trace, the later one first. -/
theorem not_inOrder_later : ¬ InOrder [spanAt 1 20, spanAt 1 10] [1]
    (getSpansByTraceIds (applyAll [[spanAt 1 20], [spanAt 1 10]]) [1]) := by
  intro h
  have hasc := h.ascending [spanAt 1 20, spanAt 1 10] (by decide)
  exact absurd hasc (by decide)

end Traces

/-! ## The trace ids, up to a limit -/

section TraceIds

/-- An answer with entries of distinct traces, as many as there are traces among the spans that match, up to the limit. -/
def CountsTraces (matching : List (Span κ)) (limit : Int) (result : List IndexedTraceId) : Prop :=
  (result.map IndexedTraceId.traceId).Nodup ∧
    result.length = min limit.toNat (matching.map Span.traceId).dedup.length

theorem map_traceId_indexed (l : List (Span κ)) : (l.map indexed).map IndexedTraceId.traceId = l.map Span.traceId := by
  rw [List.map_map]
  rfl

theorem countsTraces_take_iff (matching : List (Span κ)) (limit : Int) :
    CountsTraces matching limit ((matching.take limit.toNat).map indexed) ↔
      ((matching.take limit.toNat).map Span.traceId).Nodup := by
  unfold CountsTraces
  rw [map_traceId_indexed, List.length_map, List.length_take]
  refine and_iff_left_of_imp (fun hnodup => ?_)
  have hle : (matching.map Span.traceId).dedup.length ≤ matching.length := by
    have := (List.dedup_sublist (matching.map Span.traceId)).length_le
    rwa [List.length_map] at this
  -- the traces of the spans that are taken are among the traces
  have hsub : (matching.take limit.toNat).map Span.traceId ⊆ (matching.map Span.traceId).dedup := fun id hid =>
    List.mem_dedup.2 (((List.take_sublist _ _).map _).subset hid)
  have hcount := (List.subperm_of_subset hnodup hsub).length_le
  rw [List.length_map, List.length_take] at hcount
  omega

variable (toLowerCase : String → String) (heap : κ → ByteBuffer) (spans : SpanBuffer κ)

/-- **When a query counts traces**: exactly if no two of the spans that it takes, the first that match up to the limit, are of
one trace. -/
theorem countsTraces_iff (serviceName annotation : String) (spanName : Option String) (value : Option (List UInt8))
    (endTs limit : Int) :
    (CountsTraces (spans.filter (matchesName toLowerCase serviceName spanName endTs)) limit
        (getTraceIdsByName toLowerCase spans serviceName spanName endTs limit) ↔
      (((spans.filter (matchesName toLowerCase serviceName spanName endTs)).take limit.toNat).map Span.traceId).Nodup) ∧
    (CountsTraces (spans.filter (SpanBuffer.matchesAnnotation toLowerCase heap serviceName annotation value endTs)) limit
        (SpanBuffer.getTraceIdsByAnnotation toLowerCase heap spans serviceName annotation value endTs limit) ↔
      (((spans.filter (SpanBuffer.matchesAnnotation toLowerCase heap serviceName annotation value endTs)).take limit.toNat).map
        Span.traceId).Nodup) := by
  rw [getTraceIdsByName_eq, getTraceIdsByAnnotation_eq]
  exact ⟨countsTraces_take_iff _ limit, countsTraces_take_iff _ limit⟩

/-- Two spans of trace 1 use up a limit of 2, and trace 2 is not returned. -/
theorem not_countsTraces_twoSpans :
    ¬ CountsTraces ([spanAt 1 10, spanAt 1 20, spanAt 2 30].filter (matchesName (fun s => s) "web" (some "get") 100)) 2
      (getTraceIdsByName (fun s => s) [spanAt 1 10, spanAt 1 20, spanAt 2 30] "web" (some "get") 100 2) ∧
    ¬ CountsTraces ([spanAt 1 10, spanAt 1 20, spanAt 2 30].filter
        (SpanBuffer.matchesAnnotation (fun s => s) (fun _ => .wrap []) "web" "custom" none 100)) 2
      (SpanBuffer.getTraceIdsByAnnotation (fun s => s) (fun _ => .wrap []) [spanAt 1 10, spanAt 1 20, spanAt 2 30] "web"
        "custom" none 100 2) := by
  unfold CountsTraces
  exact ⟨by decide, by decide⟩

end TraceIds

/-! ## The timestamps of the entries -/

/-- The queries of a store for trace ids, without their time and limit. -/
inductive IdQuery
  | byName (serviceName : String) (spanName : Option String)
  | byAnnotated (serviceName annotation : String) (value : Option (List UInt8))

section Timestamps
variable (toLowerCase : String → String) (heap : κ → ByteBuffer) (spans : SpanBuffer κ)

def getTraceIds (endTs limit : Int) : IdQuery → List IndexedTraceId
  | .byName serviceName spanName => getTraceIdsByName toLowerCase spans serviceName spanName endTs limit
  | .byAnnotated serviceName annotation value =>
    getTraceIdsByAnnotation toLowerCase heap spans serviceName annotation value endTs limit

/-- The span is one that the query is for, at whatever time. -/
def isFor (span : Span κ) : IdQuery → Bool
  | .byName serviceName spanName =>
    hasService toLowerCase serviceName span && spanName.all (fun name => toLowerCase span.name == toLowerCase name)
  | .byAnnotated serviceName annotation value => hasService toLowerCase serviceName span && match value with
    | some v => span.binaryAnnotations.any (fun ba => ba.key == annotation && (heap ba.value).bytes == v)
    | none => span.annotations.any (fun a => a.value == annotation)

/-- The time that a query compares with its end. -/
def testedTimestamp (span : Span κ) : IdQuery → Option Int
  | .byAnnotated _ _ none => span.firstTimestamp
  | _ => span.lastTimestamp

def matchesQuery (endTs : Int) (q : IdQuery) (span : Span κ) : Bool :=
  (match q with
    | .byName _ _ => true
    | .byAnnotated _ annotation _ => !Constants.CoreAnnotations.contains annotation) &&
  isFor toLowerCase heap span q && (testedTimestamp span q).any (fun ts => decide (ts ≤ endTs))

def taken (endTs limit : Int) (q : IdQuery) : List (Span κ) :=
  (spans.filter (matchesQuery toLowerCase heap endTs q)).take limit.toNat

/-- Every entry is from before the end, and has the last timestamp of a span of its trace that the query is for. -/
def TimestampsInRange (endTs limit : Int) (q : IdQuery) : Prop :=
  ∀ e ∈ getTraceIds toLowerCase heap spans endTs limit q, e.timestamp ≤ endTs ∧
    ∃ span ∈ spans, span.traceId = e.traceId ∧ span.lastTimestamp = some e.timestamp ∧
      isFor toLowerCase heap span q = true

/-- **The four queries are one**: the entries of the spans that are taken. -/
theorem getTraceIds_eq (endTs limit : Int) (q : IdQuery) :
    getTraceIds toLowerCase heap spans endTs limit q = (taken toLowerCase heap spans endTs limit q).map indexed := by
  have hmatches : ∀ span : Span κ, matchesQuery toLowerCase heap endTs q span = match q with
      | .byName serviceName spanName => matchesName toLowerCase serviceName spanName endTs span
      | .byAnnotated serviceName annotation value =>
        matchesAnnotation toLowerCase heap serviceName annotation value endTs span := fun span => by
    rcases q with ⟨serviceName, spanName⟩ | ⟨serviceName, annotation, _ | v⟩
    · rfl
    · simp only [matchesQuery, isFor, testedTimestamp, matchesAnnotation, Bool.and_assoc]
    · simp only [matchesQuery, isFor, testedTimestamp, matchesAnnotation, Bool.and_assoc]
  unfold taken
  rw [List.filter_congr (fun span _ => hmatches span)]
  cases q with
  | byName serviceName spanName => exact getTraceIdsByName_eq toLowerCase spans serviceName spanName endTs limit
  | byAnnotated serviceName annotation value =>
    exact getTraceIdsByAnnotation_eq toLowerCase heap spans serviceName annotation value endTs limit

/-- **A span that is taken** is stored, is one that the query is for, and has annotations, so that its entry has its last
timestamp. -/
theorem of_mem_taken {endTs limit : Int} {q : IdQuery} {span : Span κ}
    (h : span ∈ taken toLowerCase heap spans endTs limit q) :
    span ∈ spans ∧ isFor toLowerCase heap span q = true ∧ span.lastTimestamp = some (indexed span).timestamp ∧
      ∃ ts, testedTimestamp span q = some ts ∧ ts ≤ endTs := by
  obtain ⟨hmem, hmatches⟩ := List.mem_filter.1 (List.mem_of_mem_take h)
  simp only [matchesQuery, Bool.and_eq_true] at hmatches
  obtain ⟨⟨-, hfor⟩, htested⟩ := hmatches
  obtain ⟨ts, hts, hle⟩ := (Option.any_eq_true _ _).1 htested
  have hne : span.annotations ≠ [] := by
    rintro hnil
    rcases q with ⟨_, _⟩ | ⟨_, _, _ | _⟩ <;>
      simp [testedTimestamp, Span.firstTimestamp, Span.firstAnnotation, Span.lastTimestamp, Span.lastAnnotation,
        hnil] at hts
  refine ⟨hmem, hfor, ?_, ts, hts, of_decide_eq_true hle⟩
  rw [indexed, Span.lastTimestamp, Span.lastAnnotation, List.getLast?_eq_some_getLast hne]
  rfl

/-- **When the timestamps of an answer are from before the end**: exactly if those of a query by annotation without a
value, which takes spans by their first timestamps, are so by their last. -/
theorem timestampsInRange_iff (endTs limit : Int) (q : IdQuery) :
    TimestampsInRange toLowerCase heap spans endTs limit q ↔
      ∀ serviceName annotation, q = .byAnnotated serviceName annotation none →
        ∀ span ∈ taken toLowerCase heap spans endTs limit q, ∀ ts, span.lastTimestamp = some ts → ts ≤ endTs := by
  unfold TimestampsInRange
  rw [getTraceIds_eq]
  constructor
  · intro h _ _ _ span hspan ts hts
    obtain ⟨-, -, hlast, -⟩ := of_mem_taken toLowerCase heap spans hspan
    obtain rfl := Option.some.inj (hlast.symm.trans hts)
    exact (h _ (List.mem_map_of_mem hspan)).1
  · intro h e he
    obtain ⟨span, hspan, rfl⟩ := List.mem_map.1 he
    obtain ⟨hmem, hfor, hlast, ts, hts, hle⟩ := of_mem_taken toLowerCase heap spans hspan
    refine ⟨?_, span, hmem, rfl, hlast, hfor⟩
    rcases q with ⟨serviceName, spanName⟩ | ⟨serviceName, annotation, _ | v⟩
    · rw [Option.some.inj (hlast.symm.trans hts)]; exact hle
    · exact h serviceName annotation rfl span hspan _ hlast
    · rw [Option.some.inj (hlast.symm.trans hts)]; exact hle

/-- A span that lasts from 10 to 50. -/
def longSpan : Span Unit :=
  .apply 1 "get" 1 none [⟨10, "custom", some ⟨10, 80, "web"⟩⟩, ⟨50, "done", some ⟨10, 80, "web"⟩⟩] []

/-- A query up to 20 returns the timestamp 50. -/
theorem not_timestampsInRange_longSpan : ¬ TimestampsInRange (fun s => s) (fun _ : Unit => .wrap []) [longSpan] 20 1
    (.byAnnotated "web" "custom" none) := by
  intro h
  have he : (⟨1, 50⟩ : IndexedTraceId) ∈ getTraceIds (fun s => s) (fun _ : Unit => .wrap []) [longSpan] 20 1
      (.byAnnotated "web" "custom" none) := by decide
  exact absurd (h _ he).1 (by decide)

end Timestamps

end SpanBuffer
end Zipkin
