import Zipkin.Base.AssocMap
import Zipkin.Base.RoseTree
import Zipkin.Span
/-!
# Trace — merging span parts, and the tree below a span

`Trace.scala` and `SpanTreeEntry.scala`.  A trace is given as span parts in any order; `spans` merges the parts of each
span id and sorts the spans by first timestamp.  The library leaves the iteration order of a hash map and of a hash set
open, so both are a parameter here (`HashOrder`): any rearrangement, and every result holds for each.

`getSpanTree` calls itself on the children of a span.  Parent links can form a cycle and then the calls never end; the
model takes the deepest call allowed and answers `none` beyond it.
-/
namespace Zipkin

open StableSort AssocMap

variable {β : Type}

/-- A tree version of a trace: a span and its children. -/
abbrev SpanTreeEntry (β : Type) := RoseTree (Span β)

namespace SpanTreeEntry

abbrev span (entry : SpanTreeEntry β) : Span β := entry.label

mutual
/-- `toList`: the span, then the lists of its children, the children sorted by their span. -/
def toList : SpanTreeEntry β → List (Span β)
  | .node span children =>
    span :: ((childLists children).insertionSort (fun c d => le Ord.compare c.1 d.1)).flatMap Prod.snd

def childLists : List (SpanTreeEntry β) → List (Span β × List (Span β))
  | [] => []
  | c :: cs => (c.label, toList c) :: childLists cs
end

theorem childLists_eq : ∀ cs : List (SpanTreeEntry β), childLists cs = cs.map (fun c => (c.label, toList c))
  | [] => rfl
  | c :: cs => by rw [childLists, childLists_eq cs, List.map_cons]

/-- **`toList` lists the labels of the tree**, in an order of its own. -/
theorem toList_perm (t : SpanTreeEntry β) : (toList t).Perm t.labels := by
  induction t using RoseTree.induct with
  | h span cs ih =>
    rw [toList, RoseTree.labels_node, childLists_eq]
    refine List.Perm.cons span (((List.perm_insertionSort _ _).flatMap_right _).trans ?_)
    rw [List.flatMap_map]
    exact List.Perm.flatMap_left cs ih

end SpanTreeEntry

/-- The iteration orders of the hash map of `mergeBySpanId` and of the set of subtrees in `getSpanTree`, as functions of
what was put in and in which order: each rearranges. -/
structure HashOrder (β : Type) where
  spanMap : List (Span β) → List (Span β)
  spanMap_perm : ∀ l, (spanMap l).Perm l
  treeSet : List (SpanTreeEntry β) → List (SpanTreeEntry β)
  treeSet_perm : ∀ l, (treeSet l).Perm l

def HashOrder.insertion (β : Type) : HashOrder β where
  spanMap l := l
  spanMap_perm l := .refl l
  treeSet l := l
  treeSet_perm l := .refl l

structure Trace (β : Type) where
  s : List (Span β)
deriving DecidableEq

namespace Trace

variable (ord : HashOrder β)

/-- The body of the loop of `mergeBySpanId`. -/
def putPart (spanMap : List (Int64 × Span β)) (s : Span β) : Except String (List (Int64 × Span β)) :=
  match spanMap.lookup s.id with
  | some oldS => do
    let merged ← oldS.mergeSpan s
    pure (put merged.id merged spanMap)
  | none => pure (put s.id s spanMap)

def mergeBySpanId (spans : List (Span β)) : Except String (List (Span β)) := do
  let spanMap ← spans.foldlM putPart []
  pure (ord.spanMap (spanMap.map Prod.snd))

/-- The merged spans by first timestamp.  The error is not raised (`mergeBySpanId_eq`). -/
def spans (t : Trace β) : List (Span β) :=
  match mergeBySpanId ord t.s with
  | .ok l => StableSort.sorted Ord.compare l
  | .error _ => []

def getRootSpan (t : Trace β) : Option (Span β) := (t.spans ord).find? (fun s => s.parentId.isNone)

/-- The children of each id.  A set of spans is the list of its elements: no two have the same id. -/
def getIdToChildrenMap (t : Trace β) : List (Int64 × List (Span β)) := addBindings Span.parentId (t.spans ord)

/-- `getSpanTree`, `none` when the calls go deeper than `depth`. -/
def getSpanTree (idToChildren : List (Int64 × List (Span β))) : Nat → Span β → Option (SpanTreeEntry β)
  | 0, _ => none
  | depth + 1, span =>
    match idToChildren.lookup span.id with
    | some cSet => do
      let children ← cSet.mapM (getSpanTree idToChildren depth)
      pure (.node span (ord.treeSet children))
    | none => pure (.node span [])

def ofSpanTree (spanTree : SpanTreeEntry β) : Trace β := ⟨SpanTreeEntry.toList spanTree⟩

/-! ## The merged spans -/

/-- **Parts of one id are merged without an error**: the loop of `mergeBySpanId` groups the parts by id. -/
theorem foldlM_putPart (parts : List (Span β)) : ∀ (m : List (Int64 × Span β)), (∀ e ∈ m, e.2.id = e.1) →
    parts.foldlM putPart m = .ok (parts.foldl (mergeInto Span.id Span.merged) m) := by
  induction parts with
  | nil => intro m _; rfl
  | cons s parts ih =>
    intro m hm
    have hput : ∀ v : Span β, v.id = s.id → ∀ e ∈ put s.id v m, e.2.id = e.1 := fun v hv e he => by
      rcases mem_put he with rfl | he
      · exact hv
      · exact hm e he
    rw [List.foldlM_cons, List.foldl_cons]
    cases hl : m.lookup s.id with
    | none =>
      have hstep : mergeInto Span.id Span.merged m s = put s.id s m := by rw [mergeInto, hl]
      rw [hstep, putPart, hl]
      exact ih _ (hput s rfl)
    | some oldS =>
      have hid : oldS.id = s.id := hm _ (mem_of_lookup hl)
      have hstep : mergeInto Span.id Span.merged m s = put s.id (oldS.merged s) m := by rw [mergeInto, hl]
      have hpart : putPart m s = .ok (put s.id (oldS.merged s) m) := by
        simp only [putPart, hl, Span.mergeSpan, hid, ne_eq, not_true_eq_false, if_false]
        rw [← hid]
        rfl
      rw [hstep, hpart]
      exact ih _ (hput _ hid)

theorem mergeBySpanId_eq (parts : List (Span β)) :
    mergeBySpanId ord parts = .ok (ord.spanMap ((groupInto Span.id Span.merged parts).map Prod.snd)) := by
  rw [mergeBySpanId, foldlM_putPart parts [] (fun _ h => by cases h)]
  rfl

theorem spans_perm (t : Trace β) : (t.spans ord).Perm ((groupInto Span.id Span.merged t.s).map Prod.snd) := by
  rw [spans, mergeBySpanId_eq]
  exact (sorted_perm _ _).trans (ord.spanMap_perm _)

theorem pairwise_spans (t : Trace β) : (t.spans ord).Pairwise (le Ord.compare) := by
  rw [spans, mergeBySpanId_eq]
  exact pairwise_sorted _ _

theorem id_of_mem_groupInto {parts : List (Span β)} {k : Int64} {s : Span β}
    (h : (k, s) ∈ groupInto Span.id Span.merged parts) : s.id = k := by
  refine key_of_mergeAll Span.id Span.merged (fun _ _ => rfl) (fun p hp => ?_) ((mem_groupInto _ _ _ _ _).1 h)
  simpa using (List.mem_filter.1 hp).2

/-- **A span of the trace is the merge of the parts with its id**, from left to right. -/
theorem mem_spans {t : Trace β} {s : Span β} :
    s ∈ t.spans ord ↔ mergeAll Span.merged (t.s.filter (fun p => decide (p.id = s.id))) = some s := by
  rw [(spans_perm ord t).mem_iff, List.mem_map]
  constructor
  · rintro ⟨⟨k, s'⟩, h, rfl⟩
    rw [id_of_mem_groupInto h]
    exact (mem_groupInto _ _ _ _ _).1 h
  · exact fun h => ⟨(s.id, s), (mem_groupInto _ _ _ _ _).2 h, rfl⟩

theorem map_id_groupInto (parts : List (Span β)) :
    ((groupInto Span.id Span.merged parts).map Prod.snd).map Span.id =
      (groupInto Span.id Span.merged parts).map Prod.fst := by
  rw [List.map_map]
  exact List.map_congr_left (fun e he => id_of_mem_groupInto (k := e.1) (s := e.2) he)

/-- **No two spans of a trace have the same id.** -/
theorem nodup_ids (t : Trace β) : ((t.spans ord).map Span.id).Nodup := by
  rw [((spans_perm ord t).map Span.id).nodup_iff, map_id_groupInto]
  exact nodup_keys_groupInto _ _ _

theorem nodup_spans (t : Trace β) : (t.spans ord).Nodup := (nodup_ids ord t).of_map

theorem eq_of_id_eq {t : Trace β} {s s' : Span β} (hs : s ∈ t.spans ord) (hs' : s' ∈ t.spans ord)
    (h : s.id = s'.id) : s = s' := List.inj_on_of_nodup_map (nodup_ids ord t) hs hs' h

/-- **Every part's id is the id of a span**, and of no others. -/
theorem mem_ids {t : Trace β} {k : Int64} : k ∈ (t.spans ord).map Span.id ↔ k ∈ t.s.map Span.id := by
  constructor
  · intro h
    obtain ⟨s, hs, rfl⟩ := List.mem_map.1 h
    have hm := (mem_spans ord).1 hs
    cases hf : t.s.filter (fun p => decide (p.id = s.id)) with
    | nil => rw [hf] at hm; cases hm
    | cons p ps =>
      have hp : p ∈ t.s.filter (fun p => decide (p.id = s.id)) := hf ▸ List.mem_cons_self
      rw [List.mem_filter, decide_eq_true_eq] at hp
      exact List.mem_map.2 ⟨p, hp⟩
  · intro h
    obtain ⟨p, hp, rfl⟩ := List.mem_map.1 h
    have hne : t.s.filter (fun q => decide (q.id = p.id)) ≠ [] :=
      List.ne_nil_of_mem (List.mem_filter.2 ⟨hp, by simp⟩)
    obtain ⟨s, hs⟩ := mergeAll_isSome Span.merged hne
    have hmem : (p.id, s) ∈ groupInto Span.id Span.merged t.s := (mem_groupInto _ _ _ _ _).2 hs
    exact List.mem_map.2 ⟨s, (spans_perm ord t).mem_iff.2 (List.mem_map.2 ⟨_, hmem, rfl⟩), id_of_mem_groupInto hmem⟩

/-- **Parts with distinct ids are the spans**, up to the order. -/
theorem spans_perm_of_nodup {l : List (Span β)} (h : (l.map Span.id).Nodup) : ((⟨l⟩ : Trace β).spans ord).Perm l := by
  rw [List.perm_ext_iff_of_nodup (nodup_spans ord _) h.of_map]
  intro s
  rw [mem_spans]
  have hone : ∀ {s : Span β}, s ∈ l → l.filter (fun p => decide (p.id = s.id)) = [s] := fun {s} hs => by
    have hnd : (l.filter (fun p => decide (p.id = s.id))).Nodup := h.of_map.filter _
    refine List.perm_singleton.1 ((List.perm_ext_iff_of_nodup hnd (List.nodup_singleton s)).2 (fun q => ?_))
    rw [List.mem_filter, decide_eq_true_eq, List.mem_singleton]
    exact ⟨fun hq => List.inj_on_of_nodup_map h hq.1 hs hq.2, by rintro rfl; exact ⟨hs, rfl⟩⟩
  constructor
  · intro hm
    cases hf : l.filter (fun p => decide (p.id = s.id)) with
    | nil => rw [hf] at hm; cases hm
    | cons p ps =>
      have hp : p ∈ l.filter (fun p => decide (p.id = s.id)) := hf ▸ List.mem_cons_self
      rw [List.mem_filter, decide_eq_true_eq] at hp
      rw [← hp.2, hone hp.1] at hm
      rw [← Option.some.inj hm]
      exact hp.1
  · intro hs
    rw [hone hs]
    rfl

end Trace

end Zipkin
