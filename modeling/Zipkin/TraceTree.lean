import Zipkin.Trace
/-!
# TraceTree — the tree below the root span

`getSpanTree` unfolds the parent links of a trace.  Span ids are unique in a trace, so a span has at most one parent
there; below the root span, which has none, the calls end within as many levels as there are spans, and the tree lists
each span that the root reaches, once (`getSpanTree_root`).
-/
namespace Zipkin
namespace Trace

open AssocMap

variable {β : Type} (ord : HashOrder β) (t : Trace β)

/-- `c` is a span of the trace with `p` as its parent. -/
def ChildOf (p c : Span β) : Prop := p ∈ t.spans ord ∧ c ∈ t.spans ord ∧ c.parentId = some p.id

/-- `s` hangs below `r`, or is `r`. -/
def Reachable (r s : Span β) : Prop := Relation.ReflTransGen (ChildOf ord t) r s

/-- The children of a span, as `getSpanTree` looks them up. -/
def childrenOf (s : Span β) : List (Span β) := ((t.getIdToChildrenMap ord).lookup s.id).getD []

theorem childrenOf_eq (s : Span β) :
    t.childrenOf ord s = (t.spans ord).filter (fun c => decide (c.parentId = some s.id)) :=
  lookup_addBindings Span.parentId (t.spans ord) s.id

theorem mem_childrenOf {s c : Span β} : c ∈ t.childrenOf ord s ↔ c ∈ t.spans ord ∧ c.parentId = some s.id := by
  rw [childrenOf_eq, List.mem_filter, decide_eq_true_eq]

theorem step_childrenOf : RoseTree.Step (t.spans ord) (t.childrenOf ord) = ChildOf ord t := by
  funext p c
  rw [RoseTree.Step, mem_childrenOf]
  rfl

theorem getSpanTree_eq_unfold (depth : Nat) (s : Span β) :
    getSpanTree ord (t.getIdToChildrenMap ord) depth s = RoseTree.unfold (t.childrenOf ord) ord.treeSet depth s := by
  induction depth generalizing s with
  | zero => rfl
  | succ depth ih =>
    have hfun : getSpanTree ord (t.getIdToChildrenMap ord) depth =
        RoseTree.unfold (t.childrenOf ord) ord.treeSet depth := funext ih
    rw [getSpanTree, RoseTree.unfold, hfun, childrenOf]
    cases (t.getIdToChildrenMap ord).lookup s.id with
    | none =>
      have hnil : ord.treeSet [] = [] := List.perm_nil.1 (ord.treeSet_perm [])
      simp [hnil]
    | some cSet =>
      simp only [Option.getD_some]
      cases cSet.mapM (RoseTree.unfold (t.childrenOf ord) ord.treeSet depth) <;> rfl

/-- **A span has at most one parent in a trace.** -/
theorem leftUnique_childOf : Relator.LeftUnique (ChildOf ord t) := by
  rintro p q c ⟨hp, -, hpc⟩ ⟨hq, -, hqc⟩
  exact eq_of_id_eq ord hp hq (Option.some.inj (hpc.symm.trans hqc))

theorem leftUnique_step : Relator.LeftUnique (RoseTree.Step (t.spans ord) (t.childrenOf ord)) := by
  rw [step_childrenOf]
  exact leftUnique_childOf ord t

theorem mem_spans_of_reachable {r s : Span β} (hr : r ∈ t.spans ord) (h : Reachable ord t r s) : s ∈ t.spans ord := by
  cases h with
  | refl => exact hr
  | tail _ h => exact h.2.1

theorem getRootSpan_eq_some {r : Span β} (h : t.getRootSpan ord = some r) : r ∈ t.spans ord ∧ r.parentId = none := by
  refine ⟨List.mem_of_find?_eq_some h, ?_⟩
  simpa using List.find?_some h

theorem step_mem {p c : Span β} (h : c ∈ t.childrenOf ord p) : c ∈ t.spans ord := ((mem_childrenOf ord t).1 h).1

section Top
variable {r : Span β} (hr : r ∈ t.spans ord) (htop : ∀ p, ¬ ChildOf ord t p r)
include hr

/-- **A tree lists the spans below its top.** -/
theorem mem_labels_getSpanTree {depth : Nat} {tree : SpanTreeEntry β}
    (htree : getSpanTree ord (t.getIdToChildrenMap ord) depth r = some tree) (s : Span β) :
    s ∈ tree.labels ↔ Reachable ord t r s := by
  rw [getSpanTree_eq_unfold] at htree
  rw [RoseTree.mem_labels_unfold ord.treeSet_perm htree, RoseTree.reaches_iff_step (fun _ _ => step_mem ord t) hr,
    step_childrenOf]
  rfl

include htop

/-- **Below a span without a parent in the trace no id is listed twice.** -/
theorem nodup_ids_getSpanTree {depth : Nat} {tree : SpanTreeEntry β}
    (htree : getSpanTree ord (t.getIdToChildrenMap ord) depth r = some tree) : (tree.labels.map Span.id).Nodup := by
  have hmem := mem_labels_getSpanTree ord t hr htree
  have hroot : ∀ p, ¬ RoseTree.Step (t.spans ord) (t.childrenOf ord) p r := by
    rw [step_childrenOf]; exact htop
  rw [getSpanTree_eq_unfold] at htree
  have hnd : tree.labels.Nodup := by
    refine RoseTree.nodup_labels_unfold (leftUnique_step ord t) (fun _ _ => step_mem ord t) ord.treeSet_perm (fun s => ?_) hr hroot .refl
      htree
    rw [childrenOf_eq]
    exact (nodup_spans ord t).filter _
  refine List.Nodup.map_on (fun s hs s' hs' hid => eq_of_id_eq ord (t := t) ?_ ?_ hid) hnd
  · exact mem_spans_of_reachable ord t hr ((hmem s).1 hs)
  · exact mem_spans_of_reachable ord t hr ((hmem s').1 hs')

/-- **The tree below a span without a parent in the trace.**  The calls of `getSpanTree` end within as many levels as
there are spans, and the tree lists the spans below the span, each once. -/
theorem getSpanTree_top :
    ∃ tree, getSpanTree ord (t.getIdToChildrenMap ord) (t.spans ord).length r = some tree ∧
      (∀ s, s ∈ tree.labels ↔ Reachable ord t r s) ∧ (tree.labels.map Span.id).Nodup := by
  have hroot : ∀ p, ¬ RoseTree.Step (t.spans ord) (t.childrenOf ord) p r := by
    rw [step_childrenOf]; exact htop
  have hsome : (RoseTree.unfold (t.childrenOf ord) ord.treeSet (t.spans ord).length r).isSome :=
    RoseTree.unfold_isSome (leftUnique_step ord t) (fun _ _ => step_mem ord t) hr hroot
  obtain ⟨tree, htree⟩ := Option.isSome_iff_exists.1 hsome
  rw [← getSpanTree_eq_unfold] at htree
  exact ⟨tree, htree, mem_labels_getSpanTree ord t hr htree, nodup_ids_getSpanTree ord t hr htop htree⟩

end Top

theorem not_childOf_of_parentId {r p : Span β} (h : r.parentId = none) : ¬ ChildOf ord t p r := by
  rintro ⟨-, -, hparent⟩
  rw [h] at hparent
  cases hparent

/-- **The tree below the root span.** -/
theorem getSpanTree_root {r : Span β} (h : t.getRootSpan ord = some r) :
    ∃ tree, getSpanTree ord (t.getIdToChildrenMap ord) (t.spans ord).length r = some tree ∧
      (∀ s, s ∈ tree.labels ↔ Reachable ord t r s) ∧ (tree.labels.map Span.id).Nodup := by
  obtain ⟨hr, hp⟩ := getRootSpan_eq_some ord t h
  exact getSpanTree_top ord t hr (fun _ => not_childOf_of_parentId ord t hp)

end Trace
end Zipkin
