import Zipkin.TraceTree
/-!
# TraceForest — the trees below all roots

A trace has a root span for every span whose parent was not recorded, and `Handlers.renderTrace` lists the trees below
all of them.  Such a span has no parent in the trace, so its tree is finite whatever the parent links; two of these trees
share no span; and where the links have no cycle, every span hangs below one of the roots.
-/
namespace Zipkin

open AssocMap StableSort

variable {β : Type}

namespace SpanTreeEntry

theorem toList_node (span : Span β) (children : List (SpanTreeEntry β)) :
    ∃ l, toList (.node span children) = span :: l ∧ (∀ c ∈ children, (toList c).Sublist l) := by
  refine ⟨_, by rw [toList], fun c hc => ?_⟩
  rw [childLists_eq, List.flatMap_def]
  refine List.sublist_flatten_of_mem (List.mem_map.2 ⟨(c.label, toList c), ?_, rfl⟩)
  exact (List.perm_insertionSort _ _).mem_iff.2 (List.mem_map.2 ⟨c, hc, rfl⟩)

theorem mem_toList {t : SpanTreeEntry β} {s : Span β} : s ∈ toList t ↔ s ∈ t.labels := (toList_perm t).mem_iff

/-- **An unfolded tree is listed from the top**: every label stands before its steps. -/
theorem toList_unfold {step : Span β → List (Span β)} {order : List (SpanTreeEntry β) → List (SpanTreeEntry β)}
    (horder : ∀ l, (order l).Perm l) {n : Nat} : ∀ {a : Span β} {t : SpanTreeEntry β},
    RoseTree.unfold step order n a = some t → ∀ {p c : Span β}, p ∈ t.labels → c ∈ step p →
      [p, c].Sublist (toList t) := by
  induction n with
  | zero => intro a t h; cases h
  | succ n ih =>
    intro a t h p c hp hc
    obtain ⟨ts, hts, rfl⟩ := RoseTree.unfold_succ_eq_some.1 h
    obtain ⟨l, hl, hsub⟩ := toList_node a (order ts)
    rw [hl]
    rw [RoseTree.labels_node, List.mem_cons, List.mem_flatMap] at hp
    rcases hp with rfl | ⟨u, hu, hp⟩
    · -- the top stands first, and the step is the top of one of the trees below
      obtain ⟨u, hu, hcu⟩ := RoseTree.exists_of_forall₂_left hts hc
      have hcl : c ∈ toList u := mem_toList.2 ((RoseTree.mem_labels_unfold horder hcu c).2 .refl)
      exact (List.singleton_sublist.2 ((hsub u ((horder ts).mem_iff.2 hu)).mem hcl)).cons_cons p
    · obtain ⟨b, -, hbu⟩ := RoseTree.exists_of_forall₂_right hts ((horder ts).mem_iff.1 hu)
      exact ((ih hbu hp hc).trans (hsub u hu)).trans (List.sublist_cons_self a l)

end SpanTreeEntry

namespace Trace

variable (ord : HashOrder β) (t : Trace β)

def getIdToSpanMap : List (Int64 × Span β) := putAll ((t.spans ord).map (fun s => (s.id, s))) []

/-- `getRootSpans`; the map is `getIdToSpanMap` unless given. -/
def getRootSpans (idSpan : List (Int64 × Span β)) : List (Span β) :=
  (t.spans ord).filter (fun s => !(s.parentId.bind (fun id => idSpan.lookup id)).isSome)

/-- The spans in the order in which `Handlers.renderTrace` goes through them: the list of the tree below each root span.
`none` when the calls of `getSpanTree` go deeper than there are spans. -/
def renderedSpans : Option (List (Span β)) := do
  let spanTrees ← (t.getRootSpans ord (t.getIdToSpanMap ord)).mapM
    (getSpanTree ord (t.getIdToChildrenMap ord) (t.spans ord).length)
  pure (spanTrees.flatMap SpanTreeEntry.toList)

def Acyclic : Prop := ∀ s, ¬ Relation.TransGen (ChildOf ord t) s s

/-! ## The roots -/

theorem lookup_getIdToSpanMap_isSome {k : Int64} :
    ((t.getIdToSpanMap ord).lookup k).isSome ↔ ∃ p ∈ t.spans ord, p.id = k := by
  have hkeys : k ∈ (t.getIdToSpanMap ord).map Prod.fst ↔ ∃ p ∈ t.spans ord, p.id = k := by
    rw [getIdToSpanMap, mem_keys_putAll]
    simp
  rw [← hkeys]
  constructor
  · intro h
    obtain ⟨s, hs⟩ := Option.isSome_iff_exists.1 h
    exact List.mem_map_of_mem (f := Prod.fst) (mem_of_lookup hs)
  · intro h
    obtain ⟨⟨k', s⟩, hmem, rfl⟩ := List.mem_map.1 h
    exact Option.isSome_iff_exists.2 ⟨s, lookup_of_mem (nodup_keys_putAll_nil _) hmem⟩

/-- **The root spans are the spans without a parent in the trace.** -/
theorem mem_getRootSpans {r : Span β} :
    r ∈ t.getRootSpans ord (t.getIdToSpanMap ord) ↔ r ∈ t.spans ord ∧ ∀ p, ¬ ChildOf ord t p r := by
  rw [getRootSpans, List.mem_filter, Bool.not_eq_true', Bool.eq_false_iff, ne_eq, and_congr_right_iff]
  intro hr
  rw [not_iff_comm, not_forall]
  simp only [not_not]
  cases hparent : r.parentId with
  | none =>
    simp only [Option.bind_none, Option.isSome_none, Bool.false_eq_true, iff_false, not_exists]
    exact fun _ => not_childOf_of_parentId ord t hparent
  | some k =>
    rw [Option.bind_some, lookup_getIdToSpanMap_isSome]
    constructor
    · rintro ⟨p, hp, -, hk⟩
      exact ⟨p, hp, (Option.some.inj (hparent.symm.trans hk)).symm⟩
    · rintro ⟨p, hp, rfl⟩
      exact ⟨p, hp, hr, hparent⟩

/-! ## The list -/

/-- The tree below a span that has no parent in the trace. -/
structure TreeBelow (r : Span β) (tree : SpanTreeEntry β) : Prop where
  mem_roots : r ∈ t.getRootSpans ord (t.getIdToSpanMap ord)
  unfolds : RoseTree.unfold (t.childrenOf ord) ord.treeSet (t.spans ord).length r = some tree
  mem_labels : ∀ s, s ∈ tree.labels ↔ Reachable ord t r s
  nodup_labels : tree.labels.Nodup

theorem exists_treeBelow {r : Span β} (hr : r ∈ t.getRootSpans ord (t.getIdToSpanMap ord)) :
    ∃ tree, getSpanTree ord (t.getIdToChildrenMap ord) (t.spans ord).length r = some tree ∧ TreeBelow ord t r tree := by
  obtain ⟨hmem, htop⟩ := (mem_getRootSpans ord t).1 hr
  obtain ⟨tree, htree, hlabels, hnd⟩ := getSpanTree_top ord t hmem htop
  exact ⟨tree, htree, hr, by rw [← getSpanTree_eq_unfold]; exact htree, hlabels, hnd.of_map⟩

/-- **The calls end**, and what is rendered is the trees below the root spans, one for each. -/
theorem renderedSpans_eq_some : ∃ trees : List (SpanTreeEntry β),
    List.Forall₂ (TreeBelow ord t) (t.getRootSpans ord (t.getIdToSpanMap ord)) trees ∧
      t.renderedSpans ord = some (trees.flatMap SpanTreeEntry.toList) := by
  have hsome : ((t.getRootSpans ord (t.getIdToSpanMap ord)).mapM
      (getSpanTree ord (t.getIdToChildrenMap ord) (t.spans ord).length)).isSome := by
    refine RoseTree.mapM_isSome (fun r hr => ?_)
    obtain ⟨tree, htree, -⟩ := exists_treeBelow ord t hr
    exact Option.isSome_iff_exists.2 ⟨tree, htree⟩
  obtain ⟨trees, htrees⟩ := Option.isSome_iff_exists.1 hsome
  refine ⟨trees, ?_, by rw [renderedSpans, htrees]; rfl⟩
  have hzip := List.forall₂_iff_zip.1 (RoseTree.mapM_eq_some.1 htrees)
  refine List.forall₂_iff_zip.2 ⟨hzip.1, fun {r tree} hmem => ?_⟩
  obtain ⟨tree', htree', hbelow⟩ := exists_treeBelow ord t (List.of_mem_zip hmem).1
  have heq : tree' = tree := Option.some.inj (htree'.symm.trans (hzip.2 hmem))
  exact heq ▸ hbelow

section Forest
variable {ord t}
variable {trees : List (SpanTreeEntry β)}
  (htrees : List.Forall₂ (TreeBelow ord t) (t.getRootSpans ord (t.getIdToSpanMap ord)) trees)
include htrees

/-- **The trees list each span at most once.** -/
theorem nodup_forest : (trees.flatMap SpanTreeEntry.toList).Nodup := by
  rw [List.nodup_flatMap]
  refine ⟨fun tree htree => ?_, ?_⟩
  · obtain ⟨r, -, hbelow⟩ := RoseTree.exists_of_forall₂_right htrees htree
    exact (SpanTreeEntry.toList_perm tree).nodup_iff.2 hbelow.nodup_labels
  · have hroots : (t.getRootSpans ord (t.getIdToSpanMap ord)).Nodup := (nodup_spans ord t).filter _
    refine RoseTree.pairwise_of_forall₂ htrees hroots (fun {r r' tree tree'} _ _ hbelow hbelow' hne => ?_)
    -- a span that two trees share hangs below both their roots, which have no parents
    intro s hs hs'
    rw [SpanTreeEntry.mem_toList, hbelow.mem_labels] at hs
    rw [SpanTreeEntry.mem_toList, hbelow'.mem_labels] at hs'
    exact hne (RoseTree.root_unique (leftUnique_childOf ord t) ((mem_getRootSpans ord t).1 hbelow.mem_roots).2
      ((mem_getRootSpans ord t).1 hbelow'.mem_roots).2 hs hs')

/-- **Without cycles the trees list every span.** -/
theorem mem_forest (hacyclic : t.Acyclic ord) {s : Span β} :
    s ∈ trees.flatMap SpanTreeEntry.toList ↔ s ∈ t.spans ord := by
  rw [List.mem_flatMap]
  constructor
  · rintro ⟨tree, htree, hs⟩
    obtain ⟨r, -, hbelow⟩ := RoseTree.exists_of_forall₂_right htrees htree
    rw [SpanTreeEntry.mem_toList, hbelow.mem_labels] at hs
    exact mem_spans_of_reachable ord t ((mem_getRootSpans ord t).1 hbelow.mem_roots).1 hs
  · intro hs
    have hparent : ∀ p c, ChildOf ord t p c → p ∈ t.spans ord := fun p c h => h.1
    obtain ⟨r, htop, hreach⟩ := RoseTree.exists_root_of_acyclic hparent hacyclic s
    have hr : r ∈ t.spans ord := by
      rcases hreach.cases_head with rfl | ⟨c, hrc, -⟩
      · exact hs
      · exact hrc.1
    obtain ⟨tree, htree, hbelow⟩ := RoseTree.exists_of_forall₂_left htrees ((mem_getRootSpans ord t).2 ⟨hr, htop⟩)
    exact ⟨tree, htree, SpanTreeEntry.mem_toList.2 ((hbelow.mem_labels s).2 hreach)⟩

/-- **A parent that the trees list stands before its children.** -/
theorem sublist_forest {p c : Span β} (hp : p ∈ trees.flatMap SpanTreeEntry.toList) (h : ChildOf ord t p c) :
    [p, c].Sublist (trees.flatMap SpanTreeEntry.toList) := by
  obtain ⟨tree, htree, hp⟩ := List.mem_flatMap.1 hp
  obtain ⟨r, -, hbelow⟩ := RoseTree.exists_of_forall₂_right htrees htree
  have hpc := SpanTreeEntry.toList_unfold ord.treeSet_perm hbelow.unfolds (SpanTreeEntry.mem_toList.1 hp)
    ((mem_childrenOf ord t).2 h.2)
  rw [List.flatMap_def]
  exact hpc.trans (List.sublist_flatten_of_mem (List.mem_map_of_mem htree))

end Forest

/-- **Every span is rendered once and each parent before its children**, where the parent links have no cycle: parents
may be missing, and there may be several roots. -/
theorem renderedSpans_perm (hacyclic : t.Acyclic ord) :
    ∃ l, t.renderedSpans ord = some l ∧ l.Perm (t.spans ord) ∧
      ∀ p c, ChildOf ord t p c → [p, c].Sublist l := by
  obtain ⟨trees, htrees, hrendered⟩ := renderedSpans_eq_some ord t
  refine ⟨_, hrendered, ?_, fun p c h => ?_⟩
  · exact (List.perm_ext_iff_of_nodup (nodup_forest htrees) (nodup_spans ord t)).2 (fun _ => mem_forest htrees hacyclic)
  · exact sublist_forest htrees ((mem_forest htrees hacyclic).2 h.1) h

theorem acyclic_of_lt (h : ∀ p ∈ t.spans ord, ∀ c ∈ t.spans ord, c.parentId = some p.id → p.id < c.id) :
    t.Acyclic ord := by
  have hlt : ∀ {p c : Span β}, Relation.TransGen (ChildOf ord t) p c → p.id < c.id := fun {p c} hpc => by
    induction hpc with
    | single hpc => exact h _ hpc.1 _ hpc.2.1 hpc.2.2
    | tail _ hpc ih => exact Int64.lt_trans ih (h _ hpc.1 _ hpc.2.1 hpc.2.2)
  exact fun s hs => Int64.lt_irrefl (hlt hs)

/-- A root with a child, and a span below a span that was never recorded, with a child of its own. -/
def traceOfTwoTrees : Trace Unit :=
  ⟨[Span.apply 1 "query" 4 (some 3) [⟨12, "cs", none⟩] [], Span.apply 1 "get" 1 none [⟨10, "cs", none⟩] [],
    Span.apply 1 "fetch" 5 (some 4) [⟨13, "cs", none⟩] [], Span.apply 1 "put" 2 (some 1) [⟨14, "cs", none⟩] []]⟩

theorem renderedSpans_perm_twoTrees :
    ∃ l, traceOfTwoTrees.renderedSpans (.insertion Unit) = some l ∧ l.Perm (traceOfTwoTrees.spans (.insertion Unit)) ∧
      ∀ p c, ChildOf (.insertion Unit) traceOfTwoTrees p c → [p, c].Sublist l :=
  renderedSpans_perm (.insertion Unit) traceOfTwoTrees (acyclic_of_lt _ _ (by decide))

end Trace

end Zipkin
