import Zipkin.Base.Climb
import Zipkin.TraceForest
/-!
# TraceDepths — the depths that a trace is drawn with

`toSpanDepths` takes the depths from one tree, the one below the root-most span: the first span without a parent or else
the top of the parents of the first span.  `Handlers.renderTrace` draws the spans of all trees, and those of the other trees
at depth 1.  The way up from the first span ends unless it comes to a cycle, and the tree below its end is finite.
-/
namespace Zipkin

open AssocMap

variable {β : Type}

namespace SpanTreeEntry

mutual
/-- `depths`: the depth of the span, and `++` the depths of each child. -/
def depths : SpanTreeEntry β → Nat → List (Int64 × Nat)
  | .node span children, startDepth => childDepths children (startDepth + 1) [(span.id, startDepth)]

def childDepths : List (SpanTreeEntry β) → Nat → List (Int64 × Nat) → List (Int64 × Nat)
  | [], _, prevMap => prevMap
  | child :: children, startDepth, prevMap =>
    childDepths children startDepth (putAll (depths child startDepth) prevMap)
end

def idLevels (t : SpanTreeEntry β) (startDepth : Nat) : List (Int64 × Nat) :=
  (t.levels startDepth).map (fun x => (x.1.id, x.2))

theorem keys_idLevels (t : SpanTreeEntry β) (startDepth : Nat) :
    (idLevels t startDepth).map Prod.fst = t.labels.map Span.id := by
  rw [idLevels, List.map_map, ← RoseTree.map_fst_levels t startDepth, List.map_map]
  rfl

theorem childDepths_eq {startDepth : Nat} : ∀ {children : List (SpanTreeEntry β)} {prevMap : List (Int64 × Nat)},
    (∀ c ∈ children, (c.labels.map Span.id).Nodup → depths c startDepth = idLevels c startDepth) →
      ((prevMap ++ children.flatMap (fun c => idLevels c startDepth)).map Prod.fst).Nodup →
        childDepths children startDepth prevMap = prevMap ++ children.flatMap (fun c => idLevels c startDepth)
  | [], prevMap, _, _ => by rw [childDepths, List.flatMap_nil, List.append_nil]
  | c :: children, prevMap, hdepths, hnodup => by
    rw [List.flatMap_cons, ← List.append_assoc] at hnodup
    have hfront : ((prevMap ++ idLevels c startDepth).map Prod.fst).Nodup := by
      rw [List.map_append] at hnodup
      exact (List.nodup_append.1 hnodup).1
    have hc : (c.labels.map Span.id).Nodup := by
      rw [List.map_append, keys_idLevels] at hfront
      exact (List.nodup_append.1 hfront).2.1
    rw [childDepths, hdepths c List.mem_cons_self hc, putAll_eq_append hfront,
      childDepths_eq (fun d hd => hdepths d (List.mem_cons_of_mem _ hd)) hnodup, List.flatMap_cons, List.append_assoc]

/-- **Where no id is in the tree twice**, `depths` is the depth of each. -/
theorem depths_eq (t : SpanTreeEntry β) : ∀ startDepth : Nat, (t.labels.map Span.id).Nodup →
    depths t startDepth = idLevels t startDepth := by
  induction t using RoseTree.induct with
  | h span children ih =>
    intro startDepth hnodup
    have hlevels : idLevels (.node span children) startDepth =
        [(span.id, startDepth)] ++ children.flatMap (fun c => idLevels c (startDepth + 1)) := by
      rw [idLevels, RoseTree.levels_node, List.map_cons, List.map_flatMap]
      rfl
    rw [depths, hlevels]
    refine childDepths_eq (fun c hc => ih c hc (startDepth + 1)) ?_
    rw [← hlevels, keys_idLevels]
    exact hnodup

end SpanTreeEntry

namespace Trace

variable (ord : HashOrder β) (t : Trace β)

/-- `recursiveGetRootMostSpan`, `none` when the calls go deeper than `depth`. -/
def recursiveGetRootMostSpan (idSpan : List (Int64 × Span β)) : Nat → Span β → Option (Span β)
  | 0, _ => none
  | depth + 1, prevSpan =>
    match prevSpan.parentId.bind (fun id => idSpan.lookup id) with
    | some s => recursiveGetRootMostSpan idSpan depth s
    | none => some prevSpan

/-- `getRootMostSpan`, with calls at most `depth` deep. -/
def getRootMostSpan (depth : Nat) : Option (Option (Span β)) :=
  match t.getRootSpan ord with
  | some r => some (some r)
  | none =>
    match (t.spans ord).head? with
    | some s => (recursiveGetRootMostSpan (t.getIdToSpanMap ord) depth s).map some
    | none => some none

/-- `toSpanDepths`, with calls at most `depth` deep. -/
def toSpanDepths (depth : Nat) : Option (Option (List (Int64 × Nat))) := do
  match ← t.getRootMostSpan ord depth with
  | none => pure none
  | some s =>
    let spanTree ← getSpanTree ord (t.getIdToChildrenMap ord) depth s
    pure (some (spanTree.depths 1))

/-- `spanDepths.get.getOrElse(span.id, 1)` in `renderTrace`; `none` is the exception of `get`. -/
def renderedDepth (spanDepths : Option (List (Int64 × Nat))) (span : Span β) : Option Nat :=
  spanDepths.map (fun m => (m.lookup span.id).getD 1)

/-! ## The way up -/

def parentOf (s : Span β) : Option (Span β) := s.parentId.bind (fun id => (t.getIdToSpanMap ord).lookup id)

theorem recursiveGetRootMostSpan_eq_climb : ∀ (depth : Nat) (s : Span β),
    recursiveGetRootMostSpan (t.getIdToSpanMap ord) depth s = Climb.climb (t.parentOf ord) depth s
  | 0, _ => rfl
  | depth + 1, s => by
    rw [recursiveGetRootMostSpan, Climb.climb, parentOf]
    cases s.parentId.bind (fun id => (t.getIdToSpanMap ord).lookup id) with
    | none => rfl
    | some p => exact recursiveGetRootMostSpan_eq_climb depth p

theorem lookup_getIdToSpanMap {k : Int64} {p : Span β} :
    (t.getIdToSpanMap ord).lookup k = some p ↔ p ∈ t.spans ord ∧ p.id = k := by
  have hmem : ∀ {q : Span β}, (t.getIdToSpanMap ord).lookup k = some q → q ∈ t.spans ord ∧ q.id = k := fun hq => by
    obtain ⟨s, hs, heq⟩ := List.mem_map.1 (mem_of_mem_putAll (mem_of_lookup hq))
    obtain ⟨rfl, rfl⟩ := Prod.mk.inj heq
    exact ⟨hs, rfl⟩
  refine ⟨hmem, fun ⟨hp, hk⟩ => ?_⟩
  obtain ⟨q, hq⟩ := Option.isSome_iff_exists.1 ((lookup_getIdToSpanMap_isSome ord t).2 ⟨p, hp, hk⟩)
  rw [hq, eq_of_id_eq ord (hmem hq).1 hp ((hmem hq).2.trans hk.symm)]

theorem parentOf_eq_some {c p : Span β} (hc : c ∈ t.spans ord) : t.parentOf ord c = some p ↔ ChildOf ord t p c := by
  unfold parentOf ChildOf
  cases hparent : c.parentId with
  | none => simp
  | some k =>
    rw [Option.bind_some, lookup_getIdToSpanMap, Option.some.injEq]
    exact ⟨fun ⟨hp, hk⟩ => ⟨hp, hc, hk.symm⟩, fun ⟨hp, _, hk⟩ => ⟨hp, hk.symm⟩⟩

theorem parentOf_eq_none {c : Span β} (hc : c ∈ t.spans ord) : t.parentOf ord c = none ↔ ∀ p, ¬ ChildOf ord t p c := by
  rw [Option.eq_none_iff_forall_not_mem]
  exact forall_congr' (fun p => not_congr (parentOf_eq_some ord t hc))

theorem climbs_iff_reachable {s a : Span β} (hs : s ∈ t.spans ord) :
    Relation.ReflTransGen (Climb.Next (t.parentOf ord)) s a ↔ Reachable ord t a s := by
  constructor
  · intro h
    induction h using Relation.ReflTransGen.head_induction_on with
    | refl => exact .refl
    | head hstep _ ih =>
      have hchild := (parentOf_eq_some ord t hs).1 hstep
      exact (ih hchild.1).tail hchild
  · intro h
    induction h with
    | refl => exact .refl
    | tail hab hbs ih => exact .head ((parentOf_eq_some ord t hs).2 hbs) (ih hbs.1)

theorem climbs_back_iff {a : Span β} (ha : a ∈ t.spans ord) :
    Relation.TransGen (Climb.Next (t.parentOf ord)) a a ↔ Relation.TransGen (ChildOf ord t) a a := by
  rw [Relation.TransGen.head'_iff, Relation.TransGen.tail'_iff]
  refine exists_congr (fun b => ?_)
  constructor
  · rintro ⟨hab, hba⟩
    have hchild := (parentOf_eq_some ord t ha).1 hab
    exact ⟨(climbs_iff_reachable ord t hchild.1).1 hba, hchild⟩
  · rintro ⟨hba, hchild⟩
    exact ⟨(parentOf_eq_some ord t ha).2 hchild, (climbs_iff_reachable ord t hchild.1).2 hba⟩

theorem mem_spans_of_reaches {a s : Span β} (hs : s ∈ t.spans ord) (h : Reachable ord t a s) : a ∈ t.spans ord := by
  rcases h.cases_head with rfl | ⟨b, hab, -⟩
  · exact hs
  · exact hab.1

/-- The parents of a span, and theirs, come to no cycle. -/
def Rooted (s : Span β) : Prop := ∀ a, Reachable ord t a s → ¬ Relation.TransGen (ChildOf ord t) a a

theorem rooted_iff {s : Span β} (hs : s ∈ t.spans ord) :
    t.Rooted ord s ↔ ∀ a, Relation.ReflTransGen (Climb.Next (t.parentOf ord)) s a →
      ¬ Relation.TransGen (Climb.Next (t.parentOf ord)) a a := by
  refine forall_congr' (fun a => ?_)
  rw [climbs_iff_reachable ord t hs]
  refine imp_congr_right (fun hreach => ?_)
  rw [climbs_back_iff ord t (mem_spans_of_reaches ord t hs hreach)]

/-! ## The root-most span -/

/-- The first span without a parent; or, if all have one, the top of the parents of the first span. -/
def RootMost (r : Span β) : Prop :=
  t.getRootSpan ord = some r ∨
    t.getRootSpan ord = none ∧ (∀ p, ¬ ChildOf ord t p r) ∧ ∃ s, (t.spans ord).head? = some s ∧ Reachable ord t r s

theorem RootMost.top {r : Span β} (h : t.RootMost ord r) : r ∈ t.spans ord ∧ ∀ p, ¬ ChildOf ord t p r := by
  rcases h with h | ⟨-, htop, s, hs, hreach⟩
  · obtain ⟨hr, hparent⟩ := getRootSpan_eq_some ord t h
    exact ⟨hr, fun p => not_childOf_of_parentId ord t hparent⟩
  · exact ⟨mem_spans_of_reaches ord t (List.mem_of_head? hs) hreach, htop⟩

/-- **`getRootMostSpan` is the root-most span**, once its calls end. -/
theorem getRootMostSpan_eq_some {depth : Nat} {o : Option (Span β)} (h : t.getRootMostSpan ord depth = some o)
    (r : Span β) : o = some r ↔ t.RootMost ord r := by
  unfold getRootMostSpan at h
  unfold RootMost
  cases hroot : t.getRootSpan ord with
  | some r' =>
    rw [hroot] at h
    obtain rfl := Option.some.inj h
    simp
  | none =>
    rw [hroot] at h
    simp only [reduceCtorEq, false_or, true_and]
    cases hhead : (t.spans ord).head? with
    | none =>
      rw [hhead] at h
      obtain rfl := Option.some.inj h
      simp
    | some s =>
      rw [hhead] at h
      have hs : s ∈ t.spans ord := List.mem_of_head? hhead
      obtain ⟨r', hr', rfl⟩ := Option.map_eq_some_iff.1 h
      rw [recursiveGetRootMostSpan_eq_climb] at hr'
      obtain ⟨hend, hclimb⟩ := Climb.climb_eq_some hr'
      have hreach := (climbs_iff_reachable ord t hs).1 hclimb
      constructor
      · intro heq
        obtain rfl := Option.some.inj heq
        exact ⟨(parentOf_eq_none ord t (mem_spans_of_reaches ord t hs hreach)).1 hend, s, rfl, hreach⟩
      · rintro ⟨htop, s', hs', hreach'⟩
        obtain rfl := Option.some.inj hs'
        exact congrArg some (Climb.reaches_end_unique hclimb hend ((climbs_iff_reachable ord t hs).2 hreach')
          ((parentOf_eq_none ord t (mem_spans_of_reaches ord t hs hreach')).2 htop))

/-- There is a span without a parent, or else the parents of the first span come to no cycle. -/
def ClimbsToRoot : Prop :=
  (∃ s ∈ t.spans ord, s.parentId = none) ∨ ∀ s, (t.spans ord).head? = some s → t.Rooted ord s

theorem getRootSpan_eq_none : t.getRootSpan ord = none ↔ ¬ ∃ s ∈ t.spans ord, s.parentId = none := by
  rw [getRootSpan, List.find?_eq_none]
  simp only [Option.isNone_iff_eq_none, not_exists, not_and]

theorem getRootMostSpan_isSome (h : t.ClimbsToRoot ord) : (t.getRootMostSpan ord (t.spans ord).length).isSome := by
  unfold getRootMostSpan
  cases hroot : t.getRootSpan ord with
  | some r => rfl
  | none =>
    cases hhead : (t.spans ord).head? with
    | none => rfl
    | some s =>
      have hs : s ∈ t.spans ord := List.mem_of_head? hhead
      have hrooted := (rooted_iff ord t hs).1 ((h.resolve_left ((getRootSpan_eq_none ord t).1 hroot)) s hhead)
      have hnext : ∀ x y, t.parentOf ord x = some y → y ∈ t.spans ord := fun x y hxy => by
        obtain ⟨k, -, hk⟩ := Option.bind_eq_some_iff.1 hxy
        exact ((lookup_getIdToSpanMap ord t).1 hk).1
      dsimp only
      rw [Option.isSome_map, recursiveGetRootMostSpan_eq_climb]
      exact Climb.climb_isSome hnext hs hrooted

theorem climbsToRoot_of_isSome {depth : Nat} (h : (t.getRootMostSpan ord depth).isSome) : t.ClimbsToRoot ord := by
  unfold getRootMostSpan at h
  cases hroot : t.getRootSpan ord with
  | some r =>
    obtain ⟨hr, hparent⟩ := getRootSpan_eq_some ord t hroot
    exact Or.inl ⟨r, hr, hparent⟩
  | none =>
    refine Or.inr (fun s hhead a hreach hcycle => ?_)
    have hs : s ∈ t.spans ord := List.mem_of_head? hhead
    rw [hroot, hhead] at h
    dsimp only at h
    rw [Option.isSome_map, recursiveGetRootMostSpan_eq_climb] at h
    have ha := mem_spans_of_reaches ord t hs hreach
    rw [Climb.climb_of_cycle depth ((climbs_iff_reachable ord t hs).2 hreach) ((climbs_back_iff ord t ha).2 hcycle)] at h
    cases h

/-! ## The depths -/

theorem toSpanDepths_isSome (h : t.ClimbsToRoot ord) : (t.toSpanDepths ord (t.spans ord).length).isSome := by
  obtain ⟨o, ho⟩ := Option.isSome_iff_exists.1 (getRootMostSpan_isSome ord t h)
  cases o with
  | none =>
    rw [toSpanDepths, ho]
    rfl
  | some r =>
    obtain ⟨hr, htop⟩ := ((getRootMostSpan_eq_some ord t ho r).1 rfl).top
    obtain ⟨tree, htree, -⟩ := getSpanTree_top ord t hr htop
    rw [toSpanDepths, ho]
    simp only [Option.bind_eq_bind, Option.bind_some, htree]
    rfl

/-- **When `getRootMostSpan` and `toSpanDepths` end**: exactly if there is a span without a parent, or else the way up from
the first span comes to no cycle. -/
theorem toSpanDepths_ends_iff :
    (∃ depth, (t.getRootMostSpan ord depth).isSome ∧ (t.toSpanDepths ord depth).isSome) ↔
      (∃ s ∈ t.spans ord, s.parentId = none) ∨ ∀ s, (t.spans ord).head? = some s → t.Rooted ord s :=
  ⟨fun ⟨_, h, _⟩ => climbsToRoot_of_isSome ord t h,
    fun h => ⟨_, getRootMostSpan_isSome ord t h, toSpanDepths_isSome ord t h⟩⟩

/-- A span that names itself as its parent. -/
def traceOfOwnParent : Trace Unit := ⟨[Span.apply 1 "get" 7 (some 7) [⟨10, "cs", none⟩] []]⟩

theorem not_toSpanDepths_ends_ownParent :
    ¬ ∃ depth, (traceOfOwnParent.getRootMostSpan (.insertion Unit) depth).isSome ∧
      (traceOfOwnParent.toSpanDepths (.insertion Unit) depth).isSome := by
  rintro ⟨depth, hdepth, -⟩
  rcases climbsToRoot_of_isSome _ _ hdepth with hroot | hrooted
  · exact absurd hroot (by decide)
  · have hown : ChildOf (.insertion Unit) traceOfOwnParent (Span.apply 1 "get" 7 (some 7) [⟨10, "cs", none⟩] [])
        (Span.apply 1 "get" 7 (some 7) [⟨10, "cs", none⟩] []) := ⟨by decide, by decide, rfl⟩
    exact hrooted _ (by decide) _ .refl (.single hown)

theorem rooted_of_acyclic (h : t.Acyclic ord) (s : Span β) : t.Rooted ord s := fun a _ => h a

/-- **The depth of a span that the root-most span reaches** is one more than that of its parent, and 1 that of the others.
-/
theorem renderedDepth_spec {depth : Nat} {spanDepths : Option (List (Int64 × Nat))}
    (h : t.toSpanDepths ord depth = some spanDepths) {r : Span β} (hr : t.RootMost ord r) :
    (∀ p c, ChildOf ord t p c → Reachable ord t r p →
      ∃ d, renderedDepth spanDepths p = some d ∧ renderedDepth spanDepths c = some (d + 1)) ∧
    ∀ s ∈ t.spans ord, ¬ Reachable ord t r s → renderedDepth spanDepths s = some 1 := by
  obtain ⟨hmem, htop⟩ := hr.top
  obtain ⟨o, ho, h⟩ := Option.bind_eq_some_iff.1 h
  obtain rfl := (getRootMostSpan_eq_some ord t ho r).2 hr
  obtain ⟨tree, htree, h⟩ := Option.bind_eq_some_iff.1 h
  obtain rfl := Option.some.inj h
  have hnodup := nodup_ids_getSpanTree ord t hmem htop htree
  have hlabels := mem_labels_getSpanTree ord t hmem htree
  rw [SpanTreeEntry.depths_eq tree 1 hnodup]
  have hkeys := SpanTreeEntry.keys_idLevels tree 1
  have hdepth : ∀ x ∈ tree.levels 1, renderedDepth (some (SpanTreeEntry.idLevels tree 1)) x.1 = some x.2 := fun x hx => by
    have hlookup : (SpanTreeEntry.idLevels tree 1).lookup x.1.id = some x.2 :=
      lookup_of_mem (hkeys ▸ hnodup) (List.mem_map_of_mem hx)
    rw [renderedDepth, Option.map_some, hlookup]
    rfl
  rw [getSpanTree_eq_unfold] at htree
  constructor
  · intro p c hpc hrp
    have hp : p ∈ (tree.levels 1).map Prod.fst := by rw [RoseTree.map_fst_levels]; exact (hlabels p).2 hrp
    obtain ⟨⟨_, d⟩, hx, rfl⟩ := List.mem_map.1 hp
    have hc := RoseTree.level_step_of_unfold ord.treeSet_perm htree _ hx c ((mem_childrenOf ord t).2 hpc.2)
    exact ⟨d, hdepth _ hx, hdepth _ hc⟩
  · intro s hs hnot
    have hnone : (SpanTreeEntry.idLevels tree 1).lookup s.id = none := by
      rw [Option.eq_none_iff_forall_not_mem]
      intro d hd
      have hid : s.id ∈ tree.labels.map Span.id := hkeys ▸ List.mem_map_of_mem (mem_of_lookup hd)
      obtain ⟨s', hs', hids⟩ := List.mem_map.1 hid
      have hreach := (hlabels s').1 hs'
      exact hnot (eq_of_id_eq ord (mem_spans_of_reachable ord t hmem hreach) hs hids ▸ hreach)
    rw [renderedDepth, Option.map_some, hnone]
    rfl

/-- Every span is drawn one deeper than its parent. -/
def DepthsFollowParents (spanDepths : Option (List (Int64 × Nat))) : Prop :=
  ∀ p c, ChildOf ord t p c →
    ∃ d, renderedDepth spanDepths p = some d ∧ renderedDepth spanDepths c = some (d + 1)

theorem exists_rootMost {depth : Nat} {o : Option (Span β)} (h : t.getRootMostSpan ord depth = some o) {s : Span β}
    (hs : s ∈ t.spans ord) : ∃ r, t.RootMost ord r := by
  cases o with
  | some r => exact ⟨r, (getRootMostSpan_eq_some ord t h r).1 rfl⟩
  | none =>
    -- a trace with a span has a first one
    unfold getRootMostSpan at h
    cases hroot : t.getRootSpan ord with
    | some r => rw [hroot] at h; cases h
    | none =>
      cases hhead : (t.spans ord).head? with
      | none => rw [List.head?_eq_none_iff.1 hhead] at hs; cases hs
      | some s =>
        rw [hroot, hhead] at h
        obtain ⟨r, -, hr⟩ := Option.map_eq_some_iff.1 h
        cases hr

/-- **When every span is drawn one deeper than its parent**: exactly if every parent hangs below the root-most span.  The
calls end, as the parent links have no cycle. -/
theorem depthsFollowParents_iff (hacyclic : t.Acyclic ord) :
    (∃ depth spanDepths, t.toSpanDepths ord depth = some spanDepths) ∧
      ∀ depth spanDepths, t.toSpanDepths ord depth = some spanDepths →
        (t.DepthsFollowParents ord spanDepths ↔
          ∀ r, t.RootMost ord r → ∀ p c, ChildOf ord t p c → Reachable ord t r p) := by
  refine ⟨⟨_, Option.isSome_iff_exists.1 (toSpanDepths_isSome ord t (Or.inr fun s _ => rooted_of_acyclic ord t hacyclic s))⟩,
    fun depth spanDepths h => ?_⟩
  constructor
  · intro hfollow r hr p c hpc
    by_contra hnot
    obtain ⟨-, hone⟩ := renderedDepth_spec ord t h hr
    -- what is not below the root-most span has no children there either
    have hnotc : ¬ Reachable ord t r c := fun hreach => by
      rcases hreach.cases_tail with rfl | ⟨q, hrq, hqc⟩
      · exact (hr.top ord t).2 p hpc
      · exact hnot (leftUnique_childOf ord t hqc hpc ▸ hrq)
    obtain ⟨d, hp, hc⟩ := hfollow p c hpc
    rw [hone p hpc.1 hnot] at hp
    rw [hone c hpc.2.1 hnotc] at hc
    have h1 := Option.some.inj hp
    have h2 := Option.some.inj hc
    omega
  · intro hbelow p c hpc
    obtain ⟨o, ho, -⟩ := Option.bind_eq_some_iff.1 h
    obtain ⟨r, hr⟩ := exists_rootMost ord t ho hpc.1
    exact (renderedDepth_spec ord t h hr).1 p c hpc (hbelow r hr p c hpc)

theorem depthsFollowParents_twoTrees :
    (∃ depth spanDepths, traceOfTwoTrees.toSpanDepths (.insertion Unit) depth = some spanDepths) ∧
      ∀ depth spanDepths, traceOfTwoTrees.toSpanDepths (.insertion Unit) depth = some spanDepths →
        (traceOfTwoTrees.DepthsFollowParents (.insertion Unit) spanDepths ↔
          ∀ r, traceOfTwoTrees.RootMost (.insertion Unit) r → ∀ p c, ChildOf (.insertion Unit) traceOfTwoTrees p c →
            Reachable (.insertion Unit) traceOfTwoTrees r p) :=
  depthsFollowParents_iff (.insertion Unit) traceOfTwoTrees (acyclic_of_lt _ _ (by decide))

/-- Below the span whose parent was not recorded, both are drawn at depth 1. -/
theorem not_depthsFollowParents_twoTrees : traceOfTwoTrees.Acyclic (.insertion Unit) ∧
    ∃ spanDepths, traceOfTwoTrees.toSpanDepths (.insertion Unit) 4 = some spanDepths ∧
      ¬ traceOfTwoTrees.DepthsFollowParents (.insertion Unit) spanDepths := by
  refine ⟨acyclic_of_lt _ _ (by decide), some [(1, 1), (2, 2)], by decide, fun hfollow => ?_⟩
  obtain ⟨d, hp, hc⟩ := hfollow (Span.apply 1 "query" 4 (some 3) [⟨12, "cs", none⟩] [])
    (Span.apply 1 "fetch" 5 (some 4) [⟨13, "cs", none⟩] []) ⟨by decide, by decide, rfl⟩
  have h1 : some 1 = some d := hp
  have h2 : some 1 = some (d + 1) := hc
  rw [← Option.some.inj h1] at h2
  exact absurd h2 (by decide)

end Trace

end Zipkin
