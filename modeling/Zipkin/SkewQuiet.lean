import Zipkin.SkewFrame
import Zipkin.SkewOrder
/-!
# SkewQuiet — traces on which the adjustment does nothing

Where no span lacks server annotations that `validateSpan` would add, the adjustment changes annotations only by a skew
that it finds in some span: from the root down, as long as none is found none comes from the parent either.  So the
annotations stay exactly where no span shows a skew (`sameTimes_adjust_iff`).

In exact order, `cs < sr` and `ss < cr`, a span shows none.  But `getClockSkew` compares strictly, so a span whose server
received in the very instant in which the client sent goes on to the computed latency, and is in most cases moved.
-/
namespace Zipkin
namespace TimeSkewAdjuster

open Constants

variable {β : Type} (wrap : Int → Int)

/-! ## The tree -/

theorem annotations_rebuilt (s : Span β) : (rebuilt s s.annotations).annotations = s.annotations :=
  StableSort.sorted_eq_self _ s.sorted

theorem getClockSkewOf_congr {s s' : Span β} (h : s'.annotations = s.annotations) :
    getClockSkewOf wrap s' = getClockSkewOf wrap s := by
  have hmap : s'.getAnnotationsAsMap = s.getAnnotationsAsMap :=
    funext fun value => by rw [Span.getAnnotationsAsMap, Span.getAnnotationsAsMap, h]
  rw [getClockSkewOf, getClockSkewOf, hmap]

theorem annotations_adjustSpan_congr {s s' : Span β} (h : s'.annotations = s.annotations) (sk : ClockSkew) :
    (adjustSpan wrap s' sk).annotations = (adjustSpan wrap s sk).annotations := by
  simp only [adjustSpan, Span.copyAnnotations, Span.apply, h]

/-- **One step from the top**: nothing is added, and what is done hangs on the skew of the span alone. -/
theorem adjustNode_of_complete (recurse : AdjusterSpanTreeEntry β → Option ClockSkew → AdjusterSpanTreeEntry β)
    {a : Span β × List AdjusterWarning} {cs : List (AdjusterSpanTreeEntry β)} (h : Complete a.1 cs.length) :
    adjustNode wrap recurse (.node a cs) none =
      .node (ownAdjusted wrap (rebuilt a.1 a.1.annotations), a.2) (cs.map (fun c => recurse c (getClockSkewOf wrap a.1))) := by
  have hvalid : validateSpan wrap (previousAdjusted wrap (.node a cs) none) =
      .node (rebuilt a.1 a.1.annotations, a.2) cs := validateSpan_of_complete wrap (t := .node a cs) h
  rw [adjustNode_validated wrap recurse hvalid, getClockSkewOf_congr wrap (annotations_rebuilt a.1)]

/-- A skew that is found in the span changes its annotations. -/
def Moves (s : Span β) : Prop :=
  ∀ es, getClockSkewOf wrap s = some es → (adjustSpan wrap s es).annotations ≠ s.annotations

/-- **A span is kept as it is exactly if it shows no skew.** -/
theorem annotations_ownAdjusted_iff {s : Span β} (hmoves : Moves wrap s) :
    (ownAdjusted wrap (rebuilt s s.annotations)).annotations = s.annotations ↔ getClockSkewOf wrap s = none := by
  have hkeep := annotations_rebuilt s
  rw [ownAdjusted, getClockSkewOf_congr wrap hkeep]
  cases hes : getClockSkewOf wrap s with
  | none => exact iff_of_true hkeep rfl
  | some es =>
    refine iff_of_false (fun h => ?_) (fun h => by cases h)
    rw [annotations_adjustSpan_congr wrap hkeep] at h
    exact hmoves es hes h

/-- **A tree of complete spans keeps its annotations exactly if none of its spans shows a skew.** -/
theorem adjustToDepth_none_iff (depth : Nat) (t : AdjusterSpanTreeEntry β) (h : t.height ≤ depth)
    (hcomplete : ∀ x ∈ t.degrees, Complete x.1.1 x.2) (hmoves : ∀ x ∈ t.labels, Moves wrap x.1) :
    List.Forall₂ (fun x y => y.1.annotations = x.1.annotations) t.labels (adjustToDepth wrap depth t none).labels ↔
      ∀ x ∈ t.labels, getClockSkewOf wrap x.1 = none := by
  induction depth, t, h using RoseTree.induct_height with
  | step depth a cs _ ih =>
    rw [RoseTree.degrees_node, List.forall_mem_cons] at hcomplete
    rw [RoseTree.labels_node, List.forall_mem_cons] at hmoves
    rw [adjustToDepth, adjustNode_of_complete wrap _ hcomplete.1, RoseTree.labels_node, RoseTree.labels_node,
      List.forall₂_cons, annotations_ownAdjusted_iff wrap hmoves.1, List.forall_mem_cons, List.flatMap_map]
    refine and_congr_right (fun hes => ?_)
    -- no skew comes from here, so each child is the top of its own tree
    rw [hes, RoseTree.forall₂_flatMap_iff (fun c hc =>
      (adjustToDepth_labels wrap depth c none (ih c hc c rfl).choose).length_eq)]
    have hrec : ∀ c ∈ cs, _ := fun c hc => (ih c hc c rfl).choose_spec
      (fun x hx => hcomplete.2 x (List.mem_flatMap.2 ⟨c, hc, hx⟩))
      (fun x hx => hmoves.2 x (List.mem_flatMap.2 ⟨c, hc, hx⟩))
    rw [forall₂_congr hrec]
    constructor
    · intro h x hx
      obtain ⟨c, hc, hx⟩ := List.mem_flatMap.1 hx
      exact h c hc x hx
    · exact fun h c hc x hx => h x (List.mem_flatMap.2 ⟨c, hc, hx⟩)

/-! ## The trace -/

/-- A span as far as its times go. -/
def idAnnotations (s : Span β) : Int64 × List Annotation := (s.id, s.annotations)

/-- The same spans, with the same annotations at the same times. -/
def SameTimes (ord : HashOrder β) (t t' : Trace β) : Prop :=
  ((t'.spans ord).map idAnnotations).Perm ((t.spans ord).map idAnnotations)

instance (ord : HashOrder β) (t t' : Trace β) : Decidable (SameTimes ord t t') :=
  inferInstanceAs (Decidable (List.Perm _ _))

theorem map_idAnnotations_perm_iff {l l' : List (Span β)} (hid : List.Forall₂ (fun s s' => s'.id = s.id) l l')
    (hnd : (l.map Span.id).Nodup) : (l'.map idAnnotations).Perm (l.map idAnnotations) ↔
      List.Forall₂ (fun s s' => s'.annotations = s.annotations) l l' := by
  constructor
  · intro hperm
    refine List.forall₂_iff_zip.2 ⟨hid.length_eq, fun {s s'} hmem => ?_⟩
    have hss' := List.forall₂_zip hid hmem
    obtain ⟨hs, hs'⟩ := List.of_mem_zip hmem
    obtain ⟨s₂, hs₂, heq⟩ := List.mem_map.1 (hperm.mem_iff.1 (List.mem_map_of_mem hs'))
    obtain ⟨hid₂, hann⟩ := Prod.mk.inj heq
    rw [List.inj_on_of_nodup_map hnd hs₂ hs (hid₂.trans hss')] at hann
    exact hann.symm
  · intro hann
    refine .of_eq ?_
    clear hnd
    induction hid with
    | nil => rfl
    | cons hs _ ih =>
      rw [List.forall₂_cons] at hann
      rw [List.map_cons, List.map_cons, ih hann.2, idAnnotations, idAnnotations, hs, hann.1]

/-- **When the adjustment does nothing**: exactly if no span shows a skew, in a trace that hangs below its root and lacks
no server annotations. -/
theorem sameTimes_adjust_iff (ord : HashOrder β) (t : Trace β) {r : Span β} (hroot : t.getRootSpan ord = some r)
    (hreach : ∀ s ∈ t.spans ord, t.Reachable ord r s)
    (hcomplete : ∀ s ∈ t.spans ord, Complete s (t.childrenOf ord s).length)
    (hmoves : ∀ s ∈ t.spans ord, Moves wrap s) :
    SameTimes ord t (adjust wrap ord t) ↔ ∀ s ∈ t.spans ord, getClockSkewOf wrap s = none := by
  obtain ⟨tree, htree, hmem, hnd, hperm⟩ := adjust_tree wrap ord t hroot
  rw [Trace.getSpanTree_eq_unfold] at htree
  have hspans : ∀ s, s ∈ tree.labels ↔ s ∈ t.spans ord := fun s => by
    rw [hmem]
    exact ⟨Trace.mem_spans_of_reachable ord t (Trace.getRootSpan_eq_some ord t hroot).1, hreach s⟩
  have hsame : (t.spans ord).Perm tree.labels :=
    (List.perm_ext_iff_of_nodup (Trace.nodup_spans ord t) hnd.of_map).2 (fun s => (hspans s).symm)
  let top := AdjusterSpanTreeEntry.apply tree
  have htop : top.labels = tree.labels.map (fun span => (span, [])) := RoseTree.labels_map _ tree
  have hdegrees : ∀ x ∈ top.degrees, Complete x.1.1 x.2 := by
    rw [show top.degrees = _ from RoseTree.degrees_map _ tree, List.forall_mem_map]
    intro x hx
    have hlabel : x.1 ∈ tree.labels := by
      rw [← RoseTree.map_fst_degrees]
      exact List.mem_map_of_mem hx
    rw [RoseTree.degree_of_unfold ord.treeSet_perm htree x hx]
    exact hcomplete x.1 ((hspans x.1).1 hlabel)
  have hlabels : ∀ x ∈ top.labels, Moves wrap x.1 := by
    rw [htop, List.forall_mem_map]
    exact fun s hs => hmoves s ((hspans s).1 hs)
  have hquiet := adjustToDepth_none_iff wrap _ top (Nat.le_refl _) hdegrees hlabels
  rw [htop, List.forall₂_map_left_iff, List.forall_mem_map] at hquiet
  have hids : List.Forall₂ (fun s s' => s'.id = s.id) tree.labels ((adjustTree wrap top none).labels.map Prod.fst) :=
    (forall₂_adjustTree wrap tree).imp (fun _ _ h => h.eq_but_annotations.1)
  calc SameTimes ord t (adjust wrap ord t)
      ↔ (((adjustTree wrap top none).labels.map Prod.fst).map idAnnotations).Perm (tree.labels.map idAnnotations) := by
        rw [SameTimes, (hperm.map idAnnotations).congr_left, (hsame.map idAnnotations).congr_right]
    _ ↔ List.Forall₂ (fun s s' => s'.annotations = s.annotations) tree.labels
          ((adjustTree wrap top none).labels.map Prod.fst) := map_idAnnotations_perm_iff hids hnd
    _ ↔ ∀ s ∈ tree.labels, getClockSkewOf wrap s = none := by
        rw [List.forall₂_map_right_iff]
        exact hquiet
    _ ↔ ∀ s ∈ t.spans ord, getClockSkewOf wrap s = none := by simp only [hspans]

/-- **The spans are the same ones then**, if none is for debugging. -/
theorem spans_adjust_perm_self (ord : HashOrder β) (t : Trace β) {r : Span β} (hroot : t.getRootSpan ord = some r)
    (hreach : ∀ s ∈ t.spans ord, t.Reachable ord r s) (hdebug : ∀ s ∈ t.spans ord, s.debug = false)
    (hsame : SameTimes ord t (adjust wrap ord t)) : ((adjust wrap ord t).spans ord).Perm (t.spans ord) := by
  obtain ⟨l, l', hmem, hnd, hadjusted, hperm⟩ := adjust_root wrap ord t hroot
  have hspans : ∀ s, s ∈ l ↔ s ∈ t.spans ord := fun s => by
    rw [hmem]
    exact ⟨Trace.mem_spans_of_reachable ord t (Trace.getRootSpan_eq_some ord t hroot).1, hreach s⟩
  have hl : (t.spans ord).Perm l :=
    (List.perm_ext_iff_of_nodup (Trace.nodup_spans ord t) hnd.of_map).2 (fun s => (hspans s).symm)
  rw [SameTimes, (hperm.map idAnnotations).congr_left, (hl.map idAnnotations).congr_right,
    map_idAnnotations_perm_iff (hadjusted.imp (fun _ _ h => h.eq_but_annotations.1)) hnd] at hsame
  have heq : List.Forall₂ Eq l l' := by
    refine List.forall₂_iff_zip.2 ⟨hadjusted.length_eq, fun {s s'} hmem' => ?_⟩
    have h := List.forall₂_zip hadjusted hmem'
    have hs : s.debug = false := hdebug s ((hspans s).1 (List.of_mem_zip hmem').1)
    have hk := h.keepsData
    exact (Span.ext hk.traceId hk.name h.eq_but_annotations.1 hk.parentId (List.forall₂_zip hsame hmem')
      hk.binaryAnnotations (h.debug.trans hs.symm)).symm
  rw [List.forall₂_eq_eq_eq] at heq
  exact hperm.trans (heq ▸ hl.symm)

/-! ## Spans in order -/

structure InOrder (s : Span β) (cs sr ss cr : Annotation) : Prop extends OneOfEach s cs sr ss cr where
  cs_le_sr : cs.timestamp ≤ sr.timestamp
  sr_le_ss : sr.timestamp ≤ ss.timestamp
  ss_le_cr : ss.timestamp ≤ cr.timestamp

/-- Times in order in which no skew is found: without a tie; or with the server's receive at the client's send and its
send at most 1 before the client's receive, so that the latency is 0; or so far apart that the client's duration wraps. -/
def Untied (cs sr ss cr : Int) : Prop :=
  (cs < sr ∧ ss < cr) ∨ (sr = cs ∧ cr - ss ≤ 1) ∨ (2 ^ 63 ≤ cr - cs ∧ ss - sr < 2 ^ 63)

theorem wrap64_spare {cs sr ss cr : Int} (hcs : -2 ^ 63 ≤ cs) (hcr : cr < 2 ^ 63) (h₁ : cs ≤ sr) (h₂ : sr ≤ ss)
    (h₃ : ss ≤ cr) (h : wrap64 (ss - sr) ≤ wrap64 (cr - cs)) :
    wrap64 (wrap64 (cr - cs) - wrap64 (ss - sr)) = cr - cs - (ss - sr) := by
  obtain ⟨q₁, hd₁, hl₁, hu₁⟩ := wrap64_spec (cr - cs)
  obtain ⟨q₂, hd₂, hl₂, hu₂⟩ := wrap64_spec (ss - sr)
  obtain ⟨q₃, hd₃, hl₃, hu₃⟩ := wrap64_spec (wrap64 (cr - cs) - wrap64 (ss - sr))
  omega

theorem getClockSkew_eq_none_iff {cs sr ss cr : Int} (hcs : -2 ^ 63 ≤ cs) (hcr : cr < 2 ^ 63) (h₁ : cs ≤ sr)
    (h₂ : sr ≤ ss) (h₃ : ss ≤ cr) (ep : Endpoint) :
    getClockSkew wrap64 cs cr sr ss ep = none ↔ Untied cs sr ss cr := by
  obtain ⟨q₁, hd₁, hl₁, hu₁⟩ := wrap64_spec (cr - cs)
  obtain ⟨q₂, hd₂, hl₂, hu₂⟩ := wrap64_spec (ss - sr)
  simp only [getClockSkew, Untied, Bool.or_eq_true, Bool.and_eq_true, decide_eq_true_eq]
  split
  · -- strictly in order, or the client's duration wraps and the server's does not
    exact iff_of_true rfl (by omega)
  · rename_i h
    rw [not_or, not_lt] at h
    have hspare := wrap64_spare hcs hcr h₁ h₂ h₃ h.1
    have hlatency : (cr - cs - (ss - sr)).tdiv 2 = (cr - cs - (ss - sr)) / 2 := Int.tdiv_eq_ediv_of_nonneg (by omega)
    rw [hspare, hlatency]
    obtain ⟨q₄, hd₄, hl₄, hu₄⟩ := wrap64_spec (sr - (cr - cs - (ss - sr)) / 2)
    obtain ⟨q₅, hd₅, hl₅, hu₅⟩ := wrap64_spec (wrap64 (sr - (cr - cs - (ss - sr)) / 2) - cs)
    split
    · exact iff_of_true rfl (by omega)
    · exact iff_of_false (by simp) (by omega)

def LongTimes (s : Span β) : Prop := ∀ a ∈ s.annotations, -2 ^ 63 ≤ a.timestamp ∧ a.timestamp < 2 ^ 63

namespace InOrder
variable {s : Span β} {cs sr ss cr : Annotation}

theorem unique {cs' sr' ss' cr' : Annotation} (h : InOrder s cs sr ss cr)
    (h' : InOrder s cs' sr' ss' cr') : cs' = cs ∧ sr' = sr ∧ ss' = ss ∧ cr' = cr :=
  ⟨List.singleton_inj.1 (h'.clientSend.symm.trans h.clientSend), List.singleton_inj.1 (h'.serverRecv.symm.trans h.serverRecv),
    List.singleton_inj.1 (h'.serverSend.symm.trans h.serverSend), List.singleton_inj.1 (h'.clientRecv.symm.trans h.clientRecv)⟩

theorem mem_of_filter {l : List Annotation} {value : String} {a : Annotation}
    (h : l.filter (fun a => a.value == value) = [a]) : a ∈ l :=
  (List.mem_filter.1 (h ▸ List.mem_singleton_self a)).1

theorem getClockSkewOf_eq_none_iff (h : InOrder s cs sr ss cr) (hlong : LongTimes s) :
    getClockSkewOf wrap64 s = none ↔ (sr.host.isSome → Untied cs.timestamp sr.timestamp ss.timestamp cr.timestamp) := by
  rw [h.getClockSkewOf_eq wrap64]
  cases sr.host with
  | none => simp
  | some ep =>
    rw [Option.bind_some, getClockSkew_eq_none_iff (hlong cs (mem_of_filter h.clientSend)).1
      (hlong cr (mem_of_filter h.clientRecv)).2 h.cs_le_sr h.sr_le_ss h.ss_le_cr]
    simp

theorem moves (h : InOrder s cs sr ss cr) : Moves wrap64 s := by
  intro es hes hkeep
  rw [h.getClockSkewOf_eq wrap64, Option.bind_eq_some_iff] at hes
  obtain ⟨ep, hep, hes⟩ := hes
  have hone := filter_value_of_perm (TimeSkewAdjuster.value_adjustAnnotation wrap64 es)
    (s.annotations_copyAnnotations_perm (s.annotations.map (TimeSkewAdjuster.adjustAnnotation wrap64 es))) h.serverRecv
  rw [show (s.copyAnnotations _).annotations = s.annotations from hkeep, h.serverRecv, List.singleton_inj] at hone
  obtain ⟨hend, hne, hx⟩ := getClockSkew_eq_some wrap64 hes
  have hhost : isHost es ep sr.value = true := by rw [isHost, hend, beq_self_eq_true, Bool.true_or]
  have htime : sr.timestamp = wrap64 (sr.timestamp - es.skew) := by
    rw [TimeSkewAdjuster.adjustAnnotation, hep] at hone
    simpa only [hhost, if_true] using congrArg Annotation.timestamp hone
  -- the skew is a `Long` too, so that a move by it is no full turn
  obtain ⟨-, -, hl', hu'⟩ := wrap64_spec (wrap64 (sr.timestamp - _) - cs.timestamp)
  rw [← hx] at hl' hu'
  obtain ⟨q, hd, hl, hu⟩ := wrap64_spec (sr.timestamp - es.skew)
  omega

end InOrder

/-- A trace with nothing to adjust: it hangs below its root; the spans with all four core annotations have one of each, in
order; the spans with the client's two and not both of the server's have no children. -/
structure NothingToAdjust (ord : HashOrder β) (t : Trace β) : Prop where
  belowRoot : ∃ r, t.getRootSpan ord = some r ∧ ∀ s ∈ t.spans ord, t.Reachable ord r s
  inOrder : ∀ s ∈ t.spans ord, containsAllCoreAnnotations s.getAnnotationsAsMap = true →
    ∃ cs sr ss cr, InOrder s cs sr ss cr
  childless : ∀ s ∈ t.spans ord, containsClientCoreAnnotations s.getAnnotationsAsMap = true →
    containsServerCoreAnnotations s.getAnnotationsAsMap = false → ∀ c, ¬ t.ChildOf ord s c
  longTimes : ∀ s ∈ t.spans ord, LongTimes s

def UntiedSpan (s : Span β) : Prop := ∀ cs sr ss cr, InOrder s cs sr ss cr → sr.host.isSome →
  Untied cs.timestamp sr.timestamp ss.timestamp cr.timestamp

theorem getClockSkewOf_of_not_all {s : Span β} (h : containsAllCoreAnnotations s.getAnnotationsAsMap ≠ true) :
    getClockSkewOf wrap s = none := by
  have hall : containsAllCoreAnnotations s.getAnnotationsAsMap = false := Bool.eq_false_iff.2 h
  rw [getClockSkewOf, hall]
  rfl

namespace NothingToAdjust
variable {ord : HashOrder β} {t : Trace β} (h : NothingToAdjust ord t) {s : Span β} (hs : s ∈ t.spans ord)
include h hs

theorem complete : Complete s (t.childrenOf ord s).length := by
  intro _ hlen hclient
  by_contra hserver
  obtain ⟨c, hc⟩ := List.exists_mem_of_length_pos hlen
  rw [Trace.mem_childrenOf] at hc
  exact h.childless s hs hclient (Bool.not_eq_true _ ▸ hserver) c ⟨hs, hc⟩

theorem moves : Moves wrap64 s := by
  by_cases hall : containsAllCoreAnnotations s.getAnnotationsAsMap = true
  · obtain ⟨cs, sr, ss, cr, horder⟩ := h.inOrder s hs hall
    exact horder.moves
  · intro es hes
    rw [getClockSkewOf_of_not_all wrap64 hall] at hes
    cases hes

theorem getClockSkewOf_eq_none_iff : getClockSkewOf wrap64 s = none ↔ UntiedSpan s := by
  by_cases hall : containsAllCoreAnnotations s.getAnnotationsAsMap = true
  · obtain ⟨cs, sr, ss, cr, horder⟩ := h.inOrder s hs hall
    rw [horder.getClockSkewOf_eq_none_iff (h.longTimes s hs)]
    constructor
    · intro huntied cs' sr' ss' cr' horder'
      obtain ⟨rfl, rfl, rfl, rfl⟩ := horder.unique horder'
      exact huntied
    · exact fun huntied => huntied cs sr ss cr horder
  · refine iff_of_true (getClockSkewOf_of_not_all wrap64 hall) (fun cs sr ss cr horder => ?_)
    exact absurd horder.all hall

end NothingToAdjust

/-- **When a trace with nothing to adjust is left as it is**: exactly if no span has a tie that shows a skew. -/
theorem sameTimes_adjust_iff_untied (ord : HashOrder β) (t : Trace β) (h : NothingToAdjust ord t) :
    SameTimes ord t (adjust wrap64 ord t) ↔ ∀ s ∈ t.spans ord, UntiedSpan s := by
  obtain ⟨r, hroot, hreach⟩ := h.belowRoot
  rw [sameTimes_adjust_iff wrap64 ord t hroot hreach (fun s hs => h.complete hs) (fun s hs => h.moves hs)]
  exact forall₂_congr (fun s hs => h.getClockSkewOf_eq_none_iff hs)

/-! ## One call -/

theorem nothingToAdjust_single (ord : HashOrder β) {s : Span β} {cs sr ss cr : Annotation} (hparent : s.parentId = none)
    (h : InOrder s cs sr ss cr) (hlong : LongTimes s) : NothingToAdjust ord ⟨[s]⟩ := by
  have hspans : (⟨[s]⟩ : Trace β).spans ord = [s] :=
    List.perm_singleton.1 (Trace.spans_perm_of_nodup ord (List.nodup_singleton _))
  have hmem : ∀ s' ∈ (⟨[s]⟩ : Trace β).spans ord, s' = s := fun s' hs' => by
    rwa [hspans, List.mem_singleton] at hs'
  refine ⟨⟨s, ?_, fun s' hs' => hmem s' hs' ▸ .refl⟩, fun s' hs' _ => ?_, fun s' hs' _ hserver => ?_, fun s' hs' => ?_⟩
  · rw [Trace.getRootSpan, hspans, List.find?_cons, hparent]
    rfl
  · rw [hmem s' hs']
    exact ⟨cs, sr, ss, cr, h⟩
  · have hall := h.all
    rw [hmem s' hs'] at hserver
    rw [containsAllCoreAnnotations, hserver, Bool.and_false] at hall
    cases hall
  · rw [hmem s' hs']
    exact hlong

def call (cs sr ss cr : Int) : Span Unit :=
  Span.apply 1 "get" 1 none
    [⟨cs, ClientSend, some ⟨10, 80, "web"⟩⟩, ⟨sr, ServerRecv, some ⟨20, 80, "db"⟩⟩,
     ⟨ss, ServerSend, some ⟨20, 80, "db"⟩⟩, ⟨cr, ClientRecv, some ⟨10, 80, "web"⟩⟩] []

theorem nothingToAdjust_call : NothingToAdjust (.insertion Unit) ⟨[call 10 12 15 20]⟩ ∧
    NothingToAdjust (.insertion Unit) ⟨[call 10 10 12 20]⟩ :=
  ⟨nothingToAdjust_single _ rfl ⟨⟨rfl, rfl, rfl, rfl⟩, by decide, by decide, by decide⟩ (by unfold LongTimes; decide),
    nothingToAdjust_single _ rfl ⟨⟨rfl, rfl, rfl, rfl⟩, by decide, by decide, by decide⟩ (by unfold LongTimes; decide)⟩

theorem sameTimes_adjust_call :
    SameTimes (.insertion Unit) ⟨[call 10 12 15 20]⟩ (adjust wrap64 (.insertion Unit) ⟨[call 10 12 15 20]⟩) ↔
      ∀ s ∈ (⟨[call 10 12 15 20]⟩ : Trace Unit).spans (.insertion Unit), UntiedSpan s :=
  sameTimes_adjust_iff_untied (.insertion Unit) ⟨[call 10 12 15 20]⟩ nothingToAdjust_call.1

/-- Received in the instant of sending, the server's times are moved by 4. -/
theorem not_sameTimes_adjust_tie : NothingToAdjust (.insertion Unit) ⟨[call 10 10 12 20]⟩ ∧
    ¬ SameTimes (.insertion Unit) ⟨[call 10 10 12 20]⟩ (adjust wrap64 (.insertion Unit) ⟨[call 10 10 12 20]⟩) :=
  ⟨nothingToAdjust_call.2, by decide⟩

end TimeSkewAdjuster
end Zipkin
