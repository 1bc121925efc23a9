import Mathlib.Algebra.Ring.Int.Defs
import Zipkin.SkewFrame
import Zipkin.SkewQuiet
/-!
# SkewTwice — adjusting an adjusted trace

After one run no span lacks server annotations any more, so a second run does nothing exactly where no adjusted span
shows a skew.  An adjusted span is a span as the first run came to it (`examined`), moved by its own skew.  Between two
machines this puts the server's pair into the middle of the client's, and no skew is left (`Exchange.settles`).  On one
machine all four annotations are moved together, and the skew is found again (`not_settles_of_together`), in this run
and in every later one; a skew from above moves all four as well, so that the input tells (`OneMachine.settles_iff`).
-/
namespace Zipkin
namespace TimeSkewAdjuster

open Constants

variable {β : Type}

/-! ## The spans as the adjustment comes to them -/

section Examined
variable (wrap : Int → Int)

/-- The spans in which the recursive `adjust` looks for a skew: each as the skews from above have moved it, and with the
annotations that `validateSpan` adds. -/
def examinedToDepth : Nat → AdjusterSpanTreeEntry β → Option ClockSkew → List (Span β)
  | 0 => fun _ _ => []
  | depth + 1 => fun span previousSkew =>
    let validatedSpan := validateSpan wrap (previousAdjusted wrap span previousSkew)
    validatedSpan.span :: validatedSpan.children.flatMap
      (fun c => examinedToDepth depth c (getClockSkewOf wrap validatedSpan.span))

def examined (ord : HashOrder β) (trace : Trace β) : List (Span β) :=
  match trace.getRootSpan ord with
  | some s =>
    match Trace.getSpanTree ord (trace.getIdToChildrenMap ord) (trace.spans ord).length s with
    | some spanTree =>
      let span := AdjusterSpanTreeEntry.apply spanTree
      examinedToDepth wrap span.height span none
    | none => []
  | none => []

/-- What the adjustment comes to: the span moved, and validated. -/
def Examined (s v : Span β) : Prop := ∃ s₁, Shifted wrap s s₁ ∧ Validated s₁ v

/-- **One call**: the validated span, and the children moved at most. -/
theorem validateSpan_previousAdjusted (t : AdjusterSpanTreeEntry β) (prev : Option ClockSkew) :
    ∃ (v : Span β) (m : List AdjusterWarning) (f : AdjusterSpanTreeEntry β → AdjusterSpanTreeEntry β),
      Examined wrap t.span v ∧ (∀ c : AdjusterSpanTreeEntry β, ∃ s', Shifted wrap c.span s' ∧
        f c = .node (s', c.messages) c.children) ∧
      validateSpan wrap (previousAdjusted wrap t prev) = .node (v, m) (t.children.map f) := by
  obtain ⟨s₁, hs₁, heq⟩ := previousAdjusted_eq wrap t prev
  obtain ⟨v, m, f, hv, -, hf, hval⟩ := validateSpan_eq wrap (.node (s₁, t.messages) t.children)
  exact ⟨v, m, f, ⟨s₁, hs₁, hv⟩, hf, by rw [heq]; exact hval⟩

theorem Examined.of_shifted {s s₁ v : Span β} (h : Shifted wrap s s₁) (h' : Examined wrap s₁ v) :
    Examined wrap s v := by
  obtain ⟨s₂, hs₂, hv⟩ := h'
  exact ⟨s₂, h.trans hs₂, hv⟩

/-- **Every span of the tree is examined once**, moved and validated. -/
theorem examinedToDepth_labels (depth : Nat) (t : AdjusterSpanTreeEntry β) (prev : Option ClockSkew) (h : t.height ≤ depth) :
    List.Forall₂ (fun x v => Examined wrap x.1 v) t.labels (examinedToDepth wrap depth t prev) := by
  induction depth, t, h using RoseTree.induct_height generalizing prev with
  | step depth a cs _ ih =>
    obtain ⟨v, m, f, hv, hf, heq⟩ := validateSpan_previousAdjusted wrap (.node a cs) prev
    simp only [examinedToDepth, heq, AdjusterSpanTreeEntry.span_node, RoseTree.children_node, List.flatMap_map]
    rw [RoseTree.labels_node]
    refine List.Forall₂.cons hv (RoseTree.forall₂_flatMap (fun c hc => ?_))
    obtain ⟨s₁, hs₁, hfc⟩ := hf c
    obtain ⟨_, hrec⟩ := ih c hc (f c) (by rw [hfc]; rfl)
    have hrec := hrec (getClockSkewOf wrap v)
    cases c with
    | node b ds =>
      rw [hfc, RoseTree.labels_node] at hrec
      rw [hfc, RoseTree.labels_node]
      obtain ⟨w, ws, hw, hws, heqw⟩ := List.forall₂_cons_left_iff.1 hrec
      rw [heqw]
      exact List.Forall₂.cons (hw.of_shifted wrap hs₁) hws

/-- **The adjusted tree is the examined spans, each moved by its own skew.** -/
theorem adjustToDepth_examined (depth : Nat) (t : AdjusterSpanTreeEntry β) (prev : Option ClockSkew) (h : t.height ≤ depth) :
    (adjustToDepth wrap depth t prev).labels.map Prod.fst =
      (examinedToDepth wrap depth t prev).map (ownAdjusted wrap) := by
  induction depth, t, h using RoseTree.induct_height generalizing prev with
  | step depth a cs _ ih =>
    obtain ⟨v, m, f, -, hf, heq⟩ := validateSpan_previousAdjusted wrap (.node a cs) prev
    rw [adjustToDepth, adjustNode_validated wrap _ heq, RoseTree.labels_node, List.map_cons, List.flatMap_map,
      List.flatMap_map, List.map_flatMap]
    simp only [examinedToDepth, heq, AdjusterSpanTreeEntry.span_node, RoseTree.children_node, List.flatMap_map,
      List.map_cons, List.map_flatMap]
    refine congrArg _ (List.flatMap_congr (fun c hc => ?_))
    obtain ⟨s₁, -, hfc⟩ := hf c
    obtain ⟨_, hrec⟩ := ih c hc (f c) (by rw [hfc]; rfl)
    exact hrec (getClockSkewOf wrap v)

end Examined

/-! ## The adjusted trace -/

section Adjusted
variable (wrap : Int → Int) (ord : HashOrder β) (t : Trace β) {r : Span β} (hroot : t.getRootSpan ord = some r)
include hroot

/-- **The spans of the adjusted trace are the examined spans, each moved by its own skew.** -/
theorem spans_adjust_perm :
    ((adjust wrap ord t).spans ord).Perm ((examined wrap ord t).map (ownAdjusted wrap)) := by
  obtain ⟨tree, htree, -, -, hperm⟩ := adjust_tree wrap ord t hroot
  refine hperm.trans (.of_eq ?_)
  simp only [examined, hroot, htree]
  exact adjustToDepth_examined wrap _ _ none (Nat.le_refl _)

theorem exists_adjusted {s : Span β} (hs : t.Reachable ord r s) :
    ∃ s' ∈ (adjust wrap ord t).spans ord, s'.id = s.id ∧ s'.parentId = s.parentId := by
  obtain ⟨s', hs', h⟩ := exists_mem_adjust wrap ord t hroot hs
  exact ⟨s', hs', h.eq_but_annotations.1, h.keepsData.parentId⟩

theorem exists_of_adjusted {s' : Span β} (hs' : s' ∈ (adjust wrap ord t).spans ord) :
    ∃ s ∈ t.spans ord, t.Reachable ord r s ∧ s'.id = s.id ∧ s'.parentId = s.parentId := by
  obtain ⟨s, hs, hreach, h, -⟩ := exists_of_mem_adjust wrap ord t hroot hs'
  exact ⟨s, hs, hreach, h.eq_but_annotations.1, h.keepsData.parentId⟩

theorem childOf_of_adjusted {p' c' : Span β} (h : (adjust wrap ord t).ChildOf ord p' c') :
    ∃ p c, t.ChildOf ord p c ∧ p'.id = p.id ∧ c'.id = c.id := by
  obtain ⟨hp', hc', hparent⟩ := h
  obtain ⟨p, hp, -, hpid, -⟩ := exists_of_adjusted wrap ord t hroot hp'
  obtain ⟨c, hc, -, hcid, hcparent⟩ := exists_of_adjusted wrap ord t hroot hc'
  refine ⟨p, c, ⟨hp, hc, ?_⟩, hpid, hcid⟩
  rw [← hcparent, hparent, hpid]

/-- **The adjusted trace hangs below its root.** -/
theorem adjust_belowRoot : ∃ r', (adjust wrap ord t).getRootSpan ord = some r' ∧
    ∀ s' ∈ (adjust wrap ord t).spans ord, (adjust wrap ord t).Reachable ord r' s' := by
  obtain ⟨hr, hrparent⟩ := Trace.getRootSpan_eq_some ord t hroot
  obtain ⟨r₁, hr₁, hr₁id, hr₁parent⟩ := exists_adjusted wrap ord t hroot (s := r) .refl
  -- only the root has no parent
  have honly : ∀ s' ∈ (adjust wrap ord t).spans ord, s'.parentId = none → s' = r₁ := fun s' hs' hnone => by
    obtain ⟨s, -, hs, hid, hparent⟩ := exists_of_adjusted wrap ord t hroot hs'
    rw [hnone] at hparent
    rcases hs.cases_tail with rfl | ⟨b, -, hb⟩
    · exact Trace.eq_of_id_eq ord hs' hr₁ (hid.trans hr₁id.symm)
    · exact absurd hb (Trace.not_childOf_of_parentId ord t hparent.symm)
  have hsome : ((adjust wrap ord t).getRootSpan ord).isSome :=
    List.find?_isSome.2 ⟨r₁, hr₁, by rw [hr₁parent, hrparent]; rfl⟩
  obtain ⟨r', hr'⟩ := Option.isSome_iff_exists.1 hsome
  obtain ⟨hmem', hnone'⟩ := Trace.getRootSpan_eq_some ord _ hr'
  obtain rfl : r' = r₁ := honly r' hmem' hnone'
  refine ⟨r', hr', fun s' hs' => ?_⟩
  obtain ⟨s, -, hs, hid, -⟩ := exists_of_adjusted wrap ord t hroot hs'
  -- along the links of the trace, from the root to the span
  induction hs generalizing s' with
  | refl => rw [Trace.eq_of_id_eq ord hs' hr₁ (hid.trans hr₁id.symm)]; exact .refl
  | tail hb hbs ih =>
    rename_i b s
    obtain ⟨b', hb', hbid, -⟩ := exists_adjusted wrap ord t hroot hb
    obtain ⟨s₂, hs₂, hid₂, hparent₂⟩ := exists_adjusted wrap ord t hroot (hb.tail hbs)
    obtain rfl : s₂ = s' := Trace.eq_of_id_eq ord hs₂ hs' (hid₂.trans hid.symm)
    refine (ih b' hb' hbid).tail ⟨hb', hs', ?_⟩
    rw [hparent₂, hbs.2.2, hbid]

/-- **After one run no span lacks server annotations.** -/
theorem adjust_complete {s' : Span β} (hs' : s' ∈ (adjust wrap ord t).spans ord) :
    Complete s' ((adjust wrap ord t).childrenOf ord s').length := by
  obtain ⟨s, hs, -, hadj, hcomplete⟩ := exists_of_mem_adjust wrap ord t hroot hs'
  intro hvalid hchildren
  refine hcomplete hvalid ?_
  -- a child in the adjusted trace is a child in the trace, so that the span had one
  obtain ⟨c', hc'⟩ := List.exists_mem_of_length_pos hchildren
  obtain ⟨p, c, hpc, hpid, -⟩ := childOf_of_adjusted wrap ord t hroot ⟨hs', (Trace.mem_childrenOf ord _).1 hc'⟩
  have hp : p = s := Trace.eq_of_id_eq ord hpc.1 hs (hpid.symm.trans hadj.eq_but_annotations.1)
  rw [← hp]
  exact List.length_pos_of_mem ((Trace.mem_childrenOf ord t).2 hpc.2)

end Adjusted

/-! ## A skew moves something -/

def isMoved (sk : ClockSkew) (a : Annotation) : Bool :=
  match a.host with
  | some ep => isHost sk ep a.value
  | none => false

theorem timestamp_adjustAnnotation (sk : ClockSkew) (a : Annotation) :
    (TimeSkewAdjuster.adjustAnnotation id sk a).timestamp = if isMoved sk a then a.timestamp - sk.skew else a.timestamp := by
  unfold adjustAnnotation isMoved
  cases a.host with
  | none => rfl
  | some ep => cases h : isHost sk ep a.value <;> simp [h]

theorem sum_adjustAnnotation (sk : ClockSkew) (l : List Annotation) :
    ((l.map (TimeSkewAdjuster.adjustAnnotation id sk)).map Annotation.timestamp).sum =
      (l.map Annotation.timestamp).sum - sk.skew * (l.countP (isMoved sk)) := by
  induction l with
  | nil => simp
  | cons a l ih =>
    rw [List.map_cons, List.map_cons, List.sum_cons, ih, List.map_cons, List.sum_cons, timestamp_adjustAnnotation,
      List.countP_cons]
    split
    · rw [Int.natCast_add, Int.mul_add, Int.natCast_one, Int.mul_one]; omega
    · rw [Nat.add_zero]; omega

theorem exists_isMoved {s : Span β} {es : ClockSkew} (h : getClockSkewOf id s = some es) :
    ∃ sr ∈ s.annotations, isMoved es sr = true := by
  obtain ⟨_, _, sr, _, hsr, hep, -⟩ := getClockSkewOf_eq_some id h
  refine ⟨sr, (mem_of_getAnnotationsAsMap hsr).1, ?_⟩
  rw [isMoved, hep]
  simp only [isHost, beq_self_eq_true, Bool.true_or]

/-- **Without overflow, every skew that is found changes the annotations**: the sum of their times is another. -/
theorem moves_id (s : Span β) : Moves id s := by
  intro es hes hkeep
  have hperm := s.annotations_copyAnnotations_perm (s.annotations.map (TimeSkewAdjuster.adjustAnnotation id es))
  rw [show (s.copyAnnotations _).annotations = s.annotations from hkeep] at hperm
  have hsum := (hperm.map Annotation.timestamp).sum_eq
  rw [TimeSkewAdjuster.sum_adjustAnnotation] at hsum
  obtain ⟨sr, hsr, hmoved⟩ := exists_isMoved hes
  have hpos : 0 < s.annotations.countP (isMoved es) := List.countP_pos_iff.2 ⟨sr, hsr, hmoved⟩
  rcases Int.mul_eq_zero.1 (show es.skew * (s.annotations.countP (isMoved es) : Int) = 0 by omega) with h | h
  · exact getClockSkewOf_ne_zero id hes h
  · omega

/-! ## Two runs -/

/-- The skew found in the span is gone once the span is moved by it. -/
def Settles (v : Span β) : Prop :=
  ∀ es, getClockSkewOf id v = some es → getClockSkewOf id (adjustSpan id v es) = none

theorem settles_iff (v : Span β) : Settles v ↔ getClockSkewOf id (ownAdjusted id v) = none := by
  unfold Settles ownAdjusted
  cases hes : getClockSkewOf id v with
  | none => simp [hes]
  | some es => simp

/-- **Without overflow, a second run changes nothing** exactly if every examined span settles. -/
theorem sameTimes_adjust_adjust_iff (ord : HashOrder β) (t : Trace β) {r : Span β} (hroot : t.getRootSpan ord = some r) :
    SameTimes ord (adjust id ord t) (adjust id ord (adjust id ord t)) ↔ ∀ v ∈ examined id ord t, Settles v := by
  obtain ⟨r', hroot', hreach'⟩ := adjust_belowRoot id ord t hroot
  rw [sameTimes_adjust_iff id ord (adjust id ord t) hroot' hreach' (fun s' hs' => adjust_complete id ord t hroot hs')
    (fun s' _ => moves_id s')]
  constructor
  · intro h v hv
    exact (settles_iff v).2 (h _ ((spans_adjust_perm id ord t hroot).mem_iff.2 (List.mem_map_of_mem hv)))
  · intro h s' hs'
    obtain ⟨v, hv, rfl⟩ := List.mem_map.1 ((spans_adjust_perm id ord t hroot).mem_iff.1 hs')
    exact (settles_iff v).1 (h v hv)

/-! ## Which skews settle -/

theorem getClockSkew_translate (cs cr sr ss k : Int) (ep : Endpoint) :
    getClockSkew id (cs - k) (cr - k) (sr - k) (ss - k) ep = getClockSkew id cs cr sr ss ep := by
  have hclient : cr - k - (cs - k) = cr - cs := by omega
  have hserver : ss - k - (sr - k) = ss - sr := by omega
  have hskew : ∀ latency : Int, sr - k - latency - (cs - k) = sr - latency - cs := fun latency => by omega
  have hcs : (cs - k < sr - k) ↔ cs < sr := by omega
  have hcr : (cr - k > ss - k) ↔ cr > ss := by omega
  simp only [getClockSkew, id, hclient, hserver, hskew, hcs, hcr]

/-- **Between two machines every skew settles.** -/
theorem Exchange.settles {client server : Endpoint} {v : Span β} {cs cr sr ss : Int}
    (h : Exchange client server v cs cr sr ss) : Settles v := by
  intro es hes
  rw [h.getClockSkewOf_eq] at hes
  have hmoved := h.adjustSpan es
  obtain ⟨hend, -, hskew⟩ := getClockSkew_eq_some id hes
  have hclient : shiftOf es client = 0 := by rw [shiftOf, hend, if_neg h.hosts_ne]
  have hserver : shiftOf es server = es.skew := by rw [shiftOf, hend, if_pos rfl]
  rw [hclient, hserver, Int.sub_zero, Int.sub_zero] at hmoved
  rw [hmoved.getClockSkewOf_eq]
  -- the server's duration is the same, and with it the latency, so that the skew is now 0
  have hduration : ss - es.skew - (sr - es.skew) = ss - sr := by omega
  simp only [id] at hskew
  have hzero : sr - es.skew - (cr - cs - (ss - sr)).tdiv 2 - cs = 0 := by omega
  simp only [getClockSkew, id, hduration, hzero, if_true, ite_self]

/-- **Moved as a whole, a call shows its skew again.** -/
theorem not_settles_of_together {v : Span β} {cs sr ss cr : Annotation} (h : OneOfEach v cs sr ss cr) {es : ClockSkew}
    (hes : getClockSkewOf id v = some es) (hcs : isMoved es cs = true) (hsr : isMoved es sr = true)
    (hss : isMoved es ss = true) (hcr : isMoved es cr = true) : ¬ Settles v := by
  intro hsettles
  have hagain := hsettles es hes
  rw [(h.adjustSpan id es).getClockSkewOf_eq id] at hagain
  have hhost : (TimeSkewAdjuster.adjustAnnotation id es sr).host = sr.host := by
    unfold adjustAnnotation
    split
    · split <;> rfl
    · rfl
  simp only [TimeSkewAdjuster.timestamp_adjustAnnotation, hcs, hsr, hss, hcr, if_true, getClockSkew_translate, hhost] at hagain
  rw [h.getClockSkewOf_eq id, hagain] at hes
  cases hes

/-! ## Calls between machines -/

/-- A span as calls between machines leave it: with one of each core annotation, the client's at another host than the
server's; or without both of the client's; or without any of the server's. -/
inductive Usual (s : Span β) : Prop
  | exchange {client server : Endpoint} {cs cr sr ss : Int} (h : Exchange client server s cs cr sr ss)
  | noClient (h : containsClientCoreAnnotations s.getAnnotationsAsMap = false)
  | noServer (hsr : ServerRecv ∉ s.annotations.map Annotation.value) (hss : ServerSend ∉ s.annotations.map Annotation.value)

theorem filter_of_isValid {s : Span β} {value : String} {a : Annotation} (hvalid : s.isValid = true)
    (hcore : value ∈ CoreAnnotations) (h : s.getAnnotation value = some a) :
    s.annotations.filter (fun a => a.value == value) = [a] := by
  have hlen : (s.annotations.filter (fun a => a.value == value)).length ≤ 1 := by
    rw [Span.isValid, beq_iff_eq, List.count_eq_zero] at hvalid
    by_contra hmany
    exact hvalid (List.mem_map.2 ⟨value, hcore, decide_eq_true (by omega)⟩)
  rw [Span.getAnnotation, ← List.head?_filter] at h
  cases hl : s.annotations.filter (fun a => a.value == value) with
  | nil => rw [hl] at h; cases h
  | cons b l =>
    rw [hl] at h hlen
    rw [List.length_cons] at hlen
    rw [List.eq_nil_of_length_eq_zero (l := l) (by omega), Option.some.inj h]

theorem filter_of_not_mem {s : Span β} {value : String} (h : value ∉ s.annotations.map Annotation.value) :
    s.annotations.filter (fun a => a.value == value) = [] := by
  rw [List.filter_eq_nil_iff]
  exact fun a ha hav => h (List.mem_map.2 ⟨a, ha, by simpa using hav⟩)

section Completed
variable {s : Span β} {cs cr : Annotation} (endpoint : Option Endpoint)
  (hcs : s.annotations.filter (fun a => a.value == ClientSend) = [cs])
  (hcr : s.annotations.filter (fun a => a.value == ClientRecv) = [cr])
  (hsr : s.annotations.filter (fun a => a.value == ServerRecv) = [])
  (hss : s.annotations.filter (fun a => a.value == ServerSend) = [])
include hcs hcr hsr hss

/-- **A span that had no server annotation is completed** at the client's times. -/
theorem oneOfEach_completed :
    OneOfEach (rebuilt s (s.annotations ++ serverAnnotations cs cr endpoint)) cs ⟨cs.timestamp, ServerRecv, endpoint⟩
      ⟨cr.timestamp, ServerSend, endpoint⟩ cr := by
  have hperm := StableSort.sorted_perm Ord.compare (s.annotations ++ serverAnnotations cs cr endpoint)
  have hfilter : ∀ {value : String} {a : Annotation}, (s.annotations ++ serverAnnotations cs cr endpoint).filter
      (fun a => a.value == value) = [a] →
      (rebuilt s (s.annotations ++ serverAnnotations cs cr endpoint)).annotations.filter (fun a => a.value == value) = [a] :=
    fun h => List.perm_singleton.1 (h ▸ hperm.filter _)
  refine ⟨hfilter ?_, hfilter ?_, hfilter ?_, hfilter ?_⟩
  · rw [List.filter_append, hcs]; rfl
  · rw [List.filter_append, hsr]; rfl
  · rw [List.filter_append, hss]; rfl
  · rw [List.filter_append, hcr]; rfl

/-- **A span that `validateSpan` has completed shows no skew**, unless it had one of the server's annotations. -/
theorem getClockSkewOf_completed :
    getClockSkewOf id (rebuilt s (s.annotations ++ serverAnnotations cs cr endpoint)) = none := by
  rw [(oneOfEach_completed endpoint hcs hcr hsr hss).getClockSkewOf_eq id]
  cases endpoint with
  | none => rfl
  | some ep =>
    have hzero : cs.timestamp - (cr.timestamp - cs.timestamp - (cr.timestamp - cs.timestamp)).tdiv 2 - cs.timestamp = 0 := by
      rw [Int.sub_self, Int.zero_tdiv]; omega
    simp only [Option.bind_some, getClockSkew, id, hzero, if_true, ite_self]

end Completed

theorem settles_of_none {v : Span β} (h : getClockSkewOf id v = none) : Settles v := by
  intro es hes
  rw [h] at hes
  cases hes

theorem getClockSkewOf_kept {s : Span β} (h : containsAllCoreAnnotations s.getAnnotationsAsMap = false) :
    getClockSkewOf id (rebuilt s s.annotations) = none := by
  rw [getClockSkewOf_congr id (annotations_rebuilt s)]
  exact getClockSkewOf_of_not_all id (by rw [h]; decide)

/-- **The usual spans settle**, whatever has moved them. -/
theorem Usual.settles {s v : Span β} (h : Usual s) (hv : Examined id s v) : Settles v := by
  obtain ⟨s₁, hs, hv⟩ := hv
  have hvalues := hs.sameValues
  cases h with
  | exchange h =>
    obtain ⟨dc, ds, h₁⟩ := h.shifted hs
    exact (h₁.validated hv).settles
  | noClient h =>
    have hclient : containsClientCoreAnnotations s₁.getAnnotationsAsMap = false := by
      rw [← h, containsClientCoreAnnotations, hvalues.isSome_eq, hvalues.isSome_eq]; rfl
    cases hv with
    | kept => exact settles_of_none (getClockSkewOf_kept (by rw [containsAllCoreAnnotations, hclient, Bool.false_and]))
    | completed cs cr endpoint valid hcs hcr =>
      -- `validateSpan` found both of the client's
      rw [containsClientCoreAnnotations, Bool.and_eq_false_iff, ← Bool.not_eq_true, ← Bool.not_eq_true,
        isSome_getAnnotationsAsMap, isSome_getAnnotationsAsMap] at hclient
      have hmem : ∀ {value : String} {a : Annotation}, s₁.getAnnotation value = some a →
          value ∈ s₁.annotations.map Annotation.value := fun h =>
        List.mem_map.2 ⟨_, List.mem_of_find?_eq_some h, by simpa using List.find?_some h⟩
      exact absurd hclient (not_or.2 ⟨not_not.2 (hmem hcs), not_not.2 (hmem hcr)⟩)
  | noServer hsr hss =>
    rw [← hvalues.mem_iff] at hsr hss
    cases hv with
    | kept =>
      have hserver : containsServerCoreAnnotations s₁.getAnnotationsAsMap = false := by
        rw [containsServerCoreAnnotations, Bool.and_eq_false_iff, ← Bool.not_eq_true, isSome_getAnnotationsAsMap]
        exact Or.inl hss
      exact settles_of_none (getClockSkewOf_kept (by rw [containsAllCoreAnnotations, hserver, Bool.and_false]))
    | completed cs cr endpoint valid hcs hcr =>
      exact settles_of_none (getClockSkewOf_completed endpoint (filter_of_isValid valid (by decide) hcs)
        (filter_of_isValid valid (by decide) hcr) (filter_of_not_mem hsr) (filter_of_not_mem hss))

section Examined
variable (wrap : Int → Int) (ord : HashOrder β) (t : Trace β) {r : Span β} (hroot : t.getRootSpan ord = some r)
include hroot

/-- **The spans below the root are examined once each.** -/
theorem examined_spec : ∃ l : List (Span β), (∀ s, s ∈ l ↔ t.Reachable ord r s) ∧
    List.Forall₂ (Examined wrap) l (examined wrap ord t) := by
  obtain ⟨tree, htree, hmem, -⟩ := adjust_tree wrap ord t hroot
  refine ⟨tree.labels, hmem, ?_⟩
  simp only [examined, hroot, htree]
  have hall := examinedToDepth_labels wrap _ (AdjusterSpanTreeEntry.apply tree) none (Nat.le_refl _)
  rwa [show (AdjusterSpanTreeEntry.apply tree).labels = _ from RoseTree.labels_map _ tree,
    List.forall₂_map_left_iff] at hall

theorem exists_of_mem_examined {v : Span β} (hv : v ∈ examined wrap ord t) :
    ∃ s, t.Reachable ord r s ∧ Examined wrap s v := by
  obtain ⟨l, hmem, hall⟩ := examined_spec wrap ord t hroot
  obtain ⟨s, hs, hsv⟩ := RoseTree.exists_of_forall₂_right hall hv
  exact ⟨s, (hmem s).1 hs, hsv⟩

theorem exists_mem_examined {s : Span β} (hs : t.Reachable ord r s) : ∃ v ∈ examined wrap ord t, Examined wrap s v := by
  obtain ⟨l, hmem, hall⟩ := examined_spec wrap ord t hroot
  exact RoseTree.exists_of_forall₂_left hall ((hmem s).2 hs)

end Examined

/-! ## Calls within a machine -/

/-- The span of a call from `client` to `server` on one machine. -/
structure OneMachine (client server : Endpoint) (s : Span β) (cs cr sr ss : Int) : Prop extends
    OneOfEach s ⟨cs, ClientSend, some client⟩ ⟨sr, ServerRecv, some server⟩ ⟨ss, ServerSend, some server⟩
      ⟨cr, ClientRecv, some client⟩ where
  hosts_eq : server.ipv4 = client.ipv4
  not_loopback : client.ipv4 ≠ LocalhostLoopBackIP

namespace OneMachine

variable {client server : Endpoint} {s v : Span β} {cs cr sr ss : Int}

/-- **A skew moves all four or none.** -/
theorem adjustSpan (h : OneMachine client server s cs cr sr ss) (sk : ClockSkew) :
    OneMachine client server (adjustSpan id s sk) (cs - shiftOf sk client) (cr - shiftOf sk client)
      (sr - shiftOf sk client) (ss - shiftOf sk client) := by
  have hmove := h.toOneOfEach.adjustSpan id sk
  have hserver : shiftOf sk server = shiftOf sk client := by rw [shiftOf, shiftOf, h.hosts_eq]
  have hclient : client.ipv4 ≠ LocalhostLoopBackIP := h.not_loopback
  rw [adjustAnnotation_id (fun _ => hclient), adjustAnnotation_id (fun _ => hclient),
    adjustAnnotation_id (fun _ => h.hosts_eq ▸ hclient), adjustAnnotation_id (fun _ => h.hosts_eq ▸ hclient),
    hserver] at hmove
  exact ⟨hmove, h.hosts_eq, hclient⟩

theorem shifted (h : OneMachine client server s cs cr sr ss) (hs : Shifted id s v) :
    ∃ d, OneMachine client server v (cs - d) (cr - d) (sr - d) (ss - d) := by
  induction hs with
  | refl => exact ⟨0, by simpa only [Int.sub_zero] using h⟩
  | tail _ hstep ih =>
    obtain ⟨d, ih⟩ := ih
    obtain ⟨sk, rfl⟩ := hstep
    exact ⟨d + shiftOf sk client, by simpa only [Int.sub_sub] using ih.adjustSpan sk⟩

theorem validated (h : OneMachine client server s cs cr sr ss) (hv : Validated s v) :
    OneMachine client server v cs cr sr ss := by
  cases hv with
  | kept =>
    have hkeep := annotations_rebuilt s
    exact ⟨⟨by rw [hkeep]; exact h.clientSend, by rw [hkeep]; exact h.serverRecv, by rw [hkeep]; exact h.serverSend,
      by rw [hkeep]; exact h.clientRecv⟩, h.hosts_eq, h.not_loopback⟩
  | completed _ _ _ _ _ _ lacks =>
    have hall := h.all
    rw [containsAllCoreAnnotations, lacks, Bool.and_false] at hall
    cases hall

/-- **On one machine no skew settles**, and what comes down from above makes no difference to whether there is one. -/
theorem settles_iff (h : OneMachine client server s cs cr sr ss) (hv : Examined id s v) :
    Settles v ↔ getClockSkewOf id s = none := by
  obtain ⟨s₁, hs, hv⟩ := hv
  obtain ⟨d, h₁⟩ := h.shifted hs
  have h₂ := h₁.validated hv
  have hskew : getClockSkewOf id v = getClockSkewOf id s := by
    rw [h₂.toOneOfEach.getClockSkewOf_eq id, h.toOneOfEach.getClockSkewOf_eq id]
    exact getClockSkew_translate cs cr sr ss d server
  rw [← hskew]
  refine ⟨fun hsettles => ?_, settles_of_none⟩
  cases hes : getClockSkewOf id v with
  | none => rfl
  | some es =>
    have hend : es.endpoint = server := by
      rw [h₂.toOneOfEach.getClockSkewOf_eq id] at hes
      exact (getClockSkew_eq_some id hes).1
    have hmoved : ∀ (ts : Int) (value : String) (ep : Endpoint), ep.ipv4 = server.ipv4 →
        isMoved es ⟨ts, value, some ep⟩ = true := fun ts value ep hep => by
      simp only [isMoved, isHost, hend, hep, beq_self_eq_true, Bool.true_or]
    exact absurd hsettles (not_settles_of_together h₂.toOneOfEach hes (hmoved _ _ _ h.hosts_eq.symm) (hmoved _ _ _ rfl)
      (hmoved _ _ _ rfl) (hmoved _ _ _ h.hosts_eq.symm))

end OneMachine

/-- A call within a machine, whose addresses are not the loopback's. -/
def WithinMachine (s : Span β) : Prop := ∃ client server cs cr sr ss, OneMachine client server s cs cr sr ss

/-- **When a trace of usual calls is adjusted once for all**: exactly if no call within a machine shows a skew. -/
theorem sameTimes_twice_iff_of_usual (ord : HashOrder β) (t : Trace β) {r : Span β} (hroot : t.getRootSpan ord = some r)
    (h : ∀ s, t.Reachable ord r s → Usual s ∨ WithinMachine s) :
    SameTimes ord (adjust id ord t) (adjust id ord (adjust id ord t)) ↔
      ∀ s, t.Reachable ord r s → WithinMachine s → getClockSkewOf id s = none := by
  rw [sameTimes_adjust_adjust_iff ord t hroot]
  constructor
  · intro hsettles s hs hwithin
    obtain ⟨client, server, cs, cr, sr, ss, hone⟩ := hwithin
    obtain ⟨v, hv, hsv⟩ := exists_mem_examined id ord t hroot hs
    exact (hone.settles_iff hsv).1 (hsettles v hv)
  · intro hnone v hv
    obtain ⟨s, hs, hsv⟩ := exists_of_mem_examined id ord t hroot hv
    rcases h s hs with husual | hwithin
    · exact husual.settles hsv
    · have hs := hnone s hs hwithin
      obtain ⟨client, server, cs, cr, sr, ss, hone⟩ := hwithin
      exact (hone.settles_iff hsv).2 hs

/-- **When the adjustment is idempotent**: exactly if the skew of every span, as the first run comes to it, is gone once
the span is moved by it.  In a trace of usual calls: exactly if no call within a machine shows a skew. -/
theorem adjust_idempotent_iff (ord : HashOrder β) (t : Trace β) {r : Span β} (hroot : t.getRootSpan ord = some r)
    (hno : NoOverflow ord t) (hno' : NoOverflow ord (adjust wrap64 ord t)) :
    (SameTimes ord (adjust wrap64 ord t) (adjust wrap64 ord (adjust wrap64 ord t)) ↔
      ∀ v ∈ examined id ord t, Settles v) ∧
    ((∀ s, t.Reachable ord r s → Usual s ∨ WithinMachine s) →
      (SameTimes ord (adjust wrap64 ord t) (adjust wrap64 ord (adjust wrap64 ord t)) ↔
        ∀ s, t.Reachable ord r s → WithinMachine s → getClockSkewOf id s = none)) := by
  rw [hno', hno]
  exact ⟨sameTimes_adjust_adjust_iff ord t hroot, sameTimes_twice_iff_of_usual ord t hroot⟩

theorem adjust_idempotent_skewedSpan :
    (SameTimes (.insertion Unit) (adjust wrap64 (.insertion Unit) ⟨[skewedSpan]⟩)
        (adjust wrap64 (.insertion Unit) (adjust wrap64 (.insertion Unit) ⟨[skewedSpan]⟩)) ↔
      ∀ v ∈ examined id (.insertion Unit) ⟨[skewedSpan]⟩, Settles v) ∧
    (SameTimes (.insertion Unit) (adjust wrap64 (.insertion Unit) ⟨[skewedSpan]⟩)
        (adjust wrap64 (.insertion Unit) (adjust wrap64 (.insertion Unit) ⟨[skewedSpan]⟩)) ↔
      ∀ s, (⟨[skewedSpan]⟩ : Trace Unit).Reachable (.insertion Unit) skewedSpan s → WithinMachine s →
        getClockSkewOf id s = none) := by
  have hiff := adjust_idempotent_iff (.insertion Unit) ⟨[skewedSpan]⟩ (r := skewedSpan) (by decide) (by decide)
    (by decide)
  have hone : ∀ s ∈ (⟨[skewedSpan]⟩ : Trace Unit).spans (.insertion Unit), s = skewedSpan := by decide
  refine ⟨hiff.1, hiff.2 (fun s hs => Or.inl ?_)⟩
  rw [hone s (Trace.mem_spans_of_reachable _ _ (by decide) hs)]
  exact .exchange exchange_skewedSpan

def localCall (cs sr ss cr : Int) : Span Unit :=
  Span.apply 1 "get" 1 none
    [⟨cs, ClientSend, some ⟨10, 80, "web"⟩⟩, ⟨sr, ServerRecv, some ⟨10, 81, "db"⟩⟩,
     ⟨ss, ServerSend, some ⟨10, 81, "db"⟩⟩, ⟨cr, ClientRecv, some ⟨10, 80, "web"⟩⟩] []

/-- The second run moves the call by 4 once more. -/
theorem not_adjust_idempotent_localCall :
    (⟨[localCall 10 10 12 20]⟩ : Trace Unit).getRootSpan (.insertion Unit) = some (localCall 10 10 12 20) ∧
      (∀ s ∈ (⟨[localCall 10 10 12 20]⟩ : Trace Unit).spans (.insertion Unit),
        (⟨[localCall 10 10 12 20]⟩ : Trace Unit).Reachable (.insertion Unit) (localCall 10 10 12 20) s) ∧
      NoOverflow (.insertion Unit) ⟨[localCall 10 10 12 20]⟩ ∧
      NoOverflow (.insertion Unit) (adjust wrap64 (.insertion Unit) ⟨[localCall 10 10 12 20]⟩) ∧
      ¬ SameTimes (.insertion Unit) (adjust wrap64 (.insertion Unit) ⟨[localCall 10 10 12 20]⟩)
        (adjust wrap64 (.insertion Unit) (adjust wrap64 (.insertion Unit) ⟨[localCall 10 10 12 20]⟩)) := by
  refine ⟨by decide, fun s hs => ?_, by decide, by decide, by decide⟩
  have hone : ∀ s ∈ (⟨[localCall 10 10 12 20]⟩ : Trace Unit).spans (.insertion Unit), s = localCall 10 10 12 20 := by
    decide
  rw [hone s hs]
  exact .refl

end TimeSkewAdjuster
end Zipkin
