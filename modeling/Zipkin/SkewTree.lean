import Zipkin.TimeSkewAdjuster
/-!
# SkewTree — what the adjustment does to each span of the tree

The recursion of `adjust` keeps the shape of the tree.  At each node it does three things to the span (`Adjusted`): it
moves the annotations of some host by some skew, any number of times (the skews that come from the parent); it rebuilds
the span, with server annotations added where they are missing; and it moves the span's own server by the span's own
skew.  `adjustToDepth_labels` says so of every node at once; the results about the adjusted trace follow from this one.
-/
namespace Zipkin
namespace TimeSkewAdjuster

open Constants

variable {β : Type} (wrap : Int → Int)

/-! ## One node -/

/-- Moved by skews, any number of times. -/
def Shifted (s s' : Span β) : Prop := Relation.ReflTransGen (fun s s' => ∃ sk, s' = adjustSpan wrap s sk) s s'

def rebuilt (s : Span β) (annotations : List Annotation) : Span β :=
  Span.apply s.traceId s.name s.id s.parentId annotations s.binaryAnnotations

def serverAnnotations (cs cr : Annotation) (endpoint : Option Endpoint) : List Annotation :=
  [⟨cs.timestamp, ServerRecv, endpoint⟩, ⟨cr.timestamp, ServerSend, endpoint⟩]

/-- What `validateSpan` makes of a span: the same annotations, or both server annotations more where not both were
there. -/
inductive Validated (s : Span β) : Span β → Prop
  | kept : Validated s (rebuilt s s.annotations)
  | completed (cs cr : Annotation) (endpoint : Option Endpoint) (valid : s.isValid = true)
      (hcs : s.getAnnotation ClientSend = some cs) (hcr : s.getAnnotation ClientRecv = some cr)
      (lacks : containsServerCoreAnnotations s.getAnnotationsAsMap = false) :
      Validated s (rebuilt s (s.annotations ++ serverAnnotations cs cr endpoint))

def ownAdjusted (v : Span β) : Span β :=
  match getClockSkewOf wrap v with
  | some es => adjustSpan wrap v es
  | none => v

/-- What the adjustment makes of a span, wherever it stands in the tree. -/
def Adjusted (s s' : Span β) : Prop := ∃ s₁ v, Shifted wrap s s₁ ∧ Validated s₁ v ∧ s' = ownAdjusted wrap v

/-- **A skew that is found.** -/
theorem getClockSkew_eq_some {cs cr sr ss : Int} {ep : Endpoint} {es : ClockSkew}
    (h : getClockSkew wrap cs cr sr ss ep = some es) : es.endpoint = ep ∧ es.skew ≠ 0 ∧
      es.skew = wrap (wrap (sr - (wrap (wrap (cr - cs) - wrap (ss - sr))).tdiv 2) - cs) := by
  simp only [getClockSkew] at h
  split at h
  · cases h
  · split at h
    · cases h
    · rename_i hne
      rw [← Option.some.inj h]
      exact ⟨rfl, hne, rfl⟩

/-- **A skew that is found in a span** is from its core annotations, at the host of the server receive. -/
theorem getClockSkewOf_eq_some {s : Span β} {es : ClockSkew} (h : getClockSkewOf wrap s = some es) :
    ∃ cs cr sr ss, s.getAnnotationsAsMap ServerRecv = some sr ∧ sr.host = some es.endpoint ∧
      getClockSkew wrap cs cr sr.timestamp ss es.endpoint = some es := by
  unfold getClockSkewOf at h
  split at h
  · cases h
  · split at h
    · rename_i cs cr sr ss _ _ hsr _
      obtain ⟨ep, hep, h⟩ := Option.bind_eq_some_iff.1 h
      obtain rfl := (getClockSkew_eq_some wrap h).1
      exact ⟨_, _, sr, _, hsr, hep, h⟩
    · cases h

theorem mem_of_getAnnotationsAsMap {s : Span β} {value : String} {a : Annotation}
    (h : s.getAnnotationsAsMap value = some a) : a ∈ s.annotations ∧ a.value = value := by
  obtain ⟨hmem, hval⟩ := List.mem_filter.1 (List.mem_of_getLast? h)
  exact ⟨hmem, beq_iff_eq.1 hval⟩

theorem getClockSkewOf_ne_zero {s : Span β} {es : ClockSkew} (h : getClockSkewOf wrap s = some es) : es.skew ≠ 0 := by
  obtain ⟨_, _, _, _, -, -, h⟩ := getClockSkewOf_eq_some wrap h
  exact (getClockSkew_eq_some wrap h).2.1

theorem getAnnotation_of_isSome {s : Span β} {value : String} (h : (s.getAnnotationsAsMap value).isSome) :
    ∃ a, s.getAnnotation value = some a := by
  obtain ⟨a, ha⟩ := Option.isSome_iff_exists.1 h
  obtain ⟨hmem, hval⟩ := mem_of_getAnnotationsAsMap ha
  exact Option.isSome_iff_exists.1 (List.find?_isSome.2 ⟨a, hmem, beq_iff_eq.2 hval⟩)

theorem adjustTimestamps_eq (t : AdjusterSpanTreeEntry β) (sk : ClockSkew) :
    ∃ s', Shifted wrap t.span s' ∧ adjustTimestamps wrap t sk = .node (s', t.messages) t.children := by
  cases t with
  | node a cs =>
    unfold adjustTimestamps
    split
    · exact ⟨a.1, .refl, rfl⟩
    · exact ⟨_, .single ⟨sk, rfl⟩, rfl⟩

theorem lacksServer_eq_true {s : Span β} {cs : List (AdjusterSpanTreeEntry β)} (h : lacksServer s cs = true) :
    s.isValid = true ∧ cs ≠ [] ∧ (s.getAnnotationsAsMap ClientSend).isSome ∧ (s.getAnnotationsAsMap ClientRecv).isSome ∧
      containsServerCoreAnnotations s.getAnnotationsAsMap = false := by
  simp only [lacksServer, containsClientCoreAnnotations, Bool.and_eq_true, Bool.not_eq_true', decide_eq_true_eq] at h
  obtain ⟨⟨⟨hv, hlen⟩, hcs, hcr⟩, hs⟩ := h
  exact ⟨hv, List.ne_nil_of_length_pos hlen, hcs, hcr, hs⟩

/-! ## The values of the annotations -/

/-- Not what `validateSpan` completes: a valid span with children and the client's core annotations has the server's. -/
def Complete (s : Span β) (children : Nat) : Prop :=
  s.isValid = true → 0 < children → containsClientCoreAnnotations s.getAnnotationsAsMap = true →
    containsServerCoreAnnotations s.getAnnotationsAsMap = true

theorem lacksServer_eq_false_iff {s : Span β} {cs : List (AdjusterSpanTreeEntry β)} :
    lacksServer s cs = false ↔ Complete s cs.length := by
  rw [← Bool.not_eq_true, lacksServer, Complete]
  simp only [Bool.and_eq_true, Bool.not_eq_true', decide_eq_true_eq, not_and, and_imp, Bool.not_eq_false]

def SameValues (s s' : Span β) : Prop :=
  (s'.annotations.map Annotation.value).Perm (s.annotations.map Annotation.value)

theorem isSome_getAnnotationsAsMap {s : Span β} {value : String} :
    (s.getAnnotationsAsMap value).isSome ↔ value ∈ s.annotations.map Annotation.value := by
  rw [Span.getAnnotationsAsMap, List.getLast?_isSome, ne_eq, List.filter_eq_nil_iff, List.mem_map]
  simp only [beq_iff_eq, not_forall, not_not, exists_prop]

theorem filter_value_map {f : Annotation → Annotation} (hf : ∀ a, (f a).value = a.value) (p : String → Bool)
    (l : List Annotation) : (l.map f).filter (fun a => p a.value) = (l.filter (fun a => p a.value)).map f := by
  rw [List.filter_map]
  exact congrArg _ (List.filter_congr (fun a _ => by rw [Function.comp_apply, hf]))

theorem length_filter_value (l : List Annotation) (value : String) :
    (l.filter (fun a => a.value == value)).length = (l.map Annotation.value).count value := by
  rw [List.count, List.countP_map, List.countP_eq_length_filter]
  rfl

theorem SameValues.isSome_eq {s s' : Span β} (h : SameValues s s') (value : String) :
    (s'.getAnnotationsAsMap value).isSome = (s.getAnnotationsAsMap value).isSome := by
  rw [Bool.eq_iff_iff, isSome_getAnnotationsAsMap, isSome_getAnnotationsAsMap, h.mem_iff]

theorem Complete.of_sameValues {s s' : Span β} {n : Nat} (hs : SameValues s s') (h : Complete s n) : Complete s' n := by
  have hvalid : s'.isValid = s.isValid := by
    simp only [Span.isValid, length_filter_value, hs.count_eq]
  unfold Complete containsClientCoreAnnotations containsServerCoreAnnotations
  rw [hvalid, hs.isSome_eq, hs.isSome_eq, hs.isSome_eq, hs.isSome_eq]
  exact h

theorem value_adjustAnnotation (sk : ClockSkew) (a : Annotation) :
    (TimeSkewAdjuster.adjustAnnotation wrap sk a).value = a.value := by
  unfold adjustAnnotation
  split
  · split <;> rfl
  · rfl

theorem sameValues_adjustSpan (s : Span β) (sk : ClockSkew) : SameValues s (adjustSpan wrap s sk) := by
  refine ((s.annotations_copyAnnotations_perm _).map Annotation.value).trans (.of_eq ?_)
  rw [List.map_map]
  exact List.map_congr_left (fun a _ => value_adjustAnnotation wrap sk a)

theorem Shifted.sameValues {s s' : Span β} (h : Shifted wrap s s') : SameValues s s' := by
  induction h with
  | refl => exact .refl _
  | tail _ hstep ih =>
    obtain ⟨sk, rfl⟩ := hstep
    exact (sameValues_adjustSpan wrap _ sk).trans ih

theorem sameValues_ownAdjusted (v : Span β) : SameValues v (ownAdjusted wrap v) := by
  unfold ownAdjusted
  split
  · exact sameValues_adjustSpan wrap v _
  · exact .refl _

theorem sameValues_rebuilt (s : Span β) : SameValues s (rebuilt s s.annotations) :=
  (StableSort.sorted_perm _ s.annotations).map Annotation.value

theorem complete_of_serverAnnotations {s : Span β} {cs cr : Annotation} {endpoint : Option Endpoint} (n : Nat) :
    Complete (rebuilt s (s.annotations ++ serverAnnotations cs cr endpoint)) n := by
  intro _ _ _
  have hperm := (StableSort.sorted_perm Ord.compare (s.annotations ++ serverAnnotations cs cr endpoint)).map Annotation.value
  rw [containsServerCoreAnnotations, Bool.and_eq_true, isSome_getAnnotationsAsMap, isSome_getAnnotationsAsMap]
  refine ⟨hperm.mem_iff.2 ?_, hperm.mem_iff.2 ?_⟩
  · rw [List.map_append]
    exact List.mem_append_right _ (List.mem_cons_of_mem _ List.mem_cons_self)
  · rw [List.map_append]
    exact List.mem_append_right _ List.mem_cons_self

theorem validateSpan_of_complete {t : AdjusterSpanTreeEntry β} (h : Complete t.span t.children.length) :
    validateSpan wrap t = .node (rebuilt t.span t.span.annotations, t.messages) t.children := by
  simp only [validateSpan, lacksServer_eq_false_iff.2 h, Bool.false_eq_true, if_false]
  rfl

/-- A child of a span without server annotations, moved to fit. -/
def estranged (serverRecvTs serverSendTs : Int) (endpoint : Option Endpoint) (c : AdjusterSpanTreeEntry β) :
    AdjusterSpanTreeEntry β :=
  match estrangedSkew wrap serverRecvTs serverSendTs endpoint c.span with
  | some endpointSkew => adjustTimestamps wrap c endpointSkew
  | none => c

theorem estranged_eq (serverRecvTs serverSendTs : Int) (endpoint : Option Endpoint) (c : AdjusterSpanTreeEntry β) :
    ∃ s', Shifted wrap c.span s' ∧
      estranged wrap serverRecvTs serverSendTs endpoint c = .node (s', c.messages) c.children := by
  unfold estranged
  split
  · exact adjustTimestamps_eq wrap c _
  · cases c with | node a cs => exact ⟨a.1, .refl, rfl⟩

theorem validateSpan_of_lacks {t : AdjusterSpanTreeEntry β} {cs cr : Annotation}
    (h : lacksServer t.span t.children = true) (hcs : t.span.getAnnotation ClientSend = some cs)
    (hcr : t.span.getAnnotation ClientRecv = some cr) : ∃ m, validateSpan wrap t =
      .node (rebuilt t.span (t.span.annotations ++ serverAnnotations cs cr (endpointOf t.children)), m)
        (t.children.map (estranged wrap cs.timestamp cr.timestamp (endpointOf t.children))) := by
  refine ⟨t.messages ++ [TimeSkewAddServerRecv, TimeSkewAddServerSend], ?_⟩
  simp only [validateSpan, h, if_true, hcs, hcr]
  rfl

/-- **`validateSpan`**: the span is `Validated` and complete, and each child is moved at most. -/
theorem validateSpan_eq (t : AdjusterSpanTreeEntry β) :
    ∃ (v : Span β) (m : List AdjusterWarning) (f : AdjusterSpanTreeEntry β → AdjusterSpanTreeEntry β),
      Validated t.span v ∧ Complete v t.children.length ∧ (∀ c : AdjusterSpanTreeEntry β, ∃ s', Shifted wrap c.span s' ∧
        f c = .node (s', c.messages) c.children) ∧
      validateSpan wrap t = .node (v, m) (t.children.map f) := by
  have hid : ∀ c : AdjusterSpanTreeEntry β, ∃ s', Shifted wrap c.span s' ∧ id c = .node (s', c.messages) c.children :=
    fun c => by cases c with | node a cs => exact ⟨a.1, .refl, rfl⟩
  by_cases h : lacksServer t.span t.children = true
  · obtain ⟨hv, -, hcs, hcr, hs⟩ := lacksServer_eq_true h
    obtain ⟨cs, hcs⟩ := getAnnotation_of_isSome hcs
    obtain ⟨cr, hcr⟩ := getAnnotation_of_isSome hcr
    obtain ⟨m, heq⟩ := validateSpan_of_lacks wrap h hcs hcr
    exact ⟨_, m, _, .completed cs cr (endpointOf t.children) hv hcs hcr hs, complete_of_serverAnnotations _,
      estranged_eq wrap cs.timestamp cr.timestamp (endpointOf t.children), heq⟩
  · have hcomplete := lacksServer_eq_false_iff.1 (Bool.not_eq_true _ ▸ h)
    exact ⟨_, _, id, .kept, hcomplete.of_sameValues (sameValues_rebuilt t.span), hid,
      by rw [List.map_id]; exact validateSpan_of_complete wrap hcomplete⟩

/-! ## The tree -/

theorem previousAdjusted_eq (t : AdjusterSpanTreeEntry β) (prev : Option ClockSkew) :
    ∃ s', Shifted wrap t.span s' ∧ previousAdjusted wrap t prev = .node (s', t.messages) t.children := by
  cases prev with
  | some es => exact adjustTimestamps_eq wrap t es
  | none => cases t with | node a cs => exact ⟨a.1, .refl, rfl⟩

/-- The body of the recursion: the validated span is moved by its own skew, which goes on to the children. -/
theorem adjustNode_validated (recurse : AdjusterSpanTreeEntry β → Option ClockSkew → AdjusterSpanTreeEntry β)
    {t : AdjusterSpanTreeEntry β} {prev : Option ClockSkew} {v : Span β} {m : List AdjusterWarning}
    {cs : List (AdjusterSpanTreeEntry β)} (h : validateSpan wrap (previousAdjusted wrap t prev) = .node (v, m) cs) :
    adjustNode wrap recurse t prev =
      .node (ownAdjusted wrap v, m) (cs.map (fun c => recurse c (getClockSkewOf wrap v))) := by
  unfold adjustNode ownAdjusted
  simp only [h, AdjusterSpanTreeEntry.span_node, AdjusterSpanTreeEntry.messages_node, RoseTree.children_node]
  cases hes : getClockSkewOf wrap v with
  | none => rfl
  | some es =>
    simp only [adjustTimestamps, if_neg (getClockSkewOf_ne_zero wrap hes), AdjusterSpanTreeEntry.span_node,
      AdjusterSpanTreeEntry.messages_node, RoseTree.children_node]

/-- **One step of the recursion**: the node's span is adjusted and complete, and the recursion goes on below with the
node's own skew, on children that are moved at most. -/
theorem adjustNode_eq (t : AdjusterSpanTreeEntry β) (prev : Option ClockSkew) :
    ∃ (s' : Span β) (m : List AdjusterWarning) (f : AdjusterSpanTreeEntry β → AdjusterSpanTreeEntry β)
      (es : Option ClockSkew), Adjusted wrap t.span s' ∧ Complete s' t.children.length ∧
      (∀ c : AdjusterSpanTreeEntry β, ∃ s', Shifted wrap c.span s' ∧ f c = .node (s', c.messages) c.children) ∧
      ∀ recurse, adjustNode wrap recurse t prev = .node (s', m) (t.children.map (fun c => recurse (f c) es)) := by
  obtain ⟨s₁, hs₁, heq⟩ := previousAdjusted_eq wrap t prev
  obtain ⟨v, m, f, hv, hcomplete, hf, hval⟩ := validateSpan_eq wrap (.node (s₁, t.messages) t.children)
  rw [RoseTree.children_node] at hval hcomplete
  refine ⟨ownAdjusted wrap v, m, f, getClockSkewOf wrap v, ⟨s₁, v, hs₁, hv, rfl⟩,
    hcomplete.of_sameValues (sameValues_ownAdjusted wrap v), hf, fun recurse => ?_⟩
  rw [adjustNode_validated wrap recurse (by rw [heq]; exact hval), List.map_map]
  rfl

theorem Adjusted.of_shifted {s s₁ s' : Span β} (h : Shifted wrap s s₁) (h' : Adjusted wrap s₁ s') :
    Adjusted wrap s s' := by
  obtain ⟨s₂, v, hs₂, hv, rfl⟩ := h'
  exact ⟨s₂, v, h.trans hs₂, hv, rfl⟩

theorem adjustToDepth_eq (depth depth' : Nat) (t : AdjusterSpanTreeEntry β) (prev : Option ClockSkew) (h : t.height ≤ depth)
    (h' : t.height ≤ depth') : adjustToDepth wrap depth t prev = adjustToDepth wrap depth' t prev := by
  induction depth, t, h using RoseTree.induct_height generalizing depth' prev with
  | step depth a cs _ ih =>
    cases depth' with
    | zero => rw [RoseTree.height] at h'; omega
    | succ depth' =>
      obtain ⟨s', m, f, es, -, -, hf, heq⟩ := adjustNode_eq wrap (.node a cs) prev
      rw [adjustToDepth, adjustToDepth, heq, heq]
      refine congrArg _ (List.map_congr_left (fun c hc => ?_))
      obtain ⟨s₁, -, hfc⟩ := hf c
      have hchildren : (f c).children = c.children := by rw [hfc]; rfl
      obtain ⟨_, hrec⟩ := ih c hc (f c) hchildren
      refine hrec depth' es ?_
      rw [RoseTree.height_eq_of_children hchildren]
      exact Nat.le_of_lt_succ (Nat.lt_of_lt_of_le (RoseTree.height_lt_of_mem hc) h')

/-- **The rule for the nodes of a tree.**  What validation and the span's own skew make of a span with its number of
children, and what holds of a moved span only if it held of the span before, is so at every node of the adjusted tree. -/
theorem adjustToDepth_nodes {P : Span β → Nat → Span β → Prop}
    (hshifted : ∀ {s s₁ : Span β} {n : Nat} {s' : Span β}, Shifted wrap s s₁ → P s₁ n s' → P s n s')
    (hvalidated : ∀ {t : AdjusterSpanTreeEntry β} {v : Span β} {m : List AdjusterWarning}
      {cs : List (AdjusterSpanTreeEntry β)}, validateSpan wrap t = .node (v, m) cs →
      P t.span t.children.length (ownAdjusted wrap v))
    (depth : Nat) (t : AdjusterSpanTreeEntry β) (prev : Option ClockSkew) (h : t.height ≤ depth) :
    List.Forall₂ (fun x y => P x.1.1 x.2 y.1.1 ∧ y.2 = x.2) t.degrees (adjustToDepth wrap depth t prev).degrees := by
  induction depth, t, h using RoseTree.induct_height generalizing prev with
  | step depth a cs _ ih =>
    obtain ⟨s₁, hs₁, heq⟩ := previousAdjusted_eq wrap (.node a cs) prev
    obtain ⟨v, m, f, -, -, hf, hval⟩ := validateSpan_eq wrap (.node (s₁, a.2) cs)
    rw [adjustToDepth, adjustNode_validated wrap _ (by rw [heq]; exact hval)]
    have hown : P a.1 cs.length (ownAdjusted wrap v) := hshifted hs₁ (hvalidated hval)
    rw [RoseTree.degrees_node, RoseTree.degrees_node, List.length_map, RoseTree.children_node, List.length_map, List.map_map,
      List.flatMap_map]
    refine List.Forall₂.cons ⟨hown, rfl⟩ (RoseTree.forall₂_flatMap (fun c hc => ?_))
    -- below a child, the recursion runs on the child moved; only the child's own span sees the difference
    obtain ⟨s₂, hs₂, hfc⟩ := hf c
    obtain ⟨_, hrec⟩ := ih c hc (f c) (by rw [hfc]; rfl)
    have hrec := hrec (getClockSkewOf wrap v)
    rw [Function.comp_apply]
    rw [hfc] at hrec ⊢
    cases c with
    | node b ds =>
      rw [RoseTree.degrees_node] at hrec ⊢
      obtain ⟨y, ys, ⟨hy, hlen⟩, hys, heqy⟩ := List.forall₂_cons_left_iff.1 hrec
      rw [heqy]
      exact List.Forall₂.cons ⟨hshifted hs₂ hy, hlen⟩ hys

theorem adjusted_of_validateSpan {t : AdjusterSpanTreeEntry β} {v : Span β} {m : List AdjusterWarning}
    {cs : List (AdjusterSpanTreeEntry β)} (hval : validateSpan wrap t = .node (v, m) cs) :
    Adjusted wrap t.span (ownAdjusted wrap v) ∧ Complete (ownAdjusted wrap v) t.children.length := by
  obtain ⟨v', m', f, hv, hcomplete, -, hval'⟩ := validateSpan_eq wrap t
  rw [hval'] at hval
  injection hval with hlabel
  injection hlabel with hv' _
  subst hv'
  exact ⟨⟨t.span, v', .refl, hv, rfl⟩, hcomplete.of_sameValues (sameValues_ownAdjusted wrap v')⟩

/-- What the adjustment makes of a node: its span is adjusted, it has as many children, and is complete. -/
def AdjustedNode (x y : (Span β × List AdjusterWarning) × Nat) : Prop :=
  Adjusted wrap x.1.1 y.1.1 ∧ y.2 = x.2 ∧ Complete y.1.1 y.2

/-- **The adjusted tree, node by node.** -/
theorem adjustToDepth_degrees (depth : Nat) (t : AdjusterSpanTreeEntry β) (prev : Option ClockSkew)
    (h : t.height ≤ depth) :
    List.Forall₂ (AdjustedNode wrap) t.degrees (adjustToDepth wrap depth t prev).degrees := by
  refine (adjustToDepth_nodes wrap (P := fun s n s' => Adjusted wrap s s' ∧ Complete s' n)
    (fun hs hp => ⟨hp.1.of_shifted wrap hs, hp.2⟩) (adjusted_of_validateSpan wrap) depth t prev h).imp ?_
  rintro x y ⟨⟨hadj, hcomplete⟩, hlen⟩
  exact ⟨hadj, hlen, by rwa [hlen]⟩

/-- **The adjusted tree, span by span.** -/
theorem adjustToDepth_labels (depth : Nat) (t : AdjusterSpanTreeEntry β) (prev : Option ClockSkew)
    (h : t.height ≤ depth) : List.Forall₂ (fun x y => Adjusted wrap x.1 y.1) t.labels
      (adjustToDepth wrap depth t prev).labels := by
  rw [← RoseTree.map_fst_degrees, ← RoseTree.map_fst_degrees, List.forall₂_map_left_iff, List.forall₂_map_right_iff]
  exact (adjustToDepth_degrees wrap depth t prev h).imp (fun _ _ hnode => hnode.1)

/-- **The recursion of the source**: `adjustTree` is its body with itself for the calls below. -/
theorem adjustTree_eq (t : AdjusterSpanTreeEntry β) (prev : Option ClockSkew) :
    adjustTree wrap t prev = adjustNode wrap (adjustTree wrap) t prev := by
  obtain ⟨s', m, f, es, -, -, hf, heq⟩ := adjustNode_eq wrap t prev
  have hdepth : adjustTree wrap t prev = adjustToDepth wrap (t.height + 1) t prev :=
    adjustToDepth_eq wrap _ _ t prev (Nat.le_refl _) (Nat.le_succ _)
  rw [hdepth, adjustToDepth, heq, heq]
  refine congrArg _ (List.map_congr_left (fun c hc => ?_))
  obtain ⟨s₁, -, hfc⟩ := hf c
  have hheight : (f c).height = c.height := RoseTree.height_eq_of_children (by rw [hfc]; rfl)
  have hlt := RoseTree.height_lt_of_mem_children hc
  exact adjustToDepth_eq wrap _ _ (f c) es (by omega) (Nat.le_refl _)

/-! ## The trace -/

theorem Shifted.eq_but_annotations {s s' : Span β} (h : Shifted wrap s s') :
    s'.id = s.id ∧ s'.binaryAnnotations = s.binaryAnnotations := by
  induction h with
  | refl => exact ⟨rfl, rfl⟩
  | tail _ h ih => obtain ⟨sk, rfl⟩ := h; exact ih

/-- **The adjustment changes no id and no binary annotation.** -/
theorem Adjusted.eq_but_annotations {s s' : Span β} (h : Adjusted wrap s s') :
    s'.id = s.id ∧ s'.binaryAnnotations = s.binaryAnnotations := by
  obtain ⟨s₁, v, hs, hv, rfl⟩ := h
  have hown : (ownAdjusted wrap v).id = v.id ∧ (ownAdjusted wrap v).binaryAnnotations = v.binaryAnnotations := by
    unfold ownAdjusted
    split <;> exact ⟨rfl, rfl⟩
  have hvalid : v.id = s₁.id ∧ v.binaryAnnotations = s₁.binaryAnnotations := by
    cases hv <;> exact ⟨rfl, rfl⟩
  have hshift := hs.eq_but_annotations
  exact ⟨hown.1.trans (hvalid.1.trans hshift.1), hown.2.trans (hvalid.2.trans hshift.2)⟩

theorem map_id_of_adjusted {l l' : List (Span β)} (h : List.Forall₂ (Adjusted wrap) l l') :
    l'.map Span.id = l.map Span.id := by
  induction h with
  | nil => rfl
  | cons hs _ ih => rw [List.map_cons, List.map_cons, hs.eq_but_annotations.1, ih]

theorem forall₂_adjustTree (tree : SpanTreeEntry β) : List.Forall₂ (Adjusted wrap) tree.labels
    ((adjustTree wrap (AdjusterSpanTreeEntry.apply tree) none).labels.map Prod.fst) := by
  have hadj := adjustToDepth_labels wrap _ (AdjusterSpanTreeEntry.apply tree) none (Nat.le_refl _)
  rw [AdjusterSpanTreeEntry.apply, RoseTree.labels_map, List.forall₂_map_left_iff] at hadj
  exact List.forall₂_map_right_iff.2 hadj

/-- **The adjusted trace is the adjusted tree below the root**: the tree lists what the root reaches, and each of its
spans is adjusted in its place. -/
theorem adjust_tree (ord : HashOrder β) (t : Trace β) {r : Span β} (h : t.getRootSpan ord = some r) :
    ∃ tree, Trace.getSpanTree ord (t.getIdToChildrenMap ord) (t.spans ord).length r = some tree ∧
      (∀ s, s ∈ tree.labels ↔ t.Reachable ord r s) ∧ (tree.labels.map Span.id).Nodup ∧
      ((adjust wrap ord t).spans ord).Perm
        ((adjustTree wrap (AdjusterSpanTreeEntry.apply tree) none).labels.map Prod.fst) := by
  obtain ⟨tree, htree, hmem, hnd⟩ := Trace.getSpanTree_root ord t h
  let adjusted := (adjustTree wrap (AdjusterSpanTreeEntry.apply tree) none).map Prod.fst
  refine ⟨tree, htree, hmem, hnd, ?_⟩
  rw [← RoseTree.labels_map]
  have hperm := SpanTreeEntry.toList_perm adjusted
  have heq : adjust wrap ord t = ⟨SpanTreeEntry.toList adjusted⟩ := by
    simp only [adjust, h, htree]
    rfl
  rw [heq]
  refine (Trace.spans_perm_of_nodup ord ?_).trans hperm
  rw [(hperm.map Span.id).nodup_iff, RoseTree.labels_map, map_id_of_adjusted wrap (forall₂_adjustTree wrap tree)]
  exact hnd

/-- **The adjusted trace below a root**: its spans are those that the root reaches, each adjusted. -/
theorem adjust_root (ord : HashOrder β) (t : Trace β) {r : Span β} (h : t.getRootSpan ord = some r) :
    ∃ l l' : List (Span β), (∀ s, s ∈ l ↔ t.Reachable ord r s) ∧ (l.map Span.id).Nodup ∧
      List.Forall₂ (Adjusted wrap) l l' ∧ ((adjust wrap ord t).spans ord).Perm l' := by
  obtain ⟨tree, -, hmem, hnd, hperm⟩ := adjust_tree wrap ord t h
  exact ⟨tree.labels, _, hmem, hnd, forall₂_adjustTree wrap tree, hperm⟩

/-- **The rule for the spans of the adjusted trace**: what is so at the nodes of an adjusted tree is so of each span that
the root reaches, with its number of children, and its adjusted span, and no other spans are there. -/
theorem adjust_nodes {P : Span β → Nat → Span β → Prop}
    (hshifted : ∀ {s s₁ : Span β} {n : Nat} {s' : Span β}, Shifted wrap s s₁ → P s₁ n s' → P s n s')
    (hvalidated : ∀ {t : AdjusterSpanTreeEntry β} {v : Span β} {m : List AdjusterWarning}
      {cs : List (AdjusterSpanTreeEntry β)}, validateSpan wrap t = .node (v, m) cs →
      P t.span t.children.length (ownAdjusted wrap v))
    (ord : HashOrder β) (t : Trace β) {r : Span β} (h : t.getRootSpan ord = some r) :
    (∀ s, t.Reachable ord r s → ∃ s' ∈ (adjust wrap ord t).spans ord, P s (t.childrenOf ord s).length s') ∧
      ∀ s' ∈ (adjust wrap ord t).spans ord, ∃ s, t.Reachable ord r s ∧ P s (t.childrenOf ord s).length s' := by
  obtain ⟨tree, htree, hmem, -, hperm⟩ := adjust_tree wrap ord t h
  rw [Trace.getSpanTree_eq_unfold] at htree
  let top := AdjusterSpanTreeEntry.apply tree
  have htop : top.degrees = tree.degrees.map (fun x => ((x.1, []), x.2)) := RoseTree.degrees_map _ tree
  have hdegree := RoseTree.degree_of_unfold ord.treeSet_perm htree
  have hnodes := adjustToDepth_nodes wrap (P := P) hshifted hvalidated _ top none (Nat.le_refl _)
  rw [htop, List.forall₂_map_left_iff] at hnodes
  constructor
  · intro s hs
    rw [← hmem s, ← RoseTree.map_fst_degrees, List.mem_map] at hs
    obtain ⟨x, hx, rfl⟩ := hs
    obtain ⟨y, hy, hxy, -⟩ := RoseTree.exists_of_forall₂_left hnodes hx
    rw [← hdegree x hx]
    refine ⟨y.1.1, hperm.mem_iff.2 (List.mem_map_of_mem ?_), hxy⟩
    rw [← RoseTree.map_fst_degrees]
    exact List.mem_map_of_mem hy
  · intro s' hs'
    obtain ⟨y, hy, rfl⟩ := List.mem_map.1 (hperm.mem_iff.1 hs')
    rw [← RoseTree.map_fst_degrees, List.mem_map] at hy
    obtain ⟨y, hy, rfl⟩ := hy
    obtain ⟨x, hx, hxy, -⟩ := RoseTree.exists_of_forall₂_right hnodes hy
    rw [hdegree x hx] at hxy
    refine ⟨x.1, (hmem x.1).1 ?_, hxy⟩
    rw [← RoseTree.map_fst_degrees]
    exact List.mem_map_of_mem hx

theorem exists_mem_adjust (ord : HashOrder β) (t : Trace β) {r s : Span β} (h : t.getRootSpan ord = some r)
    (hs : t.Reachable ord r s) : ∃ s' ∈ (adjust wrap ord t).spans ord, Adjusted wrap s s' := by
  obtain ⟨s', hs', hadj, -⟩ := (adjust_nodes wrap (P := fun s n s' => Adjusted wrap s s' ∧ Complete s' n)
    (fun hs hp => ⟨hp.1.of_shifted wrap hs, hp.2⟩) (adjusted_of_validateSpan wrap) ord t h).1 s hs
  exact ⟨s', hs', hadj⟩

theorem exists_of_mem_adjust (ord : HashOrder β) (t : Trace β) {r s' : Span β} (h : t.getRootSpan ord = some r)
    (hs' : s' ∈ (adjust wrap ord t).spans ord) :
    ∃ s ∈ t.spans ord, t.Reachable ord r s ∧ Adjusted wrap s s' ∧ Complete s' (t.childrenOf ord s).length := by
  obtain ⟨s, hs, hadj⟩ := (adjust_nodes wrap (P := fun s n s' => Adjusted wrap s s' ∧ Complete s' n)
    (fun hs hp => ⟨hp.1.of_shifted wrap hs, hp.2⟩) (adjusted_of_validateSpan wrap) ord t h).2 s' hs'
  exact ⟨s, Trace.mem_spans_of_reachable ord t (Trace.getRootSpan_eq_some ord t h).1 hs, hs, hadj⟩

end TimeSkewAdjuster
end Zipkin
