import Zipkin.SkewClocks
import Zipkin.SkewTwice
import Zipkin.SkewValid
/-!
# SkewEstranged — children of a call without server annotations

A call of which only the client's half was recorded gets server annotations at the client's times, and each of its
children is moved against these times before the recursion goes on.  Three facts keep what that move brings about: the
skews that come to the call move its two annotations together; the added annotations show no skew, so that nothing is
passed on to the children; and a child's own skew is one of its server's host, which is not the host that recorded its
client's annotations.
-/
namespace Zipkin
namespace TimeSkewAdjuster

open Constants

variable {β : Type}

def ofValue (s : Span β) (value : String) : List Annotation := s.annotations.filter (fun a => a.value == value)

/-- A span called by `ep`: one client send and one client receive, at these times, and the server's annotations, none
or of both kinds, by hosts with other addresses. -/
structure CalledBy (ep : Endpoint) (cs cr : Int) (s : Span β) : Prop where
  clientSend : ofValue s ClientSend = [⟨cs, ClientSend, some ep⟩]
  clientRecv : ofValue s ClientRecv = [⟨cr, ClientRecv, some ep⟩]
  server : ∀ a ∈ s.annotations, CoreServer.contains a.value = true → ∀ host, a.host = some host → host.ipv4 ≠ ep.ipv4
  bothOrNeither : (s.getAnnotationsAsMap ServerRecv).isSome = (s.getAnnotationsAsMap ServerSend).isSome

def CalledFrom (ip : Int32) (s : Span β) : Prop := ∃ ep cs cr, ep.ipv4 = ip ∧ CalledBy ep cs cr s

/-- A valid span with one client send and one client receive, without server annotations, whose children were all called
from one address. -/
structure Estranged (ip : Int32) (children : List (Span β)) (p : Span β) (cs cr : Annotation) : Prop where
  valid : p.isValid = true
  clientSend : ofValue p ClientSend = [cs]
  clientRecv : ofValue p ClientRecv = [cr]
  ordered : cs.timestamp ≤ cr.timestamp
  serverRecv : ofValue p ServerRecv = []
  serverSend : ofValue p ServerSend = []
  children : ∀ c ∈ children, CalledFrom ip c
  not_loopback : ip ≠ LocalhostLoopBackIP

/-- A span of the trace without server annotations, and a child of it that took no longer. -/
structure EstrangedChild (ord : HashOrder β) (t : Trace β) (ip : Int32) (p : Span β) (cs cr : Annotation) (c : Span β)
    (ccs ccr : Annotation) : Prop where
  reachable : ∃ r, t.getRootSpan ord = some r ∧ t.Reachable ord r p
  parent : Estranged ip (t.childrenOf ord p) p cs cr
  child : c ∈ t.childrenOf ord p
  clientSend : ofValue c ClientSend = [ccs]
  clientRecv : ofValue c ClientRecv = [ccr]
  ordered : 0 ≤ ccr.timestamp - ccs.timestamp
  fits : ccr.timestamp - ccs.timestamp ≤ cr.timestamp - cs.timestamp

/-- The client's part of `c` lies in the client's part of `p`. -/
def LiesIn (p c : Span β) : Prop :=
  ∃ pcs pcr ccs ccr : Annotation, ofValue p ClientSend = [pcs] ∧ ofValue p ClientRecv = [pcr] ∧
    ofValue c ClientSend = [ccs] ∧ ofValue c ClientRecv = [ccr] ∧
    pcs.timestamp ≤ ccs.timestamp ∧ ccs.timestamp ≤ ccr.timestamp ∧ ccr.timestamp ≤ pcr.timestamp

/-- In the adjusted trace, the spans with the ids of `p` and `c` are one in the other. -/
def AdjustedInto (ord : HashOrder β) (t : Trace β) (p c : Span β) : Prop :=
  ∃ p' ∈ (adjust wrap64 ord t).spans ord, p'.id = p.id ∧
    ∃ c' ∈ (adjust wrap64 ord t).spans ord, c'.id = c.id ∧ LiesIn p' c'

/-! ## The pair of the client's annotations -/

theorem ofValue_adjustSpan {s : Span β} {value : String} {a : Annotation} (sk : ClockSkew)
    (h : ofValue s value = [a]) : ofValue (adjustSpan id s sk) value = [TimeSkewAdjuster.adjustAnnotation id sk a] :=
  filter_value_of_perm (TimeSkewAdjuster.value_adjustAnnotation id sk) (s.annotations_copyAnnotations_perm _) h

theorem value_of_ofValue {s : Span β} {value : String} {a : Annotation} (h : ofValue s value = [a]) : a.value = value :=
  beq_iff_eq.1 (List.mem_filter.1 (h.symm ▸ List.mem_singleton_self a : a ∈ ofValue s value)).2

theorem getAnnotation_of_ofValue {s : Span β} {value : String} {a : Annotation} (h : ofValue s value = [a]) :
    s.getAnnotation value = some a := by
  rw [Span.getAnnotation, ← List.head?_filter]
  exact congrArg List.head? h

theorem getAnnotationsAsMap_of_ofValue {s : Span β} {value : String} {a : Annotation} (h : ofValue s value = [a]) :
    s.getAnnotationsAsMap value = some a :=
  congrArg List.getLast? h

/-- The client's two annotations, recorded at one address or both without a host. -/
structure ClientPair (s : Span β) (cs cr : Annotation) : Prop where
  clientSend : ofValue s ClientSend = [cs]
  clientRecv : ofValue s ClientRecv = [cr]
  sameHost : cs.host.map Endpoint.ipv4 = cr.host.map Endpoint.ipv4

namespace ClientPair

variable {s s' : Span β} {cs cr : Annotation}

theorem isMoved_eq (h : ClientPair s cs cr) (sk : ClockSkew) : isMoved sk cs = isMoved sk cr := by
  have hcs := value_of_ofValue h.clientSend
  have hcr := value_of_ofValue h.clientRecv
  have hhost := h.sameHost
  unfold isMoved
  cases hs : cs.host with
  | none =>
    rw [hs, Option.map_none, eq_comm, Option.map_eq_none_iff] at hhost
    rw [hhost]
  | some ep =>
    rw [hs, Option.map_some, eq_comm, Option.map_eq_some_iff] at hhost
    obtain ⟨ep', hr, hip⟩ := hhost
    rw [hr]
    simp only [isHost, hcs, hcr, hip, beq_self_eq_true, Bool.or_true, Bool.true_or]

theorem adjustSpan (h : ClientPair s cs cr) (sk : ClockSkew) :
    ∃ cs' cr', ClientPair (adjustSpan id s sk) cs' cr' ∧ cr'.timestamp - cs'.timestamp = cr.timestamp - cs.timestamp := by
  refine ⟨_, _, ⟨ofValue_adjustSpan sk h.clientSend, ofValue_adjustSpan sk h.clientRecv, ?_⟩, ?_⟩
  · rw [TimeSkewAdjuster.host_adjustAnnotation, host_adjustAnnotation, h.sameHost]
  · rw [TimeSkewAdjuster.timestamp_adjustAnnotation, timestamp_adjustAnnotation, h.isMoved_eq sk]
    split <;> omega

/-- **Every skew that comes to the span moves the pair as a whole.** -/
theorem shifted (h : ClientPair s cs cr) (hs : Shifted id s s') :
    ∃ cs' cr', ClientPair s' cs' cr' ∧ cr'.timestamp - cs'.timestamp = cr.timestamp - cs.timestamp := by
  induction hs with
  | refl => exact ⟨cs, cr, h, rfl⟩
  | tail _ hstep ih =>
    obtain ⟨sk, rfl⟩ := hstep
    obtain ⟨cs₁, cr₁, h₁, hdur₁⟩ := ih
    obtain ⟨cs', cr', h', hdur⟩ := h₁.adjustSpan sk
    exact ⟨cs', cr', h', hdur.trans hdur₁⟩

end ClientPair

theorem ofValue_eq_nil {s : Span β} {value : String} (h : (s.getAnnotationsAsMap value).isSome = false) :
    ofValue s value = [] :=
  List.getLast?_eq_none_iff.1 (Option.isSome_eq_false_iff.1 h |> Option.isNone_iff_eq_none.1)

/-! ## A child -/

namespace CalledBy

variable {ep : Endpoint} {cs cr : Int} {s w : Span β}

/-- **A skew of the address moves the client's pair.** -/
theorem adjustSpan (h : CalledBy ep cs cr s) (hloop : ep.ipv4 ≠ LocalhostLoopBackIP) (sk : ClockSkew) :
    CalledBy ep (cs - shiftOf sk ep) (cr - shiftOf sk ep) (adjustSpan id s sk) := by
  have hmoved {value : String} {ts : Int} (hone : ofValue s value = [⟨ts, value, some ep⟩]) :
      ofValue (TimeSkewAdjuster.adjustSpan id s sk) value = [⟨ts - shiftOf sk ep, value, some ep⟩] := by
    rw [ofValue_adjustSpan sk hone, adjustAnnotation_id (fun _ => hloop)]
  have hsame := sameValues_adjustSpan id s sk
  refine ⟨hmoved h.clientSend, hmoved h.clientRecv, fun a ha hvalue => ?_, ?_⟩
  · obtain ⟨b, hb, rfl⟩ := List.mem_map.1 ((s.annotations_copyAnnotations_perm _).mem_iff.1 ha)
    rw [TimeSkewAdjuster.value_adjustAnnotation] at hvalue
    rw [TimeSkewAdjuster.host_adjustAnnotation]
    exact h.server b hb hvalue
  · rw [hsame.isSome_eq, hsame.isSome_eq]
    exact h.bothOrNeither

theorem rebuilt (h : CalledBy ep cs cr s) : CalledBy ep cs cr (rebuilt s s.annotations) := by
  have hkeep := annotations_rebuilt s
  have hmap : (TimeSkewAdjuster.rebuilt s s.annotations).getAnnotationsAsMap = s.getAnnotationsAsMap :=
    funext fun value => by rw [Span.getAnnotationsAsMap, Span.getAnnotationsAsMap, hkeep]
  refine ⟨?_, ?_, ?_, ?_⟩
  · rw [ofValue, hkeep]; exact h.clientSend
  · rw [ofValue, hkeep]; exact h.clientRecv
  · rw [hkeep]; exact h.server
  · rw [hmap]; exact h.bothOrNeither

/-- **The span's own skew is not the client's**: it is one of the server's host, or there is none. -/
theorem ownAdjusted (h : CalledBy ep cs cr s) (hloop : ep.ipv4 ≠ LocalhostLoopBackIP) (hv : Validated s w) :
    ofValue (ownAdjusted id w) ClientSend = [⟨cs, ClientSend, some ep⟩] ∧
      ofValue (ownAdjusted id w) ClientRecv = [⟨cr, ClientRecv, some ep⟩] := by
  unfold TimeSkewAdjuster.ownAdjusted
  cases hv with
  | kept =>
    have hkept := h.rebuilt
    cases hes : getClockSkewOf id (TimeSkewAdjuster.rebuilt s s.annotations) with
    | none => exact ⟨hkept.clientSend, hkept.clientRecv⟩
    | some es =>
      obtain ⟨_, _, sr, _, hsr, hhost, -⟩ := getClockSkewOf_eq_some id hes
      obtain ⟨hmem, hvalue⟩ := mem_of_getAnnotationsAsMap hsr
      have hne := hkept.server sr hmem (by rw [hvalue]; decide) _ hhost
      have hmoved := hkept.adjustSpan hloop es
      rw [shiftOf, if_neg hne, Int.sub_zero, Int.sub_zero] at hmoved
      exact ⟨hmoved.clientSend, hmoved.clientRecv⟩
  | completed a b endpoint _ hcs hcr lacks =>
    obtain rfl := Option.some.inj ((getAnnotation_of_ofValue h.clientSend).symm.trans hcs)
    obtain rfl := Option.some.inj ((getAnnotation_of_ofValue h.clientRecv).symm.trans hcr)
    have hboth := h.bothOrNeither
    rw [containsServerCoreAnnotations, hboth, Bool.and_self] at lacks
    have hsr := ofValue_eq_nil (hboth.trans lacks)
    have hss := ofValue_eq_nil lacks
    rw [getClockSkewOf_completed endpoint h.clientSend h.clientRecv hsr hss]
    have hone := oneOfEach_completed endpoint h.clientSend h.clientRecv hsr hss
    exact ⟨hone.clientSend, hone.clientRecv⟩

theorem clientSide (h : CalledBy ep cs cr s) : ∃ a l, s.clientSideAnnotations = a :: l ∧ a.host = some ep := by
  have hmem : (⟨cs, ClientSend, some ep⟩ : Annotation) ∈ s.clientSideAnnotations := by
    have h' : (⟨cs, ClientSend, some ep⟩ : Annotation) ∈ ofValue s ClientSend := h.clientSend ▸ List.mem_singleton_self _
    exact List.mem_filter.2 ⟨(List.mem_filter.1 h').1, rfl⟩
  cases hl : s.clientSideAnnotations with
  | nil => rw [hl] at hmem; cases hmem
  | cons a l =>
    refine ⟨a, l, rfl, ?_⟩
    have ha : a ∈ s.clientSideAnnotations := hl ▸ List.mem_cons_self
    obtain ⟨ha, hvalue⟩ := List.mem_filter.1 ha
    simp only [CoreClient, List.contains_cons, List.contains_nil, Bool.or_false, Bool.or_eq_true] at hvalue
    rcases hvalue with hvalue | hvalue
    · have h' : a ∈ ofValue s ClientSend := List.mem_filter.2 ⟨ha, hvalue⟩
      rw [h.clientSend, List.mem_singleton] at h'
      rw [h']
    · have h' : a ∈ ofValue s ClientRecv := List.mem_filter.2 ⟨ha, hvalue⟩
      rw [h.clientRecv, List.mem_singleton] at h'
      rw [h']

end CalledBy

/-! ## The first child's endpoint -/

theorem endpointOf_calledFrom {ip : Int32} {children : List (AdjusterSpanTreeEntry β)} (hne : children ≠ [])
    (h : ∀ c ∈ children, CalledFrom ip c.span) : ∃ ep, endpointOf children = some ep ∧ ep.ipv4 = ip := by
  cases children with
  | nil => exact absurd rfl hne
  | cons c _ =>
    obtain ⟨ep, cs, cr, hip, hc⟩ := h c List.mem_cons_self
    obtain ⟨a, l, hl, hhost⟩ := hc.clientSide
    refine ⟨ep, ?_, hip⟩
    simp only [endpointOf, hl]
    exact hhost

/-- **The move of a child**, by the skew against the times of its parent. -/
theorem CalledBy.estranged (pcs pcr : Int) {ep host : Endpoint} {cs cr : Int} {c : AdjusterSpanTreeEntry β}
    (h : CalledBy ep cs cr c.span) (hip : host.ipv4 = ep.ipv4) (hloop : ep.ipv4 ≠ LocalhostLoopBackIP) :
    CalledBy ep (cs - skewOf (getClockSkew id pcs pcr cs cr host)) (cr - skewOf (getClockSkew id pcs pcr cs cr host))
      (estranged id pcs pcr (some host) c).span := by
  have hskew : estrangedSkew id pcs pcr (some host) c.span = getClockSkew id pcs pcr cs cr host := by
    simp only [estrangedSkew, getAnnotationsAsMap_of_ofValue h.clientSend, getAnnotationsAsMap_of_ofValue h.clientRecv,
      Option.bind_some]
  rw [TimeSkewAdjuster.estranged, hskew]
  cases hsk : getClockSkew id pcs pcr cs cr host with
  | none =>
    rw [skewOf_none, Int.sub_zero, Int.sub_zero]
    exact h
  | some es =>
    obtain ⟨hend, hzero, -⟩ := getClockSkew_eq_some id hsk
    have hmoved := h.adjustSpan hloop es
    rw [shiftOf, hend, if_pos hip] at hmoved
    simp only [adjustTimestamps, if_neg hzero]
    exact hmoved

/-! ## The tree -/

section Tree
variable (wrap : Int → Int)

/-- **The recursion comes to every tree below the top**, with its own span moved at most. -/
theorem labels_adjustTree_below {t u : AdjusterSpanTreeEntry β} (h : RoseTree.Below t u) :
    ∀ {t₀ : AdjusterSpanTreeEntry β}, Shifted wrap t.span t₀.span → t₀.children = t.children →
      ∀ prev : Option ClockSkew, ∃ (u₀ : AdjusterSpanTreeEntry β) (prev' : Option ClockSkew),
        Shifted wrap u.span u₀.span ∧ u₀.children = u.children ∧
          ∀ y ∈ (adjustTree wrap u₀ prev').labels, y ∈ (adjustTree wrap t₀ prev).labels := by
  induction h using Relation.ReflTransGen.head_induction_on with
  | refl => exact fun {t₀} hs hchildren prev => ⟨t₀, prev, hs, hchildren, fun _ hy => hy⟩
  | @head t c hc _ ih =>
    intro t₀ _ hchildren prev
    obtain ⟨s', m, f, es, -, -, hf, heq⟩ := adjustNode_eq wrap t₀ prev
    obtain ⟨s₁, hs₁, hfc⟩ := hf c
    obtain ⟨u₀, prev', hu, huc, hlabels⟩ := ih (show Shifted wrap c.span (f c).span by rw [hfc]; exact hs₁)
      (by rw [hfc]; rfl) es
    refine ⟨u₀, prev', hu, huc, fun y hy => ?_⟩
    rw [adjustTree_eq, heq, RoseTree.labels_node, List.mem_cons, List.mem_flatMap]
    exact Or.inr ⟨_, List.mem_map_of_mem (hchildren ▸ hc), hlabels y hy⟩

/-- **Without a skew from above the top is validated as it is**, and moved by its own skew. -/
theorem top_adjustTree_none (t : AdjusterSpanTreeEntry β) :
    ∃ w m, Validated t.span w ∧ (ownAdjusted wrap w, m) ∈ (adjustTree wrap t none).labels := by
  obtain ⟨w, m, f, hv, -, -, hval⟩ := validateSpan_eq wrap t
  have hval' : validateSpan wrap (previousAdjusted wrap t none) = .node (w, m) (t.children.map f) := hval
  refine ⟨w, m, hv, ?_⟩
  rw [adjustTree_eq, adjustNode_validated wrap (adjustTree wrap) hval', RoseTree.labels_node]
  exact List.mem_cons_self

end Tree

namespace Estranged

variable {ip : Int32} {children : List (Span β)} {p s : Span β} {cs cr : Annotation}

theorem noServer (h : Estranged ip children p cs cr) (hs : Shifted id p s) :
    ofValue s ServerRecv = [] ∧ ofValue s ServerSend = [] := by
  have hnone {value : String} (hnil : ofValue p value = []) : ofValue s value = [] := by
    refine ofValue_eq_nil ?_
    rw [hs.sameValues.isSome_eq, Span.getAnnotationsAsMap, show p.annotations.filter _ = [] from hnil]
    rfl
  exact ⟨hnone h.serverRecv, hnone h.serverSend⟩

/-- **The call is one that `validateSpan` completes**, if it has children. -/
theorem lacksServer (h : Estranged ip children p cs cr) (hs : Shifted id p s) {cs' cr' : Annotation}
    (hpair : ClientPair s cs' cr') {entries : List (AdjusterSpanTreeEntry β)} (hne : entries ≠ []) :
    lacksServer s entries = true := by
  obtain ⟨hsr, hss⟩ := h.noServer hs
  have hvalid : s.isValid = true := hs.sameValues.isValid_eq.trans h.valid
  have hnone {value : String} (hnil : ofValue s value = []) : (s.getAnnotationsAsMap value).isSome = false := by
    rw [Span.getAnnotationsAsMap, show s.annotations.filter _ = [] from hnil]
    rfl
  simp only [TimeSkewAdjuster.lacksServer, containsClientCoreAnnotations, containsServerCoreAnnotations, hvalid,
    List.length_pos_iff.2 hne, getAnnotationsAsMap_of_ofValue hpair.clientSend,
    getAnnotationsAsMap_of_ofValue hpair.clientRecv, hnone hsr, hnone hss, decide_true, Option.isSome_some, Bool.and_self,
    Bool.not_false]

end Estranged

/-- **A call without server annotations, and a child of it**: wherever they stand, and whatever skew has come down. -/
theorem exists_liesIn {ip : Int32} {u : AdjusterSpanTreeEntry β} {p : Span β} {cs cr : Annotation}
    (hp : Estranged ip (u.children.map AdjusterSpanTreeEntry.span) p cs cr)
    (hhost : cs.host.map Endpoint.ipv4 = cr.host.map Endpoint.ipv4) (hshift : Shifted id p u.span)
    {c : AdjusterSpanTreeEntry β} (hc : c ∈ u.children) {ep : Endpoint} {ccs ccr : Int} (hip : ep.ipv4 = ip)
    (hcalled : CalledBy ep ccs ccr c.span) (hdur : 0 ≤ ccr - ccs) (hfits : ccr - ccs ≤ cr.timestamp - cs.timestamp)
    (prev : Option ClockSkew) : ∃ x ∈ (adjustTree id u prev).labels, ∃ y ∈ (adjustTree id u prev).labels,
      x.1.id = p.id ∧ y.1.id = c.span.id ∧ LiesIn x.1 y.1 := by
  -- the call as `validateSpan` finds it: both of its annotations moved by one amount
  obtain ⟨s₁, hs₁, heq⟩ := previousAdjusted_eq id u prev
  have hs : Shifted id p s₁ := hshift.trans hs₁
  obtain ⟨cs₁, cr₁, hpair, hdur₁⟩ := (ClientPair.mk hp.clientSend hp.clientRecv hhost).shifted hs
  have hlacks := hp.lacksServer hs hpair (List.ne_nil_of_mem hc)
  obtain ⟨host, hend, hhostip⟩ := endpointOf_calledFrom (List.ne_nil_of_mem hc)
    (fun c hc => hp.children c.span (List.mem_map_of_mem hc))
  obtain ⟨m, hval⟩ := validateSpan_of_lacks id (t := .node (s₁, u.messages) u.children) hlacks
    (getAnnotation_of_ofValue hpair.clientSend) (getAnnotation_of_ofValue hpair.clientRecv)
  rw [RoseTree.children_node, AdjusterSpanTreeEntry.span_node, hend, ← heq] at hval
  -- the added annotations show no skew: the call stays, and nothing goes on to the children
  obtain ⟨hsr, hss⟩ := hp.noServer hs
  have hquiet := getClockSkewOf_completed (some host) hpair.clientSend hpair.clientRecv hsr hss
  have hone := oneOfEach_completed (some host) hpair.clientSend hpair.clientRecv hsr hss
  have hnode := adjustNode_validated id (adjustTree id) hval
  simp only [← adjustTree_eq, ownAdjusted, hquiet] at hnode
  rw [hnode, RoseTree.labels_node]
  refine ⟨_, List.mem_cons_self, ?_⟩
  -- the child is moved into the call, and its own skew moves its server only
  have hloop : ep.ipv4 ≠ LocalhostLoopBackIP := hip ▸ hp.not_loopback
  have hmoved := hcalled.estranged cs₁.timestamp cr₁.timestamp (hhostip.trans hip.symm) hloop
  have hinto := getClockSkew_into host hdur (show ccr - ccs ≤ cr₁.timestamp - cs₁.timestamp by omega)
  obtain ⟨w, m', hw, hmem⟩ := top_adjustTree_none id (estranged id cs₁.timestamp cr₁.timestamp (some host) c)
  obtain ⟨hcs', hcr'⟩ := hmoved.ownAdjusted hloop hw
  refine ⟨_, List.mem_cons_of_mem _ (List.mem_flatMap.2 ⟨_, List.mem_map_of_mem (List.mem_map_of_mem hc), hmem⟩),
    ?_, ?_, _, _, _, _, hone.clientSend, hone.clientRecv, hcs', hcr', hinto⟩
  · exact hs.eq_but_annotations.1
  · obtain ⟨s₂, hs₂, heq₂⟩ := estranged_eq id cs₁.timestamp cr₁.timestamp (some host) c
    rw [heq₂] at hw
    exact (Adjusted.eq_but_annotations id ⟨s₂, w, hs₂, hw, rfl⟩).1

/-! ## The trace -/

/-- **Where the recursion comes to a reachable span**: at a tree of it and its children, of which the adjusted trace has
all spans. -/
theorem exists_adjustTree (ord : HashOrder β) (t : Trace β) {r p : Span β} (hroot : t.getRootSpan ord = some r)
    (hreach : t.Reachable ord r p) : ∃ (u : AdjusterSpanTreeEntry β) (prev : Option ClockSkew), Shifted id p u.span ∧
      (u.children.map AdjusterSpanTreeEntry.span).Perm (t.childrenOf ord p) ∧
      ∀ x ∈ (adjustTree id u prev).labels, x.1 ∈ (adjust id ord t).spans ord := by
  obtain ⟨tree, htree, -, -, hperm⟩ := adjust_tree id ord t hroot
  rw [Trace.getSpanTree_eq_unfold] at htree
  have hr := (Trace.getRootSpan_eq_some ord t hroot).1
  have hsteps : Relation.ReflTransGen (fun y z => z ∈ t.childrenOf ord y) r p := by
    rw [RoseTree.reaches_iff_step (fun _ _ => Trace.step_mem ord t) hr, Trace.step_childrenOf]
    exact hreach
  obtain ⟨n, d, hbelow, hd⟩ := RoseTree.below_of_unfold ord.treeSet_perm htree hsteps
  cases n with
  | zero => cases hd
  | succ n =>
    obtain ⟨ts, hts, rfl⟩ := RoseTree.unfold_succ_eq_some.1 hd
    obtain ⟨u, prev, hshift, hchildren, hlabels⟩ := labels_adjustTree_below id
      (RoseTree.Below.map (f := fun span => (span, ([] : List AdjusterWarning))) hbelow) .refl rfl none
    rw [RoseTree.map_node] at hchildren hshift
    refine ⟨u, prev, hshift, ?_, fun x hx => hperm.mem_iff.2 (List.mem_map_of_mem (hlabels x hx))⟩
    have hspan (d : SpanTreeEntry β) : (AdjusterSpanTreeEntry.apply d).span = d.label := by cases d; rfl
    have hspans : u.children.map AdjusterSpanTreeEntry.span = (ord.treeSet ts).map RoseTree.label := by
      rw [hchildren, RoseTree.children_node, List.map_map]
      exact List.map_congr_left (fun d _ => hspan d)
    rw [hspans, ← RoseTree.map_label_of_unfold hts]
    exact (ord.treeSet_perm ts).map _

/-- **A child fits into a call without server annotations**, whatever skew has come down to the call: if both of the
call's own annotations were recorded at one address, and nothing overflows. -/
theorem adjustedInto_of_estranged (ord : HashOrder β) (t : Trace β) {ip : Int32} {p c : Span β}
    {cs cr ccs ccr : Annotation} (h : EstrangedChild ord t ip p cs cr c ccs ccr)
    (hhost : cs.host.map Endpoint.ipv4 = cr.host.map Endpoint.ipv4) (hno : NoOverflow ord t) :
    AdjustedInto ord t p c := by
  obtain ⟨⟨r, hroot, hreach⟩, hp, hc, hccs, hccr, hdur, hfits⟩ := h
  unfold AdjustedInto
  rw [hno]
  -- the tree of the call, and in it the tree of the child
  obtain ⟨u, prev, hshift, hchildren, hadj⟩ := exists_adjustTree ord t hroot hreach
  obtain ⟨d, hd, rfl⟩ := List.mem_map.1 (hchildren.mem_iff.2 hc)
  have hp' : Estranged ip (u.children.map AdjusterSpanTreeEntry.span) p cs cr :=
    { hp with children := fun c' hc' => hp.children c' (hchildren.mem_iff.1 hc') }
  obtain ⟨ep, cs', cr', hip, hcalled⟩ := hp.children _ hc
  have hcs := hcalled.clientSend.symm.trans hccs
  have hcr := hcalled.clientRecv.symm.trans hccr
  rw [List.singleton_inj] at hcs hcr
  rw [← hcs, ← hcr] at hdur hfits
  obtain ⟨x, hx, y, hy, hxid, hyid, hlies⟩ := exists_liesIn hp' hhost hshift hd hip hcalled hdur hfits prev
  exact ⟨x.1, hadj x hx, hxid, y.1, hadj y hy, hyid, hlies⟩

/-- A root span whose server's clock is ahead by 500. -/
def aheadSpan : Span Unit :=
  Span.apply 1 "get" 1 none
    [⟨0, ClientSend, some ⟨10, 80, "web"⟩⟩, ⟨1000, ClientRecv, some ⟨10, 80, "web"⟩⟩,
     ⟨600, ServerRecv, some ⟨20, 80, "app"⟩⟩, ⟨1400, ServerSend, some ⟨20, 80, "app"⟩⟩] []

/-- A call of which only the client's half was recorded, by these hosts from this time on. -/
def halfCall (sender receiver : Endpoint) (start : Int) : Span Unit :=
  Span.apply 1 "call" 2 (some 1) [⟨start, ClientSend, some sender⟩, ⟨start + 200, ClientRecv, some receiver⟩] []

def halfCallChild (start : Int) : Span Unit :=
  Span.apply 1 "read" 3 (some 2)
    [⟨start + 20, ClientSend, some ⟨40, 80, "db"⟩⟩, ⟨start + 180, ClientRecv, some ⟨40, 80, "db"⟩⟩] []

def halfCallTrace (sender receiver : Endpoint) (start : Int) : Trace Unit :=
  ⟨[aheadSpan, halfCall sender receiver start, halfCallChild start]⟩

def HalfCall (sender receiver : Endpoint) (start : Int) : Prop :=
  EstrangedChild (.insertion Unit) (halfCallTrace sender receiver start) 40 (halfCall sender receiver start)
    ⟨start, ClientSend, some sender⟩ ⟨start + 200, ClientRecv, some receiver⟩ (halfCallChild start)
    ⟨start + 20, ClientSend, some ⟨40, 80, "db"⟩⟩ ⟨start + 180, ClientRecv, some ⟨40, 80, "db"⟩⟩

theorem halfCall_of_childrenOf {sender receiver : Endpoint} {start : Int}
    (hroot : (halfCallTrace sender receiver start).getRootSpan (.insertion Unit) = some aheadSpan)
    (hreach : (halfCallTrace sender receiver start).ChildOf (.insertion Unit) aheadSpan (halfCall sender receiver start))
    (hchildren : (halfCallTrace sender receiver start).childrenOf (.insertion Unit) (halfCall sender receiver start) =
      [halfCallChild start])
    (hcall : (halfCall sender receiver start).annotations =
      [⟨start, ClientSend, some sender⟩, ⟨start + 200, ClientRecv, some receiver⟩])
    (hchild : (halfCallChild start).annotations =
      [⟨start + 20, ClientSend, some ⟨40, 80, "db"⟩⟩, ⟨start + 180, ClientRecv, some ⟨40, 80, "db"⟩⟩]) :
    HalfCall sender receiver start := by
  have hclient : CalledFrom 40 (halfCallChild start) := by
    refine ⟨⟨40, 80, "db"⟩, start + 20, start + 180, rfl, ?_, ?_, ?_, ?_⟩
    · rw [ofValue, hchild]; rfl
    · rw [ofValue, hchild]; rfl
    · rw [hchild]
      intro a ha hserver
      rcases List.mem_cons.1 ha with rfl | ha
      · exact absurd hserver (show ¬ CoreServer.contains ClientSend = true by decide)
      · rw [List.mem_singleton.1 ha] at hserver
        exact absurd hserver (show ¬ CoreServer.contains ClientRecv = true by decide)
    · rw [Span.getAnnotationsAsMap, Span.getAnnotationsAsMap, hchild]; rfl
  refine ⟨⟨aheadSpan, hroot, .single hreach⟩, ?_, ?_, ?_, ?_, ?_, ?_⟩
  · refine ⟨?_, ?_, ?_, ?_, ?_, ?_, ?_, by decide⟩
    · rw [Span.isValid, hcall]; rfl
    · rw [ofValue, hcall]; rfl
    · rw [ofValue, hcall]; rfl
    · show start ≤ start + 200
      omega
    · rw [ofValue, hcall]; rfl
    · rw [ofValue, hcall]; rfl
    · rw [hchildren]
      exact fun c hc => List.mem_singleton.1 hc ▸ hclient
  · rw [hchildren]
    exact List.mem_singleton_self _
  · rw [ofValue, hchild]; rfl
  · rw [ofValue, hchild]; rfl
  · show 0 ≤ start + 180 - (start + 20)
    omega
  · show start + 180 - (start + 20) ≤ start + 200 - start
    omega

theorem adjustedInto_halfCall :
    AdjustedInto (.insertion Unit) (halfCallTrace ⟨20, 80, "app"⟩ ⟨20, 80, "app"⟩ 700)
      (halfCall ⟨20, 80, "app"⟩ ⟨20, 80, "app"⟩ 700) (halfCallChild 700) :=
  have h : HalfCall ⟨20, 80, "app"⟩ ⟨20, 80, "app"⟩ 700 := halfCall_of_childrenOf (by decide)
    ⟨by decide, by decide, by decide⟩ (by decide) (by decide) (by decide)
  adjustedInto_of_estranged (.insertion Unit) (halfCallTrace ⟨20, 80, "app"⟩ ⟨20, 80, "app"⟩ 700) h rfl (by decide +kernel)

/-- Where the call ends in the adjusted trace, and when its child. -/
def endsIn (t : Trace Unit) : List (Int64 × Int × Int) :=
  ((adjust wrap64 (.insertion Unit) t).spans (.insertion Unit)).flatMap (fun s =>
    (ofValue s ClientSend).flatMap (fun cs => (ofValue s ClientRecv).map (fun cr => (s.id, cs.timestamp, cr.timestamp))))

theorem mem_endsIn {t : Trace Unit} {s : Span Unit} (hs : s ∈ (adjust wrap64 (.insertion Unit) t).spans (.insertion Unit))
    {cs cr : Annotation} (hcs : ofValue s ClientSend = [cs]) (hcr : ofValue s ClientRecv = [cr]) :
    (s.id, cs.timestamp, cr.timestamp) ∈ endsIn t := by
  refine List.mem_flatMap.2 ⟨s, hs, ?_⟩
  rw [hcs, hcr]
  exact List.mem_singleton_self _

/-- **Neither condition can be left out.**  The skew of the root span's server moves the receive of a call whose send
another host recorded to a time before it.  And close to the smallest `Long`, it moves the send of a call past it. -/
theorem not_adjustedInto_halfCall :
    (HalfCall ⟨30, 80, "old"⟩ ⟨20, 80, "app"⟩ 700 ∧
      NoOverflow (.insertion Unit) (halfCallTrace ⟨30, 80, "old"⟩ ⟨20, 80, "app"⟩ 700) ∧
      ¬ AdjustedInto (.insertion Unit) (halfCallTrace ⟨30, 80, "old"⟩ ⟨20, 80, "app"⟩ 700)
        (halfCall ⟨30, 80, "old"⟩ ⟨20, 80, "app"⟩ 700) (halfCallChild 700)) ∧
    (HalfCall ⟨20, 80, "app"⟩ ⟨20, 80, "app"⟩ (-2 ^ 63 + 400) ∧
      ¬ AdjustedInto (.insertion Unit) (halfCallTrace ⟨20, 80, "app"⟩ ⟨20, 80, "app"⟩ (-2 ^ 63 + 400))
        (halfCall ⟨20, 80, "app"⟩ ⟨20, 80, "app"⟩ (-2 ^ 63 + 400)) (halfCallChild (-2 ^ 63 + 400))) := by
  refine ⟨⟨?_, by decide +kernel, ?_⟩, ?_, ?_⟩
  · exact halfCall_of_childrenOf (by decide) ⟨by decide, by decide, by decide⟩ (by decide) (by decide) (by decide)
  · rintro ⟨p', hp', hpid, c', hc', hcid, pcs, pcr, ccs, ccr, hpcs, hpcr, hccs, hccr, -, -, hcrcr⟩
    have hends : ∀ x ∈ endsIn (halfCallTrace ⟨30, 80, "old"⟩ ⟨20, 80, "app"⟩ 700),
        (x.1 = 2 → x.2.2 = 400) ∧ (x.1 = 3 → x.2.2 = 880) := by decide
    have hp : pcr.timestamp = 400 := (hends _ (mem_endsIn hp' hpcs hpcr)).1 hpid
    have hc : ccr.timestamp = 880 := (hends _ (mem_endsIn hc' hccs hccr)).2 hcid
    omega
  · exact halfCall_of_childrenOf (by decide) ⟨by decide, by decide, by decide⟩ (by decide) (by decide) (by decide)
  · rintro ⟨-, -, -, c', hc', hcid, -, -, ccs, ccr, -, -, hccs, hccr, -, hcscr, -⟩
    have hends : ∀ x ∈ endsIn (halfCallTrace ⟨20, 80, "app"⟩ ⟨20, 80, "app"⟩ (-2 ^ 63 + 400)),
        x.1 = 3 → x.2.2 < x.2.1 := by decide
    have hc : ccr.timestamp < ccs.timestamp := hends _ (mem_endsIn hc' hccs hccr) hcid
    omega

end TimeSkewAdjuster
end Zipkin
