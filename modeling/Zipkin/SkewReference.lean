import Zipkin.SkewQuiet
/-!
# SkewReference — the client's times of the root span

The root span is to be the reference point of the adjustment, and no skew comes to it from a parent.  But the span's own skew
moves all that `isHost` takes for the skewed host, and it takes a client at the loopback address for any host: then the
client's times of the root are moved with the server's, exactly where a skew is found (`keepsClientTimes_iff`).
-/
namespace Zipkin
namespace TimeSkewAdjuster

open Constants

variable {β : Type}

/-- The client's annotations are of one host, and the server's are of hosts at other addresses. -/
structure Hosts (client : Endpoint) (s : Span β) : Prop where
  clientSide : ∀ a ∈ s.annotations, CoreClient.contains a.value = true → a.host = some client
  serverSide : ∀ a ∈ s.annotations, CoreServer.contains a.value = true →
    ∃ server, a.host = some server ∧ server.ipv4 ≠ client.ipv4

/-- The skew that is found in the root span, after the server annotations are added if they are not there. -/
def rootSkew (ord : HashOrder β) (t : Trace β) (r : Span β) : Option ClockSkew :=
  (Trace.getSpanTree ord (t.getIdToChildrenMap ord) (t.spans ord).length r).bind fun spanTree =>
    getClockSkewOf wrap64 (validateSpan wrap64 (AdjusterSpanTreeEntry.apply spanTree)).span

/-- The root span has its client's annotations at the times that they had. -/
def KeepsClientTimes (ord : HashOrder β) (t : Trace β) (r : Span β) : Prop :=
  ∃ r' ∈ (adjust wrap64 ord t).spans ord, r'.id = r.id ∧ r'.clientSideAnnotations.Perm r.clientSideAnnotations

/-- What `isHost` says of the client's annotations. -/
def IsClientHost (client : Endpoint) (es : ClockSkew) : Prop :=
  es.endpoint.ipv4 = client.ipv4 ∨ client.ipv4 = LocalhostLoopBackIP

/-- The client's annotations are the same again when all are moved: never where one client send is there. -/
def SameWhenMoved (s : Span β) (skew : Int) : Prop :=
  (s.clientSideAnnotations.map fun a => { a with timestamp := wrap64 (a.timestamp - skew) }).Perm s.clientSideAnnotations

/-! ## The client's annotations -/

theorem clientSide_adjustSpan (s : Span β) (es : ClockSkew) : (adjustSpan wrap64 s es).clientSideAnnotations.Perm
    (s.clientSideAnnotations.map (TimeSkewAdjuster.adjustAnnotation wrap64 es)) := by
  refine ((s.annotations_copyAnnotations_perm _).filter _).trans (.of_eq ?_)
  exact filter_value_map (TimeSkewAdjuster.value_adjustAnnotation wrap64 es) (fun value => CoreClient.contains value)
    s.annotations

theorem Validated.clientSide {s v : Span β} (h : Validated s v) : v.clientSideAnnotations.Perm s.clientSideAnnotations := by
  cases h with
  | kept => exact (StableSort.sorted_perm _ s.annotations).filter _
  | completed cs cr endpoint =>
    have hnone : (serverAnnotations cs cr endpoint).filter (fun a => CoreClient.contains a.value) = [] := rfl
    refine ((StableSort.sorted_perm Ord.compare (s.annotations ++ serverAnnotations cs cr endpoint)).filter _).trans
      (.of_eq ?_)
    rw [List.filter_append, hnone, List.append_nil]
    rfl

/-- **`isHost` for an annotation of the client.** -/
theorem isHost_client {client : Endpoint} {es : ClockSkew} {value : String} (h : CoreClient.contains value = true) :
    isHost es client value = true ↔ IsClientHost client es := by
  have hclient : (value == ClientRecv || value == ClientSend) = true := by
    rw [CoreClient, List.contains_cons, List.contains_cons, List.contains_nil, Bool.or_false, Bool.or_comm] at h
    exact h
  rw [isHost, hclient, Bool.true_and, Bool.or_eq_true, beq_iff_eq, beq_iff_eq, IsClientHost, eq_comm (a := LocalhostLoopBackIP)]

theorem adjustAnnotation_client {client : Endpoint} {es : ClockSkew} {a : Annotation}
    (hvalue : CoreClient.contains a.value = true) (hhost : a.host = some client) :
    (IsClientHost client es → adjustAnnotation wrap64 es a = { a with timestamp := wrap64 (a.timestamp - es.skew) }) ∧
      (¬ IsClientHost client es → adjustAnnotation wrap64 es a = a) := by
  unfold adjustAnnotation
  rw [hhost]
  constructor
  · intro h
    exact if_pos ((isHost_client hvalue).2 h)
  · intro h
    exact if_neg (fun hi => h ((isHost_client hvalue).1 hi))

/-- **The skew that moves a span** moves the client's annotations all together or not at all. -/
theorem clientSide_adjustSpan_iff {client : Endpoint} {s v : Span β} (h : Hosts client s)
    (hv : v.clientSideAnnotations.Perm s.clientSideAnnotations) (es : ClockSkew) :
    (adjustSpan wrap64 v es).clientSideAnnotations.Perm s.clientSideAnnotations ↔
      (IsClientHost client es → SameWhenMoved s es.skew) := by
  have hperm := (clientSide_adjustSpan v es).trans (hv.map (TimeSkewAdjuster.adjustAnnotation wrap64 es))
  have hclient : ∀ a ∈ s.clientSideAnnotations, CoreClient.contains a.value = true ∧ a.host = some client := fun a ha =>
    ⟨(List.mem_filter.1 ha).2, h.clientSide a (List.mem_filter.1 ha).1 (List.mem_filter.1 ha).2⟩
  rw [hperm.congr_left]
  by_cases hes : IsClientHost client es
  · have hmoved : s.clientSideAnnotations.map (TimeSkewAdjuster.adjustAnnotation wrap64 es) =
        s.clientSideAnnotations.map fun a => { a with timestamp := wrap64 (a.timestamp - es.skew) } :=
      List.map_congr_left fun a ha => (adjustAnnotation_client (hclient a ha).1 (hclient a ha).2).1 hes
    rw [forall_prop_of_true hes, SameWhenMoved, hmoved]
  · have hsame : s.clientSideAnnotations.map (TimeSkewAdjuster.adjustAnnotation wrap64 es) = s.clientSideAnnotations := by
      conv => rhs; rw [← List.map_id s.clientSideAnnotations]
      exact List.map_congr_left fun a ha =>
        (adjustAnnotation_client (hclient a ha).1 (hclient a ha).2).2 hes
    rw [hsame]
    exact iff_of_true (.refl _) (fun hi => absurd hi hes)

/-! ## The root span -/

/-- **The adjusted root span**: validated, and moved by its own skew alone. -/
theorem exists_adjusted_root (ord : HashOrder β) (t : Trace β) {r : Span β} (hroot : t.getRootSpan ord = some r) :
    ∃ v, Validated r v ∧ rootSkew ord t r = getClockSkewOf wrap64 v ∧
      ownAdjusted wrap64 v ∈ (adjust wrap64 ord t).spans ord ∧ (ownAdjusted wrap64 v).id = r.id := by
  obtain ⟨tree, htree, -, -, hperm⟩ := adjust_tree wrap64 ord t hroot
  have hlabel : tree.label = r := by
    rw [Trace.getSpanTree_eq_unfold] at htree
    exact RoseTree.label_of_unfold htree
  have hspan : (AdjusterSpanTreeEntry.apply tree).span = r := by
    rw [← hlabel]
    cases tree
    rfl
  obtain ⟨v, m, f, hv, -, -, hvalid⟩ := validateSpan_eq wrap64 (AdjusterSpanTreeEntry.apply tree)
  rw [hspan] at hv
  refine ⟨v, hv, ?_, ?_, ?_⟩
  · rw [rootSkew, htree, Option.bind_some, hvalid]
    rfl
  · have hnode : adjustNode wrap64 (adjustTree wrap64) (AdjusterSpanTreeEntry.apply tree) none =
        .node (ownAdjusted wrap64 v, m) _ := adjustNode_validated wrap64 (adjustTree wrap64) hvalid
    rw [hperm.mem_iff, adjustTree_eq, hnode, RoseTree.labels_node]
    exact List.mem_cons_self
  · have hadj : Adjusted wrap64 r (ownAdjusted wrap64 v) := ⟨r, v, .refl, hv, rfl⟩
    exact hadj.eq_but_annotations.1

/-- Where both server annotations are there, the root's skew is found in the root as it is, at a server's host. -/
theorem rootSkew_of_server {ord : HashOrder β} {t : Trace β} {r : Span β} {client : Endpoint}
    (hroot : t.getRootSpan ord = some r) (h : Hosts client r)
    (hserver : containsServerCoreAnnotations r.getAnnotationsAsMap = true) :
    rootSkew ord t r = getClockSkewOf wrap64 r ∧
      ∀ es, getClockSkewOf wrap64 r = some es → es.endpoint.ipv4 ≠ client.ipv4 := by
  constructor
  · obtain ⟨v, hv, hskew, -⟩ := exists_adjusted_root ord t hroot
    rw [hskew]
    cases hv with
    | kept => exact getClockSkewOf_congr wrap64 (annotations_rebuilt r)
    | completed _ _ _ _ _ _ lacks => rw [hserver] at lacks; cases lacks
  · intro es hes
    obtain ⟨_, _, sr, _, hsr, hhost, -⟩ := getClockSkewOf_eq_some wrap64 hes
    obtain ⟨hmem, hval⟩ := mem_of_getAnnotationsAsMap hsr
    obtain ⟨server, hserver, hne⟩ := h.serverSide sr hmem (by rw [hval]; decide)
    rwa [Option.some.inj (hhost.symm.trans hserver)]

theorem keepsClientTimes_iff_rootSkew (ord : HashOrder β) (t : Trace β) {r : Span β} {client : Endpoint}
    (hroot : t.getRootSpan ord = some r) (h : Hosts client r) : KeepsClientTimes ord t r ↔
      ∀ es, rootSkew ord t r = some es → IsClientHost client es → SameWhenMoved r es.skew := by
  obtain ⟨v, hv, hskew, hmem, hid⟩ := exists_adjusted_root ord t hroot
  have hown : KeepsClientTimes ord t r ↔ (ownAdjusted wrap64 v).clientSideAnnotations.Perm r.clientSideAnnotations := by
    constructor
    · rintro ⟨r', hr', hid', hperm⟩
      -- the adjusted trace has one span of this id
      rwa [Trace.eq_of_id_eq ord hr' hmem (hid'.trans hid.symm)] at hperm
    · exact fun hperm => ⟨_, hmem, hid, hperm⟩
  rw [hown, hskew, ownAdjusted]
  cases hes : getClockSkewOf wrap64 v with
  | none => exact iff_of_true hv.clientSide (fun es hes => by cases hes)
  | some es =>
    rw [clientSide_adjustSpan_iff h hv.clientSide es]
    exact ⟨fun hmoved es' hes' => Option.some.inj hes' ▸ hmoved, fun hall => hall es rfl⟩

/-- A client send that is alone is at another time when it is moved: the skew is a `Long` too. -/
theorem not_sameWhenMoved {s : Span β} {cs : Annotation} (hone : s.annotations.filter (fun a => a.value == ClientSend) = [cs])
    {es : ClockSkew} (hes : getClockSkewOf wrap64 s = some es) : ¬ SameWhenMoved s es.skew := by
  intro hsame
  obtain ⟨cs', cr', sr, ss', -, -, hskew⟩ := getClockSkewOf_eq_some wrap64 hes
  obtain ⟨-, hne, hx⟩ := getClockSkew_eq_some wrap64 hskew
  have hfilter : s.clientSideAnnotations.filter (fun a => a.value == ClientSend) = [cs] := by
    rw [Span.clientSideAnnotations, List.filter_filter, ← hone]
    refine List.filter_congr (fun a _ => ?_)
    cases hvalue : a.value == ClientSend with
    | false => rfl
    | true => rw [beq_iff_eq.1 hvalue]; rfl
  have hmoved := hsame.filter (fun a => a.value == ClientSend)
  have hvalue : ∀ a : Annotation, ({ a with timestamp := wrap64 (a.timestamp - es.skew) } : Annotation).value = a.value :=
    fun _ => rfl
  rw [filter_value_map hvalue (fun value => value == ClientSend), hfilter, List.map_singleton, List.perm_singleton,
    List.singleton_inj] at hmoved
  have htime : wrap64 (cs.timestamp - es.skew) = cs.timestamp := congrArg Annotation.timestamp hmoved
  obtain ⟨-, -, hl', hu'⟩ := wrap64_spec (wrap64 (sr.timestamp - _) - cs')
  rw [← hx] at hl' hu'
  obtain ⟨q, hd, hl, hu⟩ := wrap64_spec (cs.timestamp - es.skew)
  omega

/-- **When the client's times of the root span stay**: no skew is found in it, or none at the client's address, where the
client is not at the loopback address.  With both server annotations and one client send, exactly if the client is not at the
loopback address or no skew is found. -/
theorem keepsClientTimes_iff (ord : HashOrder β) (t : Trace β) {r : Span β} {client : Endpoint}
    (hroot : t.getRootSpan ord = some r) (h : Hosts client r) :
    (KeepsClientTimes ord t r ↔ ∀ es, rootSkew ord t r = some es → IsClientHost client es → SameWhenMoved r es.skew) ∧
      (containsServerCoreAnnotations r.getAnnotationsAsMap = true →
        ∀ cs, r.annotations.filter (fun a => a.value == ClientSend) = [cs] →
          (KeepsClientTimes ord t r ↔ client.ipv4 ≠ LocalhostLoopBackIP ∨ getClockSkewOf wrap64 r = none)) := by
  have hkeeps := keepsClientTimes_iff_rootSkew ord t hroot h
  refine ⟨hkeeps, fun hserver cs hone => ?_⟩
  obtain ⟨hskew, hne⟩ := rootSkew_of_server hroot h hserver
  rw [hkeeps, hskew]
  constructor
  · intro hall
    by_cases hloop : client.ipv4 = LocalhostLoopBackIP
    · cases hes : getClockSkewOf wrap64 r with
      | none => exact Or.inr rfl
      | some es => exact absurd (hall es hes (Or.inr hloop)) (not_sameWhenMoved hone hes)
    · exact Or.inl hloop
  · rintro (hloop | hnone) es hes hclient
    · exact absurd (hclient.resolve_right hloop) (hne es hes)
    · rw [hnone] at hes
      cases hes

/-- A call to a server whose clock is behind by 100. -/
def callFrom (client : Endpoint) : Span Unit :=
  Span.apply 1 "get" 1 none
    [⟨1000, ClientSend, some client⟩, ⟨1060, ClientRecv, some client⟩, ⟨910, ServerRecv, some ⟨20, 80, "db"⟩⟩,
     ⟨950, ServerSend, some ⟨20, 80, "db"⟩⟩] []

theorem keepsClientTimes_callFrom :
    KeepsClientTimes (.insertion Unit) ⟨[callFrom ⟨10, 80, "web"⟩]⟩ (callFrom ⟨10, 80, "web"⟩) := by
  have hhosts : Hosts ⟨10, 80, "web"⟩ (callFrom ⟨10, 80, "web"⟩) := ⟨by decide, by decide⟩
  refine ((keepsClientTimes_iff (.insertion Unit) ⟨[callFrom ⟨10, 80, "web"⟩]⟩ (by decide) hhosts).2 (by decide)
    ⟨1000, ClientSend, some ⟨10, 80, "web"⟩⟩ (by decide)).2 (Or.inl ?_)
  decide

/-- A client at the loopback address has its times at 1100 and 1160 after the adjustment. -/
theorem not_keepsClientTimes_loopback :
    (⟨[callFrom ⟨LocalhostLoopBackIP, 80, "web"⟩]⟩ : Trace Unit).getRootSpan (.insertion Unit) =
        some (callFrom ⟨LocalhostLoopBackIP, 80, "web"⟩) ∧
      Hosts ⟨LocalhostLoopBackIP, 80, "web"⟩ (callFrom ⟨LocalhostLoopBackIP, 80, "web"⟩) ∧
      ¬ KeepsClientTimes (.insertion Unit) ⟨[callFrom ⟨LocalhostLoopBackIP, 80, "web"⟩]⟩
        (callFrom ⟨LocalhostLoopBackIP, 80, "web"⟩) := by
  refine ⟨by decide, ⟨by decide, by decide⟩, ?_⟩
  unfold KeepsClientTimes
  decide

end TimeSkewAdjuster
end Zipkin
