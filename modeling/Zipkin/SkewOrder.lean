import Zipkin.SkewTree
/-!
# SkewOrder — the adjusted span is in order

A call between two hosts has four core annotations: the client's two carry the client's endpoint, the server's two the
server's.  A skew moves either pair as a whole, so the time that each side took survives every skew that comes down from
the ancestors (`Exchange.shifted`).  The span's own skew then puts the server's pair into the middle of the client's,
where it fits as the server took no longer than the client.
-/
namespace Zipkin
namespace TimeSkewAdjuster

open Constants

variable {β : Type}

structure OneOfEach (s : Span β) (cs sr ss cr : Annotation) : Prop where
  clientSend : s.annotations.filter (fun a => a.value == ClientSend) = [cs]
  serverRecv : s.annotations.filter (fun a => a.value == ServerRecv) = [sr]
  serverSend : s.annotations.filter (fun a => a.value == ServerSend) = [ss]
  clientRecv : s.annotations.filter (fun a => a.value == ClientRecv) = [cr]

/-- The span of a call from `client` to `server`: one of each core annotation, at these times. -/
structure Exchange (client server : Endpoint) (s : Span β) (cs cr sr ss : Int) : Prop where
  clientSend : s.annotations.filter (fun a => a.value == ClientSend) = [⟨cs, ClientSend, some client⟩]
  clientRecv : s.annotations.filter (fun a => a.value == ClientRecv) = [⟨cr, ClientRecv, some client⟩]
  serverRecv : s.annotations.filter (fun a => a.value == ServerRecv) = [⟨sr, ServerRecv, some server⟩]
  serverSend : s.annotations.filter (fun a => a.value == ServerSend) = [⟨ss, ServerSend, some server⟩]
  not_loopback : client.ipv4 ≠ LocalhostLoopBackIP
  hosts_ne : server.ipv4 ≠ client.ipv4

def shiftOf (sk : ClockSkew) (ep : Endpoint) : Int := if sk.endpoint.ipv4 = ep.ipv4 then sk.skew else 0

theorem adjustAnnotation_id {sk : ClockSkew} {ep : Endpoint} {ts : Int} {value : String}
    (h : (value == ClientRecv || value == ClientSend) = true → ep.ipv4 ≠ LocalhostLoopBackIP) :
    adjustAnnotation id sk ⟨ts, value, some ep⟩ = ⟨ts - shiftOf sk ep, value, some ep⟩ := by
  have hhost : isHost sk ep value = decide (sk.endpoint.ipv4 = ep.ipv4) := by
    unfold isHost
    cases hv : (value == ClientRecv || value == ClientSend) with
    | false => rw [Bool.false_and, Bool.or_false]; rfl
    | true =>
      have hne : (LocalhostLoopBackIP == ep.ipv4) = false := beq_eq_false_iff_ne.2 (h hv).symm
      rw [hne, Bool.true_and, Bool.or_false]; rfl
  simp only [hhost, adjustAnnotation, decide_eq_true_eq, shiftOf, id]
  split
  · rfl
  · rw [Int.sub_zero]

/-- The one annotation with a value is still the one after a rearrangement and a change that keeps values. -/
theorem filter_value_of_perm {l l' : List Annotation} {f : Annotation → Annotation} {value : String} {a : Annotation}
    (hf : ∀ a, (f a).value = a.value) (hperm : l'.Perm (l.map f)) (h : l.filter (fun a => a.value == value) = [a]) :
    l'.filter (fun a => a.value == value) = [f a] := by
  refine List.perm_singleton.1 ((hperm.filter _).trans (.of_eq ?_))
  rw [filter_value_map hf (fun v => v == value), h, List.map_singleton]

namespace OneOfEach

variable {s : Span β} {cs sr ss cr : Annotation}

theorem all (h : OneOfEach s cs sr ss cr) : containsAllCoreAnnotations s.getAnnotationsAsMap = true := by
  simp only [containsAllCoreAnnotations, containsClientCoreAnnotations, containsServerCoreAnnotations,
    Span.getAnnotationsAsMap, h.clientSend, h.clientRecv, h.serverRecv, h.serverSend, List.getLast?_singleton,
    Option.isSome_some, Bool.and_self]

theorem getClockSkewOf_eq (wrap : Int → Int) (h : OneOfEach s cs sr ss cr) : getClockSkewOf wrap s =
    sr.host.bind (getClockSkew wrap cs.timestamp cr.timestamp sr.timestamp ss.timestamp) := by
  rw [getClockSkewOf, h.all]
  simp only [Bool.not_true, Bool.false_eq_true, if_false, Span.getAnnotationsAsMap, h.clientSend, h.clientRecv,
    h.serverRecv, h.serverSend, List.getLast?_singleton]

/-- **A skew moves the four annotations**, those that it matches. -/
theorem adjustSpan (wrap : Int → Int) (h : OneOfEach s cs sr ss cr) (sk : ClockSkew) :
    OneOfEach (adjustSpan wrap s sk) (TimeSkewAdjuster.adjustAnnotation wrap sk cs)
      (TimeSkewAdjuster.adjustAnnotation wrap sk sr) (TimeSkewAdjuster.adjustAnnotation wrap sk ss)
      (TimeSkewAdjuster.adjustAnnotation wrap sk cr) := by
  have hperm := s.annotations_copyAnnotations_perm (s.annotations.map (TimeSkewAdjuster.adjustAnnotation wrap sk))
  have hmove {value : String} {a : Annotation} (hone : s.annotations.filter (fun a => a.value == value) = [a]) :
      (TimeSkewAdjuster.adjustSpan wrap s sk).annotations.filter (fun a => a.value == value) =
        [TimeSkewAdjuster.adjustAnnotation wrap sk a] :=
    filter_value_of_perm (TimeSkewAdjuster.value_adjustAnnotation wrap sk) hperm hone
  exact ⟨hmove h.clientSend, hmove h.serverRecv, hmove h.serverSend, hmove h.clientRecv⟩

end OneOfEach

/-- How far a skew that may be there moves. -/
def skewOf (sk : Option ClockSkew) : Int := (sk.map ClockSkew.skew).getD 0

@[simp] theorem skewOf_none : skewOf none = 0 := rfl

@[simp] theorem skewOf_some (es : ClockSkew) : skewOf (some es) = es.skew := rfl

/-- **A skew puts the server's part into the client's**, where it fits; none is found only where it is there. -/
theorem getClockSkew_into {cs cr sr ss : Int} (ep : Endpoint) (hserver : 0 ≤ ss - sr) (hfits : ss - sr ≤ cr - cs) :
    cs ≤ sr - skewOf (getClockSkew id cs cr sr ss ep) ∧
      sr - skewOf (getClockSkew id cs cr sr ss ep) ≤ ss - skewOf (getClockSkew id cs cr sr ss ep) ∧
      ss - skewOf (getClockSkew id cs cr sr ss ep) ≤ cr := by
  have hlatency : 0 ≤ (cr - cs - (ss - sr)).tdiv 2 ∧ (cr - cs - (ss - sr)).tdiv 2 ≤ cr - cs - (ss - sr) := by
    rw [Int.tdiv_eq_ediv_of_nonneg (by omega)]
    omega
  cases hsk : getClockSkew id cs cr sr ss ep with
  | none =>
    rw [skewOf_none]
    simp only [getClockSkew, id, Bool.or_eq_true, Bool.and_eq_true, decide_eq_true_eq] at hsk
    split at hsk
    · -- the annotations are in order as they are
      omega
    · split at hsk
      · -- the skew is 0: the server's part is in the middle already
        omega
      · cases hsk
  | some es =>
    obtain ⟨-, -, hskew⟩ := getClockSkew_eq_some id hsk
    rw [skewOf_some, hskew]
    simp only [id]
    omega

namespace Exchange

variable {client server : Endpoint} {s s' : Span β} {cs cr sr ss : Int}

theorem oneOfEach (h : Exchange client server s cs cr sr ss) :
    OneOfEach s ⟨cs, ClientSend, some client⟩ ⟨sr, ServerRecv, some server⟩ ⟨ss, ServerSend, some server⟩
      ⟨cr, ClientRecv, some client⟩ :=
  ⟨h.clientSend, h.serverRecv, h.serverSend, h.clientRecv⟩

/-- **A skew moves the client's pair and the server's pair**, each as a whole. -/
theorem adjustSpan (h : Exchange client server s cs cr sr ss) (sk : ClockSkew) :
    Exchange client server (adjustSpan id s sk) (cs - shiftOf sk client) (cr - shiftOf sk client)
      (sr - shiftOf sk server) (ss - shiftOf sk server) := by
  have hmove := h.oneOfEach.adjustSpan id sk
  have hclient {value : String} {ts : Int} :
      adjustAnnotation id sk ⟨ts, value, some client⟩ = ⟨ts - shiftOf sk client, value, some client⟩ :=
    adjustAnnotation_id (fun _ => h.not_loopback)
  have hserver {value : String} {ts : Int} (hvalue : (value == ClientRecv || value == ClientSend) = false) :
      adjustAnnotation id sk ⟨ts, value, some server⟩ = ⟨ts - shiftOf sk server, value, some server⟩ :=
    adjustAnnotation_id (fun hv => by rw [hvalue] at hv; cases hv)
  rw [hclient, hclient, hserver (by decide), hserver (by decide)] at hmove
  exact ⟨hmove.clientSend, hmove.clientRecv, hmove.serverRecv, hmove.serverSend, h.not_loopback, h.hosts_ne⟩

/-- **Both durations survive every skew.** -/
theorem shifted (h : Exchange client server s cs cr sr ss) (hs : Shifted id s s') :
    ∃ dc ds, Exchange client server s' (cs - dc) (cr - dc) (sr - ds) (ss - ds) := by
  induction hs with
  | refl => exact ⟨0, 0, by simpa only [Int.sub_zero] using h⟩
  | tail _ hstep ih =>
    obtain ⟨dc, ds, ih⟩ := ih
    obtain ⟨sk, rfl⟩ := hstep
    exact ⟨dc + shiftOf sk client, ds + shiftOf sk server, by simpa only [Int.sub_sub] using ih.adjustSpan sk⟩

theorem validated (h : Exchange client server s cs cr sr ss) (hv : Validated s s') :
    Exchange client server s' cs cr sr ss := by
  cases hv with
  | kept =>
    have hperm : (rebuilt s s.annotations).annotations.Perm (s.annotations.map id) := by
      rw [List.map_id]
      exact StableSort.sorted_perm _ _
    have hkeep {value : String} {a : Annotation} (hone : s.annotations.filter (fun a => a.value == value) = [a]) :
        (rebuilt s s.annotations).annotations.filter (fun a => a.value == value) = [a] :=
      filter_value_of_perm (f := id) (fun _ => rfl) hperm hone
    exact ⟨hkeep h.clientSend, hkeep h.clientRecv, hkeep h.serverRecv, hkeep h.serverSend, h.not_loopback, h.hosts_ne⟩
  | completed _ _ _ _ _ _ lacks =>
    rw [containsServerCoreAnnotations, Span.getAnnotationsAsMap, Span.getAnnotationsAsMap, h.serverSend,
      h.serverRecv] at lacks
    cases lacks

theorem getClockSkewOf_eq (h : Exchange client server s cs cr sr ss) :
    getClockSkewOf id s = getClockSkew id cs cr sr ss server :=
  h.oneOfEach.getClockSkewOf_eq id

/-- **The span's own skew puts it in order**: the server's pair goes into the middle of the client's. -/
theorem ownAdjusted (h : Exchange client server s cs cr sr ss) (hserver : 0 ≤ ss - sr) (hfits : ss - sr ≤ cr - cs) :
    ∃ sr' ss', Exchange client server (ownAdjusted id s) cs cr sr' ss' ∧ cs ≤ sr' ∧ sr' ≤ ss' ∧ ss' ≤ cr := by
  have hinto := getClockSkew_into server hserver hfits
  unfold TimeSkewAdjuster.ownAdjusted
  rw [h.getClockSkewOf_eq]
  cases hsk : getClockSkew id cs cr sr ss server with
  | none =>
    rw [hsk] at hinto
    simp only [skewOf_none, Int.sub_zero] at hinto
    exact ⟨sr, ss, h, hinto⟩
  | some es =>
    obtain ⟨hend, -, -⟩ := getClockSkew_eq_some id hsk
    have hclient : shiftOf es client = 0 := by rw [shiftOf, hend, if_neg h.hosts_ne]
    have hmove : shiftOf es server = es.skew := by rw [shiftOf, hend, if_pos rfl]
    have hex := h.adjustSpan es
    rw [hclient, hmove, Int.sub_zero, Int.sub_zero] at hex
    rw [hsk] at hinto
    exact ⟨sr - es.skew, ss - es.skew, hex, hinto⟩

theorem adjusted (h : Exchange client server s cs cr sr ss) (hserver : 0 ≤ ss - sr) (hfits : ss - sr ≤ cr - cs)
    (hs : Adjusted id s s') : ∃ cs' cr' sr' ss', Exchange client server s' cs' cr' sr' ss' ∧
      cs' ≤ sr' ∧ sr' ≤ ss' ∧ ss' ≤ cr' := by
  obtain ⟨s₁, v, hshift, hv, rfl⟩ := hs
  obtain ⟨dc, ds, h₁⟩ := h.shifted hshift
  obtain ⟨sr', ss', h', horder⟩ := (h₁.validated hv).ownAdjusted (by omega) (by omega)
  exact ⟨_, _, sr', ss', h', horder⟩

end Exchange

/-- No 64-bit operation overflows: the machine's result is the exact one. -/
def NoOverflow (ord : HashOrder β) (t : Trace β) : Prop := adjust wrap64 ord t = adjust id ord t

instance [DecidableEq β] (ord : HashOrder β) (t : Trace β) : Decidable (NoOverflow ord t) :=
  inferInstanceAs (Decidable (_ = _))

/-- **The adjustment puts every call below the root in order**: client send, server receive, server send, client
receive, whatever the skews of its ancestors. -/
theorem adjust_orders_exchange (ord : HashOrder β) (t : Trace β) {r s : Span β} {client server : Endpoint}
    {cs cr sr ss : Int} (hroot : t.getRootSpan ord = some r) (hreach : t.Reachable ord r s)
    (hno : NoOverflow ord t) (h : Exchange client server s cs cr sr ss) (hserver : 0 ≤ ss - sr)
    (hfits : ss - sr ≤ cr - cs) :
    ∃ s' ∈ (adjust wrap64 ord t).spans ord, s'.id = s.id ∧
      ∃ cs' cr' sr' ss', Exchange client server s' cs' cr' sr' ss' ∧ cs' ≤ sr' ∧ sr' ≤ ss' ∧ ss' ≤ cr' := by
  rw [hno]
  obtain ⟨s', hs', hs⟩ := exists_mem_adjust id ord t hroot hreach
  exact ⟨s', hs', hs.eq_but_annotations.1, h.adjusted hserver hfits hs⟩

/-- A call whose server's clock is behind by 100. -/
def skewedSpan : Span Unit :=
  Span.apply 1 "get" 1 none
    [⟨1000, ClientSend, some ⟨10, 80, "web"⟩⟩, ⟨1060, ClientRecv, some ⟨10, 80, "web"⟩⟩,
     ⟨910, ServerRecv, some ⟨20, 80, "db"⟩⟩, ⟨950, ServerSend, some ⟨20, 80, "db"⟩⟩] []

theorem exchange_skewedSpan : Exchange ⟨10, 80, "web"⟩ ⟨20, 80, "db"⟩ skewedSpan 1000 1060 910 950 :=
  ⟨by decide, by decide, by decide, by decide, by decide, by decide⟩

/-- A call of that server to another, whose clock is far ahead. -/
def calledSpan : Span Unit :=
  Span.apply 1 "find" 2 (some 1)
    [⟨920, ClientSend, some ⟨20, 80, "db"⟩⟩, ⟨940, ClientRecv, some ⟨20, 80, "db"⟩⟩,
     ⟨2000, ServerRecv, some ⟨30, 80, "cache"⟩⟩, ⟨2010, ServerSend, some ⟨30, 80, "cache"⟩⟩] []

theorem exchange_calledSpan : Exchange ⟨20, 80, "db"⟩ ⟨30, 80, "cache"⟩ calledSpan 920 940 2000 2010 :=
  ⟨by decide, by decide, by decide, by decide, by decide, by decide⟩

/-- The skew of the first call moves the client's pair of the second, and the other server's goes into its middle. -/
theorem adjust_orders_calledSpan :
    ∃ s' ∈ (adjust wrap64 (.insertion Unit) ⟨[skewedSpan, calledSpan]⟩).spans (.insertion Unit), s'.id = calledSpan.id ∧
      ∃ cs' cr' sr' ss', Exchange ⟨20, 80, "db"⟩ ⟨30, 80, "cache"⟩ s' cs' cr' sr' ss' ∧
        cs' ≤ sr' ∧ sr' ≤ ss' ∧ ss' ≤ cr' :=
  adjust_orders_exchange (.insertion Unit) ⟨[skewedSpan, calledSpan]⟩ (r := skewedSpan) (by decide)
    (.single ⟨by decide, by decide, rfl⟩) (by decide) exchange_calledSpan (by decide) (by decide)

end TimeSkewAdjuster
end Zipkin
