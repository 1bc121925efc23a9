import Zipkin.SkewOrder
/-!
# SkewClocks — one machine, one correction

`isHost` selects the annotations of a span by the address of their host.  A skew so moves all annotations of one host by
one amount, with an exception: on the loopback address the client's send and receive are moved by the skew of any host,
the other annotations by a skew of that address only.  Two annotations of one host that are on the same side of the
exception (`SameClock`) are as far apart after the adjustment as before, whatever skews come to the span.
-/
namespace Zipkin
namespace TimeSkewAdjuster

open Constants

variable {β : Type} (wrap : Int → Int)

def isClientCore (a : Annotation) : Bool := a.value == ClientRecv || a.value == ClientSend

def SameEndpoint (a b : Annotation) : Prop := ∃ ep, a.host = some ep ∧ b.host = some ep

/-- Of one host and, on the loopback address, both the client's core annotations or both others. -/
def SameClock (a b : Annotation) : Prop :=
  ∃ ep, a.host = some ep ∧ b.host = some ep ∧ (ep.ipv4 = LocalhostLoopBackIP → isClientCore a = isClientCore b)

/-- The annotations of `s` at other times, and at most a server receive and a server send more; two annotations of `s`
that are the `same` are as far apart as they were. -/
def KeepsDifferences (same : Annotation → Annotation → Prop) (s s' : Span β) : Prop :=
  ∃ (move : Annotation → Annotation) (added : List Annotation),
    s'.annotations.Perm (s.annotations.map move ++ added) ∧
    (added.map Annotation.value).Sublist [ServerRecv, ServerSend] ∧
    (∀ a, (move a).value = a.value ∧ (move a).host = a.host) ∧
    ∀ a ∈ s.annotations, ∀ b ∈ s.annotations, same a b →
      wrap ((move a).timestamp - (move b).timestamp) = wrap (a.timestamp - b.timestamp)

/-! ## The moves -/

/-- A change of the times of annotations that keeps those of one clock as far apart as they were. -/
structure KeepsClocks (move : Annotation → Annotation) : Prop where
  value : ∀ a, (move a).value = a.value
  host : ∀ a, (move a).host = a.host
  difference : ∀ a b, SameClock a b →
    wrap ((move a).timestamp - (move b).timestamp) = wrap (a.timestamp - b.timestamp)

/-- Subtracting one amount from two times leaves their difference. -/
def SubtractsEvenly : Prop := ∀ x y k : Int, wrap (wrap (x - k) - wrap (y - k)) = wrap (x - y)

theorem subtractsEvenly_id : SubtractsEvenly id := fun x y k => by simp only [id]; omega

theorem subtractsEvenly_wrap64 : SubtractsEvenly wrap64 := fun x y k => by
  have hdiff : x - k - (y - k) = x - y := by omega
  simp only [wrap64, Int.bmod_sub_bmod, Int.sub_bmod_bmod, hdiff]

namespace KeepsClocks

theorem refl : KeepsClocks wrap id := ⟨fun _ => rfl, fun _ => rfl, fun _ _ _ => rfl⟩

variable {wrap} {move move' : Annotation → Annotation}

theorem sameClock (h : KeepsClocks wrap move) {a b : Annotation} (hab : SameClock a b) :
    SameClock (move a) (move b) := by
  obtain ⟨ep, ha, hb, hclient⟩ := hab
  refine ⟨ep, (h.host a).trans ha, (h.host b).trans hb, fun hip => ?_⟩
  rw [isClientCore, isClientCore, h.value, h.value]
  exact hclient hip

theorem comp (h : KeepsClocks wrap move) (h' : KeepsClocks wrap move') : KeepsClocks wrap (move' ∘ move) :=
  ⟨fun a => (h'.value _).trans (h.value a), fun a => (h'.host _).trans (h.host a),
    fun a b hab => (h'.difference _ _ (h.sameClock hab)).trans (h.difference a b hab)⟩

end KeepsClocks

theorem host_adjustAnnotation (sk : ClockSkew) (a : Annotation) :
    (TimeSkewAdjuster.adjustAnnotation wrap sk a).host = a.host := by
  unfold adjustAnnotation
  split
  · split <;> rfl
  · rfl

/-- **A skew selects both of two annotations of one clock, or neither.** -/
theorem isHost_sameClock (sk : ClockSkew) {a b : Annotation} {ep : Endpoint}
    (h : ep.ipv4 = LocalhostLoopBackIP → isClientCore a = isClientCore b) :
    isHost sk ep a.value = isHost sk ep b.value := by
  unfold isHost
  by_cases hip : ep.ipv4 = LocalhostLoopBackIP
  · rw [show (a.value == ClientRecv || a.value == ClientSend) = (b.value == ClientRecv || b.value == ClientSend)
      from h hip]
  · rw [beq_eq_false_iff_ne.2 (Ne.symm hip), Bool.and_false, Bool.and_false]

theorem keepsClocks_adjust (hwrap : SubtractsEvenly wrap) (sk : ClockSkew) :
    KeepsClocks wrap (TimeSkewAdjuster.adjustAnnotation wrap sk) := by
  refine ⟨TimeSkewAdjuster.value_adjustAnnotation wrap sk, host_adjustAnnotation wrap sk, ?_⟩
  rintro a b ⟨ep, ha, hb, hclient⟩
  simp only [TimeSkewAdjuster.adjustAnnotation, ha, hb, isHost_sameClock sk hclient]
  split
  · exact hwrap _ _ _
  · rfl

/-! ## The adjusted span -/

theorem Shifted.keepsClocks (hwrap : SubtractsEvenly wrap) {s s' : Span β} (h : Shifted wrap s s') :
    ∃ move, KeepsClocks wrap move ∧ s'.annotations.Perm (s.annotations.map move) := by
  induction h with
  | refl => exact ⟨_, .refl wrap, by rw [List.map_id]⟩
  | @tail s₁ _ _ hstep ih =>
    obtain ⟨sk, rfl⟩ := hstep
    obtain ⟨move, hmove, hperm⟩ := ih
    refine ⟨_, hmove.comp (keepsClocks_adjust wrap hwrap sk), ?_⟩
    rw [← List.map_map]
    exact (s₁.annotations_copyAnnotations_perm _).trans (hperm.map _)

theorem ownAdjusted_keepsClocks (hwrap : SubtractsEvenly wrap) (v : Span β) :
    ∃ move, KeepsClocks wrap move ∧ (ownAdjusted wrap v).annotations.Perm (v.annotations.map move) := by
  unfold ownAdjusted
  split
  · exact ⟨_, keepsClocks_adjust wrap hwrap _, v.annotations_copyAnnotations_perm _⟩
  · exact ⟨_, .refl wrap, by rw [List.map_id]⟩

theorem Validated.annotations_perm {s v : Span β} (h : Validated s v) : ∃ added : List Annotation,
    (added.map Annotation.value).Sublist [ServerRecv, ServerSend] ∧ v.annotations.Perm (s.annotations ++ added) := by
  cases h with
  | kept => exact ⟨[], List.nil_sublist _, by rw [List.append_nil]; exact StableSort.sorted_perm _ _⟩
  | completed cs cr endpoint =>
    exact ⟨serverAnnotations cs cr endpoint, List.Sublist.refl _, StableSort.sorted_perm _ _⟩

theorem Adjusted.keepsDifferences (hwrap : SubtractsEvenly wrap) {s s' : Span β} (h : Adjusted wrap s s') :
    KeepsDifferences wrap SameClock s s' := by
  obtain ⟨s₁, v, hshift, hv, rfl⟩ := h
  obtain ⟨move, hmove, hperm⟩ := hshift.keepsClocks wrap hwrap
  obtain ⟨added, hadded, hvperm⟩ := hv.annotations_perm
  obtain ⟨move', hmove', hown⟩ := ownAdjusted_keepsClocks wrap hwrap v
  have hboth := hmove.comp hmove'
  refine ⟨move' ∘ move, added.map move', ?_, ?_, fun a => ⟨hboth.value a, hboth.host a⟩,
    fun a _ b _ => hboth.difference a b⟩
  · rw [← List.map_map, ← List.map_append]
    exact hown.trans ((hvperm.trans (hperm.append_right added)).map move')
  · rw [List.map_map]
    exact (List.map_congr_left (fun a _ => hmove'.value a)).symm ▸ hadded

/-- **The adjusted span of an id comes from the span of that id.** -/
theorem adjusted_of_id_eq (ord : HashOrder β) (t : Trace β) {r s s' : Span β} (hroot : t.getRootSpan ord = some r)
    (hs : s ∈ t.spans ord) (hs' : s' ∈ (adjust wrap ord t).spans ord) (hid : s'.id = s.id) : Adjusted wrap s s' := by
  obtain ⟨s₀, hs₀, -, h, -⟩ := exists_of_mem_adjust wrap ord t hroot hs'
  rwa [Trace.eq_of_id_eq ord hs₀ hs (h.eq_but_annotations.1.symm.trans hid)] at h

/-- **One clock, one correction**: two annotations of one host, on the loopback address both the client's or both
others, are as far apart in the adjusted trace as in the trace: as `Long`s always, and exactly without overflow. -/
theorem adjust_keepsDifferences (ord : HashOrder β) (t : Trace β) {r s s' : Span β}
    (hroot : t.getRootSpan ord = some r) (hs : s ∈ t.spans ord) (hs' : s' ∈ (adjust wrap64 ord t).spans ord)
    (hid : s'.id = s.id) : KeepsDifferences wrap64 SameClock s s' ∧
      (NoOverflow ord t → KeepsDifferences id SameClock s s') := by
  refine ⟨(adjusted_of_id_eq wrap64 ord t hroot hs hs' hid).keepsDifferences wrap64 subtractsEvenly_wrap64, fun hno => ?_⟩
  rw [hno] at hs'
  exact (adjusted_of_id_eq id ord t hroot hs hs' hid).keepsDifferences id subtractsEvenly_id

/-- A call from the loopback address to a server whose clock is ahead, with an annotation of the client's own. -/
def loopbackSpan : Span Unit :=
  Span.apply 1 "get" 1 none
    [⟨1000, ClientSend, some ⟨LocalhostLoopBackIP, 80, "web"⟩⟩, ⟨1060, ClientRecv, some ⟨LocalhostLoopBackIP, 80, "web"⟩⟩,
     ⟨1005, "retry", some ⟨LocalhostLoopBackIP, 80, "web"⟩⟩,
     ⟨1110, ServerRecv, some ⟨20, 80, "db"⟩⟩, ⟨1150, ServerSend, some ⟨20, 80, "db"⟩⟩] []

/-- The same, as the adjustment leaves it. -/
def loopbackSpanAdjusted : Span Unit :=
  Span.apply 1 "get" 1 none
    [⟨900, ClientSend, some ⟨LocalhostLoopBackIP, 80, "web"⟩⟩, ⟨960, ClientRecv, some ⟨LocalhostLoopBackIP, 80, "web"⟩⟩,
     ⟨1005, "retry", some ⟨LocalhostLoopBackIP, 80, "web"⟩⟩,
     ⟨1010, ServerRecv, some ⟨20, 80, "db"⟩⟩, ⟨1050, ServerSend, some ⟨20, 80, "db"⟩⟩] []

theorem adjust_keepsDifferences_loopback : KeepsDifferences wrap64 SameClock loopbackSpan loopbackSpanAdjusted ∧
    KeepsDifferences id SameClock loopbackSpan loopbackSpanAdjusted :=
  have h : KeepsDifferences wrap64 SameClock loopbackSpan loopbackSpanAdjusted ∧
      (NoOverflow (.insertion Unit) ⟨[loopbackSpan]⟩ → KeepsDifferences id SameClock loopbackSpan loopbackSpanAdjusted) :=
    adjust_keepsDifferences (r := loopbackSpan) (.insertion Unit) ⟨[loopbackSpan]⟩ (by decide) (by decide) (by decide) rfl
  ⟨h.1, h.2 (by decide)⟩

/-- The client's send is moved by the server's skew, the client's own annotation is not. -/
theorem not_keepsDifferences_sameEndpoint :
    (⟨[loopbackSpan]⟩ : Trace Unit).getRootSpan (.insertion Unit) = some loopbackSpan ∧
      loopbackSpanAdjusted ∈ (adjust wrap64 (.insertion Unit) ⟨[loopbackSpan]⟩).spans (.insertion Unit) ∧
      ¬ KeepsDifferences wrap64 SameEndpoint loopbackSpan loopbackSpanAdjusted := by
  refine ⟨by decide, by decide, ?_⟩
  rintro ⟨move, added, hperm, -, hkeeps, hdiff⟩
  have hmoved : ∀ a ∈ loopbackSpan.annotations, move a ∈ loopbackSpanAdjusted.annotations := fun a ha =>
    hperm.mem_iff.2 (List.mem_append_left _ (List.mem_map_of_mem ha))
  -- the times are told by the values, as each value occurs once
  have htimes : ∀ x ∈ loopbackSpanAdjusted.annotations, (x.value = ClientSend → x.timestamp = 900) ∧
      (x.value = "retry" → x.timestamp = 1005) := by decide
  have hsend : (⟨1000, ClientSend, some ⟨LocalhostLoopBackIP, 80, "web"⟩⟩ : Annotation) ∈ loopbackSpan.annotations := by
    decide
  have hretry : (⟨1005, "retry", some ⟨LocalhostLoopBackIP, 80, "web"⟩⟩ : Annotation) ∈ loopbackSpan.annotations := by
    decide
  have h := hdiff _ hsend _ hretry ⟨_, rfl, rfl⟩
  rw [(htimes _ (hmoved _ hsend)).1 (hkeeps _).1, (htimes _ (hmoved _ hretry)).2 (hkeeps _).1] at h
  revert h
  decide

end TimeSkewAdjuster
end Zipkin
