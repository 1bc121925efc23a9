import Zipkin.SkewTree
/-!
# SkewFrame — what the adjustment leaves as it was

Whatever skews reach a span, `copy` keeps all of it but the annotations, and of these the skews change the times alone.
`validateSpan` makes its span with the constructor of seven arguments: that keeps the data of the span and adds at most
the two server annotations, but its last argument, `debug`, is not given.  So the adjustment changes nothing but time
exactly where `debug` was off.
-/
namespace Zipkin
namespace TimeSkewAdjuster

open Constants StableSort

variable {β : Type} (wrap : Int → Int)

def erased (a : Annotation) : String × Option Endpoint := (a.value, a.host)

/-- All but `debug` is kept: the annotations are those of `s` at other times, and at most a server receive and a server
send more. -/
structure KeepsData (s s' : Span β) : Prop where
  traceId : s'.traceId = s.traceId
  name : s'.name = s.name
  parentId : s'.parentId = s.parentId
  binaryAnnotations : s'.binaryAnnotations = s.binaryAnnotations
  annotations : ∃ added : List (String × Option Endpoint), (added.map Prod.fst).Sublist [ServerRecv, ServerSend] ∧
    (s'.annotations.map erased).Perm (s.annotations.map erased ++ added)

structure ChangesOnlyTime (s s' : Span β) : Prop extends KeepsData s s' where
  debug : s'.debug = s.debug

/-! ## The ways a span is made again -/

/-- Made again with the same data and with annotations that differ in time only. -/
def Retimed (s s' : Span β) : Prop :=
  s'.traceId = s.traceId ∧ s'.name = s.name ∧ s'.parentId = s.parentId ∧
    s'.binaryAnnotations = s.binaryAnnotations ∧ s'.debug = s.debug ∧
    (s'.annotations.map erased).Perm (s.annotations.map erased)

theorem Retimed.refl (s : Span β) : Retimed s s := ⟨rfl, rfl, rfl, rfl, rfl, .refl _⟩

theorem Retimed.trans {s s₁ s₂ : Span β} (h : Retimed s s₁) (h' : Retimed s₁ s₂) : Retimed s s₂ := by
  obtain ⟨ht, hn, hp, hb, hd, ha⟩ := h
  obtain ⟨ht', hn', hp', hb', hd', ha'⟩ := h'
  exact ⟨ht'.trans ht, hn'.trans hn, hp'.trans hp, hb'.trans hb, hd'.trans hd, ha'.trans ha⟩

theorem erased_adjustAnnotation (sk : ClockSkew) (a : Annotation) :
    erased (TimeSkewAdjuster.adjustAnnotation wrap sk a) = erased a := by
  unfold adjustAnnotation
  split
  · split <;> rfl
  · rfl

theorem retimed_adjustSpan (s : Span β) (sk : ClockSkew) : Retimed s (adjustSpan wrap s sk) := by
  refine ⟨rfl, rfl, rfl, rfl, rfl, ((s.annotations_copyAnnotations_perm _).map erased).trans (.of_eq ?_)⟩
  rw [List.map_map]
  exact List.map_congr_left (fun a _ => erased_adjustAnnotation wrap sk a)

theorem Shifted.retimed {s s' : Span β} (h : Shifted wrap s s') : Retimed s s' := by
  induction h with
  | refl => exact .refl s
  | tail _ hstep ih =>
    obtain ⟨sk, rfl⟩ := hstep
    exact ih.trans (retimed_adjustSpan wrap _ sk)

theorem retimed_ownAdjusted (v : Span β) : Retimed v (ownAdjusted wrap v) := by
  unfold ownAdjusted
  split
  · exact retimed_adjustSpan wrap v _
  · exact .refl v

theorem Validated.keepsData {s v : Span β} (h : Validated s v) : KeepsData s v := by
  cases h with
  | kept =>
    refine ⟨rfl, rfl, rfl, rfl, [], List.nil_sublist _, ?_⟩
    rw [List.append_nil]
    exact (sorted_perm _ s.annotations).map erased
  | completed cs cr endpoint =>
    refine ⟨rfl, rfl, rfl, rfl, [(ServerRecv, endpoint), (ServerSend, endpoint)], List.Sublist.refl _, ?_⟩
    have hperm := (sorted_perm Ord.compare (s.annotations ++ serverAnnotations cs cr endpoint)).map erased
    rw [List.map_append] at hperm
    exact hperm

/-- **The rebuilt span is not for debugging**, whatever the span was. -/
theorem Validated.debug {s v : Span β} (h : Validated s v) : v.debug = false := by
  cases h <;> rfl

/-! ## The adjusted span -/

theorem KeepsData.of_retimed {s s₁ s₂ s' : Span β} (h : Retimed s s₁) (hk : KeepsData s₁ s₂) (h' : Retimed s₂ s') :
    KeepsData s s' := by
  obtain ⟨ht, hn, hp, hb, -, ha⟩ := h
  obtain ⟨ht', hn', hp', hb', -, ha'⟩ := h'
  obtain ⟨added, hadded, hperm⟩ := hk.annotations
  refine ⟨ht'.trans (hk.traceId.trans ht), hn'.trans (hk.name.trans hn), hp'.trans (hk.parentId.trans hp),
    hb'.trans (hk.binaryAnnotations.trans hb), added, hadded, ?_⟩
  exact ha'.trans (hperm.trans (ha.append_right added))

theorem Adjusted.keepsData {s s' : Span β} (h : Adjusted wrap s s') : KeepsData s s' := by
  obtain ⟨s₁, v, hs, hv, rfl⟩ := h
  exact hv.keepsData.of_retimed hs.retimed (retimed_ownAdjusted wrap v)

theorem Adjusted.debug {s s' : Span β} (h : Adjusted wrap s s') : s'.debug = false := by
  obtain ⟨s₁, v, -, hv, rfl⟩ := h
  obtain ⟨-, -, -, -, hd, -⟩ := retimed_ownAdjusted wrap v
  exact hd.trans hv.debug

theorem Adjusted.changesOnlyTime_iff {s s' : Span β} (h : Adjusted wrap s s') :
    ChangesOnlyTime s s' ↔ s.debug = false :=
  ⟨fun hc => hc.debug.symm.trans h.debug, fun hd => ⟨h.keepsData, h.debug.trans hd.symm⟩⟩

/-- The span with the id of `s` in the adjusted trace differs from `s` in time only. -/
def AdjustedOnlyInTime (ord : HashOrder β) (t : Trace β) (s : Span β) : Prop :=
  ∃ s' ∈ (adjust wrap64 ord t).spans ord, s'.id = s.id ∧ ChangesOnlyTime s s'

/-- **Which spans below the root change in time only**: those that are not for debugging. -/
theorem adjustedOnlyInTime_iff (ord : HashOrder β) (t : Trace β) {r s : Span β} (hroot : t.getRootSpan ord = some r)
    (hreach : t.Reachable ord r s) : AdjustedOnlyInTime ord t s ↔ s.debug = false := by
  obtain ⟨s', hs', h⟩ := exists_mem_adjust wrap64 ord t hroot hreach
  have hid := h.eq_but_annotations.1
  rw [← h.changesOnlyTime_iff]
  constructor
  · rintro ⟨s'', hs'', hid', hc⟩
    -- the adjusted trace has one span of this id
    rwa [Trace.eq_of_id_eq ord hs'' hs' (hid'.trans hid.symm)] at hc
  · exact fun hc => ⟨s', hs', hid, hc⟩

def rootSpan (debug : Bool) : Span Unit :=
  Span.apply 1 "get" 1 none [⟨10, ClientSend, none⟩, ⟨20, ClientRecv, none⟩] [] debug

theorem adjustedOnlyInTime_rootSpan :
    AdjustedOnlyInTime (.insertion Unit) ⟨[rootSpan false]⟩ (rootSpan false) ↔ (rootSpan false).debug = false :=
  adjustedOnlyInTime_iff (.insertion Unit) ⟨[rootSpan false]⟩ (by decide) .refl

/-- The root span is not for debugging any more. -/
theorem not_adjustedOnlyInTime_debug :
    (⟨[rootSpan true]⟩ : Trace Unit).getRootSpan (.insertion Unit) = some (rootSpan true) ∧
      ¬ AdjustedOnlyInTime (.insertion Unit) ⟨[rootSpan true]⟩ (rootSpan true) := by
  refine ⟨by decide, ?_⟩
  rintro ⟨s', hs', -, hc⟩
  have hdebug : ∀ s' ∈ (adjust wrap64 (.insertion Unit) ⟨[rootSpan true]⟩).spans (.insertion Unit),
      s'.debug = false := by decide
  have h := hdebug s' hs'
  rw [hc.debug] at h
  cases h

end TimeSkewAdjuster
end Zipkin
