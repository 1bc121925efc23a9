import Zipkin.SkewQuiet
/-!
# SkewValid — which spans stay valid

A span is valid if it has no core annotation twice.  Skews change no values, so only `validateSpan` can make a span
invalid: it adds both server annotations wherever not both are there, also where one of them is.  A valid span becomes
invalid exactly if it has children, both client annotations and one of the two server annotations (`HalfServed`).
-/
namespace Zipkin
namespace TimeSkewAdjuster

open Constants

variable {β : Type} (wrap : Int → Int)

/-- With this many children, the client's annotations and one of the server's two. -/
def HalfServed (s : Span β) (children : Nat) : Prop :=
  0 < children ∧ containsClientCoreAnnotations s.getAnnotationsAsMap = true ∧
    (s.getAnnotationsAsMap ServerRecv).isSome ≠ (s.getAnnotationsAsMap ServerSend).isSome

instance (s : Span β) (children : Nat) : Decidable (HalfServed s children) :=
  inferInstanceAs (Decidable (_ ∧ _))

def values (s : Span β) : List String := s.annotations.map Annotation.value

/-- **A valid span has no core annotation twice.** -/
theorem isValid_iff {s : Span β} : s.isValid = true ↔ ∀ value ∈ CoreAnnotations, (values s).count value ≤ 1 := by
  rw [Span.isValid, beq_iff_eq, List.count_eq_zero, List.mem_map]
  simp only [length_filter_value, decide_eq_true_eq, not_exists, not_and, Nat.not_lt, values]

theorem SameValues.isValid_eq {s s' : Span β} (h : SameValues s s') : s'.isValid = s.isValid := by
  simp only [Span.isValid, length_filter_value, h.count_eq]

theorem SameValues.halfServed_iff {s s' : Span β} {n : Nat} (h : SameValues s s') :
    HalfServed s' n ↔ HalfServed s n := by
  unfold HalfServed containsClientCoreAnnotations
  rw [h.isSome_eq, h.isSome_eq, h.isSome_eq, h.isSome_eq]

theorem isSome_iff_count {s : Span β} {value : String} :
    (s.getAnnotationsAsMap value).isSome = true ↔ 0 < (values s).count value := by
  rw [isSome_getAnnotationsAsMap, List.count_pos_iff, values]

/-- **A span that is complete is not half served.** -/
theorem Complete.not_halfServed {s : Span β} {n : Nat} (h : Complete s n) (hvalid : s.isValid = true) :
    ¬ HalfServed s n := by
  rintro ⟨hpos, hclient, hne⟩
  have hserver := h hvalid hpos hclient
  rw [containsServerCoreAnnotations, Bool.and_eq_true] at hserver
  exact hne (hserver.2.trans hserver.1.symm)

/-- **Both server annotations more are right where none is there.** -/
theorem isValid_completed_iff {s : Span β} {cs cr : Annotation} {endpoint : Option Endpoint}
    (hvalid : s.isValid = true) :
    (rebuilt s (s.annotations ++ serverAnnotations cs cr endpoint)).isValid = true ↔
      (s.getAnnotationsAsMap ServerRecv).isSome = false ∧ (s.getAnnotationsAsMap ServerSend).isSome = false := by
  have hperm : (values (rebuilt s (s.annotations ++ serverAnnotations cs cr endpoint))).Perm
      (values s ++ [ServerRecv, ServerSend]) := by
    have h := (StableSort.sorted_perm Ord.compare (s.annotations ++ serverAnnotations cs cr endpoint)).map Annotation.value
    rwa [List.map_append] at h
  have hrecv : (s.getAnnotationsAsMap ServerRecv).isSome = false ↔ (values s).count ServerRecv = 0 := by
    rw [← Bool.not_eq_true, isSome_iff_count, Nat.pos_iff_ne_zero, not_not]
  have hsend : (s.getAnnotationsAsMap ServerSend).isSome = false ↔ (values s).count ServerSend = 0 := by
    rw [← Bool.not_eq_true, isSome_iff_count, Nat.pos_iff_ne_zero, not_not]
  rw [isValid_iff] at hvalid ⊢
  rw [hrecv, hsend]
  simp only [hperm.count_eq, List.count_append]
  constructor
  · intro h
    have hr := h ServerRecv (by decide)
    have hs := h ServerSend (by decide)
    rw [show [ServerRecv, ServerSend].count ServerRecv = 1 by decide] at hr
    rw [show [ServerRecv, ServerSend].count ServerSend = 1 by decide] at hs
    omega
  · rintro ⟨hr, hs⟩ value hcore
    by_cases hvr : value = ServerRecv
    · rw [hvr, hr]; decide
    · by_cases hvs : value = ServerSend
      · rw [hvs, hs]; decide
      · rw [List.count_cons_of_ne (Ne.symm hvr), List.count_cons_of_ne (Ne.symm hvs), List.count_nil]
        exact hvalid value hcore

/-- **What validation keeps valid.** -/
theorem isValid_validateSpan_iff {t : AdjusterSpanTreeEntry β} {v : Span β} {m : List AdjusterWarning}
    {cs : List (AdjusterSpanTreeEntry β)} (h : validateSpan wrap t = .node (v, m) cs) (hvalid : t.span.isValid = true) :
    v.isValid = true ↔ ¬ HalfServed t.span t.children.length := by
  cases hlacks : lacksServer t.span t.children with
  | false =>
    have hcomplete := lacksServer_eq_false_iff.1 hlacks
    rw [validateSpan_of_complete wrap hcomplete] at h
    injection h with hlabel _
    injection hlabel with hv _
    rw [← hv, (sameValues_rebuilt t.span).isValid_eq]
    exact iff_of_true hvalid (hcomplete.not_halfServed hvalid)
  | true =>
    obtain ⟨-, hne, hcs, hcr, hserver⟩ := lacksServer_eq_true hlacks
    obtain ⟨cs, hcs'⟩ := getAnnotation_of_isSome hcs
    obtain ⟨cr, hcr'⟩ := getAnnotation_of_isSome hcr
    obtain ⟨m', heq⟩ := validateSpan_of_lacks wrap hlacks hcs' hcr'
    rw [heq] at h
    injection h with hlabel _
    injection hlabel with hv _
    rw [← hv, isValid_completed_iff hvalid]
    have hclient : containsClientCoreAnnotations t.span.getAnnotationsAsMap = true := by
      rw [containsClientCoreAnnotations, hcs, hcr]; rfl
    -- not both server annotations are there: the same for both means that there is none
    rw [containsServerCoreAnnotations] at hserver
    unfold HalfServed
    simp only [List.length_pos_iff.2 hne, hclient, true_and]
    revert hserver
    cases (t.span.getAnnotationsAsMap ServerRecv).isSome <;> cases (t.span.getAnnotationsAsMap ServerSend).isSome <;>
      decide

/-- **What the adjustment keeps valid**, as the span's own skew changes no value. -/
theorem isValid_ownAdjusted_iff {t : AdjusterSpanTreeEntry β} {v : Span β} {m : List AdjusterWarning}
    {cs : List (AdjusterSpanTreeEntry β)} (h : validateSpan wrap t = .node (v, m) cs) (hvalid : t.span.isValid = true) :
    (ownAdjusted wrap v).isValid = true ↔ ¬ HalfServed t.span t.children.length := by
  rw [(sameValues_ownAdjusted wrap v).isValid_eq]
  exact isValid_validateSpan_iff wrap h hvalid

/-! ## The trace -/

def AllValid (ord : HashOrder β) (t : Trace β) : Prop := ∀ s ∈ t.spans ord, s.isValid = true

instance (ord : HashOrder β) (t : Trace β) : Decidable (AllValid ord t) :=
  inferInstanceAs (Decidable (∀ s ∈ t.spans ord, _))

theorem adjust_of_no_root (ord : HashOrder β) {t : Trace β} (h : t.getRootSpan ord = none) :
    adjust wrap ord t = t := by
  rw [adjust, h]

theorem allValid_adjust_root_iff (ord : HashOrder β) (t : Trace β) {r : Span β} (hroot : t.getRootSpan ord = some r)
    (hvalid : AllValid ord t) : AllValid ord (adjust wrap ord t) ↔
      ∀ s, t.Reachable ord r s → ¬ HalfServed s (t.childrenOf ord s).length := by
  have hmembers : ∀ s, t.Reachable ord r s → s.isValid = true := fun s hs =>
    hvalid s (Trace.mem_spans_of_reachable ord t (Trace.getRootSpan_eq_some ord t hroot).1 hs)
  obtain ⟨hadjusted, horigin⟩ := adjust_nodes wrap
    (P := fun s n s' => s.isValid = true → (s'.isValid = true ↔ ¬ HalfServed s n))
    (fun hs hp hvalid => (hp (hs.sameValues.isValid_eq.trans hvalid)).trans (not_congr hs.sameValues.halfServed_iff))
    (isValid_ownAdjusted_iff wrap) ord t hroot
  constructor
  · intro h s hs
    obtain ⟨s', hs', hiff⟩ := hadjusted s hs
    exact (hiff (hmembers s hs)).1 (h s' hs')
  · intro h s' hs'
    obtain ⟨s, hs, hiff⟩ := horigin s' hs'
    exact (hiff (hmembers s hs)).2 (h s hs)

/-- **The adjustment keeps the spans of a trace valid** exactly if no span below its root is half served. -/
theorem allValid_adjust_iff (ord : HashOrder β) (t : Trace β) (hvalid : AllValid ord t) :
    AllValid ord (adjust wrap64 ord t) ↔ ∀ r, t.getRootSpan ord = some r → ∀ s, t.Reachable ord r s →
      ¬ HalfServed s (t.childrenOf ord s).length := by
  cases hroot : t.getRootSpan ord with
  | none =>
    rw [adjust_of_no_root wrap64 ord hroot]
    exact iff_of_true hvalid (fun r hr => by cases hr)
  | some r =>
    rw [allValid_adjust_root_iff wrap64 ord t hroot hvalid]
    exact ⟨fun h r' hr' => Option.some.inj hr' ▸ h, fun h => h r rfl⟩

/-- A call whose server did not record that it answered, and the call that it made. -/
def halfServedTrace : Trace Unit :=
  ⟨[Span.apply 1 "get" 1 none [⟨10, ClientSend, none⟩, ⟨20, ClientRecv, none⟩, ⟨12, ServerRecv, none⟩] [],
    Span.apply 1 "read" 2 (some 1) [⟨14, ClientSend, none⟩] []]⟩

theorem allValid_adjust_halfServed : AllValid (.insertion Unit) (adjust wrap64 (.insertion Unit) halfServedTrace) ↔
    ∀ r, halfServedTrace.getRootSpan (.insertion Unit) = some r → ∀ s, halfServedTrace.Reachable (.insertion Unit) r s →
      ¬ HalfServed s (halfServedTrace.childrenOf (.insertion Unit) s).length :=
  allValid_adjust_iff (.insertion Unit) halfServedTrace (by decide)

/-- The root span is given a second server receive. -/
theorem not_allValid_adjust_halfServed : AllValid (.insertion Unit) halfServedTrace ∧
    ¬ AllValid (.insertion Unit) (adjust wrap64 (.insertion Unit) halfServedTrace) := by decide

end TimeSkewAdjuster
end Zipkin
