import Zipkin.SkewTree
/-!
# SkewReach — the spans that the adjustment keeps

The adjusted trace is the tree below the one span that `getRootSpan` finds.  So it holds the spans which that root reaches
through parent links, each once; a span whose parent is missing, or below another root, is dropped.  A trace without a
root is kept whole.
-/
namespace Zipkin
namespace TimeSkewAdjuster

variable {β : Type} (wrap : Int → Int) (ord : HashOrder β) (t : Trace β)

theorem mem_ids_adjust {r : Span β} (h : t.getRootSpan ord = some r) (k : Int64) :
    k ∈ ((adjust wrap ord t).spans ord).map Span.id ↔ ∃ s, t.Reachable ord r s ∧ s.id = k := by
  obtain ⟨l, l', hmem, -, hadj, hperm⟩ := adjust_root wrap ord t h
  rw [(hperm.map Span.id).mem_iff, map_id_of_adjusted wrap hadj, List.mem_map]
  simp only [hmem]

/-- **The adjustment keeps the binary annotations** of each span that it keeps. -/
theorem binaryAnnotations_of_mem_adjust {s s' : Span β} (hs : s ∈ t.spans ord)
    (hs' : s' ∈ (adjust wrap ord t).spans ord) (hid : s'.id = s.id) : s'.binaryAnnotations = s.binaryAnnotations := by
  cases hroot : t.getRootSpan ord with
  | none =>
    have hadj : adjust wrap ord t = t := by rw [adjust, hroot]
    rw [hadj] at hs'
    rw [Trace.eq_of_id_eq ord hs' hs hid]
  | some r =>
    obtain ⟨s₀, hspan, -, h, -⟩ := exists_of_mem_adjust wrap ord t hroot hs'
    have heq := Trace.eq_of_id_eq ord hspan hs (h.eq_but_annotations.1.symm.trans hid)
    rw [h.eq_but_annotations.2, heq]

/-- The adjusted trace has the span ids of the trace, each once. -/
def LosesNoSpan : Prop :=
  (((adjust wrap ord t).spans ord).map Span.id).Nodup ∧
    ∀ k, k ∈ ((adjust wrap ord t).spans ord).map Span.id ↔ k ∈ (t.spans ord).map Span.id

/-- **Which traces lose no span**: those without a root, and those in which the root reaches every span. -/
theorem losesNoSpan_iff :
    LosesNoSpan wrap ord t ↔
    t.getRootSpan ord = none ∨ ∃ r, t.getRootSpan ord = some r ∧ ∀ s ∈ t.spans ord, t.Reachable ord r s := by
  have hnd := Trace.nodup_ids ord (adjust wrap ord t)
  unfold LosesNoSpan
  cases hroot : t.getRootSpan ord with
  | none =>
    have hadj : adjust wrap ord t = t := by rw [adjust, hroot]
    rw [hadj]
    exact ⟨fun _ => Or.inl rfl, fun _ => ⟨Trace.nodup_ids ord t, fun _ => Iff.rfl⟩⟩
  | some r =>
    obtain ⟨hr, -⟩ := Trace.getRootSpan_eq_some ord t hroot
    simp only [reduceCtorEq, false_or, Option.some.injEq, exists_eq_left', mem_ids_adjust wrap ord t hroot]
    constructor
    · rintro ⟨-, hids⟩ s hs
      obtain ⟨s', hs', hid⟩ := (hids s.id).2 (List.mem_map_of_mem hs)
      -- ids are unique in a trace, so the span that is reached is this one
      rw [← Trace.eq_of_id_eq ord (Trace.mem_spans_of_reachable ord t hr hs') hs hid]
      exact hs'
    · intro hall
      refine ⟨hnd, fun k => ⟨?_, ?_⟩⟩
      · rintro ⟨s, hs, rfl⟩
        exact List.mem_map_of_mem (Trace.mem_spans_of_reachable ord t hr hs)
      · intro hk
        obtain ⟨s, hs, rfl⟩ := List.mem_map.1 hk
        exact ⟨s, hall s hs, rfl⟩

/-- A root and a span whose parent was never recorded. -/
def traceWithHole : Trace Unit :=
  ⟨[Span.apply 1 "get" 1 none [⟨10, "cs", none⟩] [], Span.apply 1 "query" 3 (some 2) [⟨12, "cs", none⟩] []]⟩

/-- The span below the hole is lost. -/
theorem not_losesNoSpan_traceWithHole : ¬ LosesNoSpan wrap64 (.insertion Unit) traceWithHole := by
  intro h
  have hmem := (h.2 3).2 (by decide)
  revert hmem
  decide

end TimeSkewAdjuster
end Zipkin
