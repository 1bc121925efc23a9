import Zipkin.JsonPayload
import Zipkin.JsonRoundTrip
import Zipkin.SkewOrder
import Zipkin.SkewReach
import Zipkin.SpanStore
/-!
# QueryController — the traces of a response

`getTraces` of `ZipkinQueryController.scala`.  The spans that the store returns are merged to traces and written as JSON.
Where the request asks for the clock-skew adjustment, the code makes a list of functions that would adjust a trace, and
drops it: the response has the traces as they are.
-/
namespace Zipkin

variable {κ : Type} [DecidableEq κ]

namespace ZipkinQueryController

variable (libs : Libs) (ord : HashOrder κ) (spanStore : SpanStore κ)

/-- `traces.map(_.spans.map(JsonSpan))` -/
def jsonOfTraces (traces : List (Trace κ)) : Effect Throwable (κ → ByteBuffer) (List (List JsonSpan)) :=
  traces.mapM (fun t => (t.spans ord).mapM (JsonSpan.apply libs))

def getTraces (ids : List Int64) (adjustClockSkew : Bool) : Effect Throwable (κ → ByteBuffer) (List (List JsonSpan)) :=
  if ids = [] then pure []
  else
    let traces := (spanStore.getSpansByTraceIds ids).map Trace.mk
    -- `traces.map(t => timeSkewAdjuster.adjust(_))`: a function for each trace, and nothing applies them
    let _ : List (Trace κ → Trace κ) :=
      if adjustClockSkew then traces.map (fun _ t => TimeSkewAdjuster.adjust wrap64 ord t) else []
    jsonOfTraces libs ord traces

/-- `/api/v1/trace/:id` -/
def getTrace (id : Int64) (adjustClockSkew : Bool) : Effect Throwable (κ → ByteBuffer) (Option (List JsonSpan)) :=
  List.head? <$> getTraces libs ord spanStore [id] adjustClockSkew

/-! ## Where there is a response -/

def Ready (b : BinaryAnnotation κ) (heap : κ → ByteBuffer) : Prop :=
  JsonBinaryAnnotation.Known b.annotationType ∧
    JsonBinaryAnnotation.width b.annotationType ≤ (heap b.value).remaining

/-- The heap after the annotation was written. -/
def moved (b : BinaryAnnotation κ) (heap : κ → ByteBuffer) : κ → ByteBuffer :=
  Function.update heap b.value ((heap b.value).advance (Zipkin.JsonBinaryAnnotation.width b.annotationType))

theorem outcome_binaryAnnotation :
    Effect.Outcome (fun b : BinaryAnnotation κ => Effect.zoom b.value (Zipkin.JsonBinaryAnnotation.apply libs b))
      Ready moved where
  ok b heap h := by
    rw [Effect.exec_zoom, JsonBinaryAnnotation.exec_apply_ok libs h.1 h.2]
    exact ⟨_, rfl⟩
  error b heap h := by
    obtain ⟨e, he⟩ := JsonBinaryAnnotation.exec_apply_error libs h
    rw [Effect.exec_zoom, he]
    exact ⟨e, _, rfl⟩

theorem outcome_span : Effect.Outcome (JsonSpan.apply (κ := κ) libs)
    (fun s => Effect.AllAlong Ready moved s.binaryAnnotations) (fun s => Effect.afterAll moved s.binaryAnnotations) := by
  have h := (((ZipkinQueryController.outcome_binaryAnnotation libs).mapM).comp (Span.binaryAnnotations (β := κ))).map
    (JsonSpan.ofSpan libs)
  simpa only [← JsonSpan.apply_eq] using h

def annotationsOf (traces : List (Trace κ)) : List (Zipkin.BinaryAnnotation κ) :=
  traces.flatMap (fun t => (t.spans ord).flatMap Span.binaryAnnotations)

omit [DecidableEq κ] in
/-- What writes the binary annotations of a span one after the other writes traces so. -/
theorem outcome_traces {σ : Type} {f : Span κ → Effect Throwable σ JsonSpan} {ready : BinaryAnnotation κ → σ → Prop}
    {after : BinaryAnnotation κ → σ → σ} (h : Effect.Outcome f (fun s => Effect.AllAlong ready after s.binaryAnnotations)
      (fun s => Effect.afterAll after s.binaryAnnotations)) :
    Effect.Outcome (fun traces : List (Trace κ) => traces.mapM (fun t => (t.spans ord).mapM f))
      (fun traces => Effect.AllAlong ready after (annotationsOf ord traces))
      (fun traces => Effect.afterAll after (annotationsOf ord traces)) := by
  have h := ((h.mapM).comp (Trace.spans ord)).mapM
  have hready : (fun traces : List (Trace κ) => Effect.AllAlong ready after (annotationsOf ord traces)) =
      Effect.AllAlong (fun t : Trace κ => Effect.AllAlong (fun s => Effect.AllAlong ready after s.binaryAnnotations)
        (fun s => Effect.afterAll after s.binaryAnnotations) (t.spans ord))
        (fun t => Effect.afterAll (fun s => Effect.afterAll after s.binaryAnnotations) (t.spans ord)) := by
    funext traces heap
    rw [annotationsOf, eq_iff_iff, Effect.allAlong_flatMap]
    simp only [Effect.allAlong_flatMap, Effect.afterAll_flatMap]
  have hafter : (fun traces : List (Trace κ) => Effect.afterAll after (annotationsOf ord traces)) =
      Effect.afterAll (fun t : Trace κ => Effect.afterAll (fun s => Effect.afterAll after s.binaryAnnotations)
        (t.spans ord)) := by
    funext traces heap
    rw [annotationsOf, Effect.afterAll_flatMap]
    simp only [Effect.afterAll_flatMap]
  rw [hready, hafter]
  exact h

/-- **Traces are written** where each of their annotations can be written when its turn comes. -/
theorem outcome_jsonOfTraces : Effect.Outcome (jsonOfTraces libs ord)
    (fun traces => Effect.AllAlong Ready moved (annotationsOf ord traces))
    (fun traces => Effect.afterAll moved (annotationsOf ord traces)) :=
  outcome_traces ord (outcome_span libs)

/-! ## The adjustment in the response -/

def returned (ids : List Int64) : List (Trace κ) := (spanStore.getSpansByTraceIds ids).map Trace.mk

theorem getTraces_eq {ids : List Int64} (hids : ids ≠ []) (adjustClockSkew : Bool) :
    getTraces libs ord spanStore ids adjustClockSkew = jsonOfTraces libs ord (returned spanStore ids) := by
  rw [getTraces, if_neg hids]
  rfl

/-- A request is answered as it asks to be: a response has the JSON of the adjusted traces if the request asks for the
adjustment, and of the traces as they are if it does not; and if the adjustment changes a trace, asking for it changes
the response. -/
def Answers (ids : List Int64) (adjustClockSkew : Bool) (heap : κ → ByteBuffer) : Prop :=
  ∀ response heap',
    Effect.exec (getTraces libs ord spanStore ids adjustClockSkew) heap = (.ok response, heap') →
    (Effect.exec (jsonOfTraces libs ord ((returned spanStore ids).map
      (fun t => if adjustClockSkew then TimeSkewAdjuster.adjust wrap64 ord t else t))) heap).1 = .ok response ∧
    (adjustClockSkew = true →
      (∃ t ∈ returned spanStore ids, (TimeSkewAdjuster.adjust wrap64 ord t).spans ord ≠ t.spans ord) →
      ∀ response' heap'', Effect.exec (getTraces libs ord spanStore ids false) heap = (.ok response', heap'') →
        response ≠ response')

/-- **Two lists of spans that are written alike are the same** if they agree on the binary annotations of each id. -/
theorem spans_eq_of_json {l l' : List (Span κ)} {js : List JsonSpan}
    (h : List.Forall₂ (fun s j => ∃ heap heap', Effect.exec (JsonSpan.apply libs s) heap = (.ok j, heap')) l js)
    (h' : List.Forall₂ (fun s j => ∃ heap heap', Effect.exec (JsonSpan.apply libs s) heap = (.ok j, heap')) l' js)
    (hb : ∀ s ∈ l, ∀ s' ∈ l', s.id = s'.id → s.binaryAnnotations = s'.binaryAnnotations) : l = l' := by
  induction h generalizing l' with
  | nil => cases h'; rfl
  | cons hs _ ih =>
    cases h' with
    | cons hs' hrest =>
      obtain ⟨heap₁, heap₁', hs⟩ := hs
      obtain ⟨heap₂, heap₂', hs'⟩ := hs'
      obtain ⟨bs, hj⟩ := JsonSpan.exists_of_apply_ok libs hs
      obtain ⟨bs', hj'⟩ := JsonSpan.exists_of_apply_ok libs hs'
      have hhead := JsonSpan.ofSpan_inj libs (hj.symm.trans hj') (hb _ List.mem_cons_self _ List.mem_cons_self)
      rw [hhead, ih hrest (fun s hs s' hs' => hb s (List.mem_cons_of_mem _ hs) s' (List.mem_cons_of_mem _ hs'))]

/-- **If the adjusted traces are written like the traces, then they are the traces.** -/
theorem spans_adjust_eq_of_json {traces : List (Trace κ)} {response : List (List JsonSpan)}
    {heap₁ heap₁' heap₂ heap₂' : κ → ByteBuffer}
    (h : Effect.exec (jsonOfTraces libs ord traces) heap₁ = (.ok response, heap₁'))
    (hadj : Effect.exec (jsonOfTraces libs ord (traces.map (TimeSkewAdjuster.adjust wrap64 ord))) heap₂ =
      (.ok response, heap₂')) :
    ∀ t ∈ traces, (TimeSkewAdjuster.adjust wrap64 ord t).spans ord = t.spans ord := by
  intro t ht
  rw [jsonOfTraces, List.mapM_map] at hadj
  obtain ⟨js, ⟨heap, heap', hjs⟩, heap'', heap''', hjs'⟩ := Effect.exists_of_mapM_ok₂ h hadj ht
  refine (spans_eq_of_json libs (Effect.forall₂_of_mapM_ok hjs) (Effect.forall₂_of_mapM_ok hjs') ?_).symm
  intro s hs s' hs' hid
  exact (TimeSkewAdjuster.binaryAnnotations_of_mem_adjust wrap64 ord t hs hs' hid.symm).symm

/-- **When a request is answered as it asks to be**: when it does not ask for the adjustment, or the adjustment changes
none of the traces, or there is no response as a payload cannot be written. -/
theorem answers_iff {ids : List Int64} (hids : ids ≠ []) (adjustClockSkew : Bool) (heap : κ → ByteBuffer) :
    Answers libs ord spanStore ids adjustClockSkew heap ↔ adjustClockSkew = false ∨
      (∀ t ∈ returned spanStore ids, (TimeSkewAdjuster.adjust wrap64 ord t).spans ord = t.spans ord) ∨
      ¬ Effect.AllAlong Ready moved (annotationsOf ord (returned spanStore ids)) heap := by
  unfold Answers
  simp only [getTraces_eq libs ord spanStore hids]
  constructor
  · intro h
    by_cases hready : Effect.AllAlong Ready moved (annotationsOf ord (returned spanStore ids)) heap
    · obtain ⟨response, hresponse⟩ := (outcome_jsonOfTraces libs ord).ok _ _ hready
      cases adjustClockSkew with
      | false => exact Or.inl rfl
      | true =>
        obtain ⟨hadj, -⟩ := h _ _ hresponse
        exact Or.inr (Or.inl (spans_adjust_eq_of_json libs ord hresponse (Prod.ext hadj rfl)))
    · exact Or.inr (Or.inr hready)
  · rintro (rfl | hsame | hready) response heap' hresponse
    · refine ⟨?_, fun h => by cases h⟩
      simp only [Bool.false_eq_true, if_false, List.map_id', hresponse]
    · refine ⟨?_, fun _ ⟨t, ht, hne⟩ => absurd (hsame t ht) hne⟩
      have hwrite : jsonOfTraces libs ord ((returned spanStore ids).map
          (fun t => if adjustClockSkew then TimeSkewAdjuster.adjust wrap64 ord t else t)) =
          jsonOfTraces libs ord (returned spanStore ids) := by
        rw [jsonOfTraces, jsonOfTraces, List.mapM_map]
        refine Effect.mapM_congr (fun t ht => ?_)
        split
        · exact congrArg _ (hsame t ht)
        · rfl
      rw [hwrite, hresponse]
    · obtain ⟨e, heap'', he⟩ := (outcome_jsonOfTraces libs ord).error _ _ hready
      rw [he] at hresponse
      cases hresponse

/-- A call whose annotations are in order as they are recorded. -/
def orderedStore : SpanBuffer Unit :=
  [Span.apply 1 "get" 1 none [⟨1000, "cs", some ⟨10, 80, "web"⟩⟩, ⟨1010, "sr", some ⟨20, 80, "db"⟩⟩] []]

theorem answers_orderedStore :
    Answers .sample (.insertion Unit) (orderedStore.toSpanStore id (fun _ => .wrap [])) [1] true (fun _ => .wrap []) :=
  (answers_iff .sample _ _ (by decide) true _).2 (Or.inr (Or.inl (by decide)))

/-- A call whose server's clock is behind. -/
def skewedStore : SpanBuffer Unit := [TimeSkewAdjuster.skewedSpan]

/-- The response with the adjustment is the one without. -/
theorem not_answers_skewedStore :
    ¬ Answers .sample (.insertion Unit) (skewedStore.toSpanStore id (fun _ => .wrap [])) [1] true
      (fun _ => .wrap []) := by
  intro h
  have hids : ([1] : List Int64) ≠ [] := by decide
  obtain ⟨response, hresponse⟩ := (outcome_jsonOfTraces .sample (.insertion Unit)).ok
    (returned (skewedStore.toSpanStore id (fun _ => .wrap [])) [1]) (fun _ => .wrap []) trivial
  rw [← getTraces_eq _ _ _ hids true] at hresponse
  -- what it gives with the adjustment, it gives without
  exact (h _ _ hresponse).2 rfl (by decide) response _ hresponse rfl

end ZipkinQueryController
end Zipkin
