import Mathlib.Data.List.Nodup
import Mathlib.Data.List.Pairwise
import Zipkin.QueryController
import Zipkin.TraceMerge
/-!
# RepeatedRead — the same trace, asked for again

The store in memory hands out the buffers that it keeps, and writing a trace moves those of its numbers and booleans to
their end.  A number whose buffer is at its end already is not written, and the request throws.  Bytes and strings are
copied, from what their buffer has left: a span that is stored twice shares its buffers, and so may any other two.
`readBefore` follows the buffers that the requests read to their end, and `sameEachTime_iff` says from them when a trace
is written the same each time.
-/
namespace Zipkin
namespace ZipkinQueryController

variable {κ : Type} (libs : Libs) (ord : HashOrder κ) (toLowerCase : String → String)

/-! ## The buffers of a trace -/

def tracesOf (store : SpanBuffer κ) (id : Int64) : List (Trace κ) := (store.getSpansByTraceIds [id]).map Trace.mk

/-- The binary annotations of a trace, in the order in which they are written. -/
def writtenOf (store : SpanBuffer κ) (id : Int64) : List (Zipkin.BinaryAnnotation κ) := annotationsOf ord (tracesOf store id)

/-- There is one trace, with the spans that are stored, or none. -/
theorem tracesOf_cases (store : SpanBuffer κ) (id : Int64) :
    tracesOf store id = [⟨store.filter (fun s => s.traceId == id)⟩] ∨
      tracesOf store id = [] ∧ store.filter (fun s => s.traceId == id) = [] := by
  rw [tracesOf, SpanBuffer.getSpansByTraceIds, List.flatMap_singleton]
  by_cases hnil : store.filter (fun s => s.traceId == id) = []
  · rw [hnil]
    exact Or.inr ⟨rfl, rfl⟩
  · simp only [List.filter_cons, List.filter_nil, gt_iff_lt, List.length_pos_of_ne_nil hnil, decide_true, if_true]
    exact Or.inl rfl

theorem mem_writtenOf {store : SpanBuffer κ} {id : Int64} {b : Zipkin.BinaryAnnotation κ} :
    b ∈ writtenOf ord store id ↔ ∃ s ∈ store, s.traceId = id ∧ b ∈ s.binaryAnnotations := by
  have hstored : b ∈ (store.filter (fun s => s.traceId == id)).flatMap Span.binaryAnnotations ↔
      ∃ s ∈ store, s.traceId = id ∧ b ∈ s.binaryAnnotations := by
    simp only [List.mem_flatMap, List.mem_filter, beq_iff_eq, and_assoc]
  rw [← hstored, writtenOf]
  rcases tracesOf_cases store id with htraces | ⟨htraces, hnil⟩
  · rw [htraces, annotationsOf, List.flatMap_singleton]
    exact (binaryAnnotations_spans_perm ord _).mem_iff
  · rw [htraces, hnil]
    exact Iff.rfl

/-- Copied, and not read by a relative get. -/
def Copied (b : Zipkin.BinaryAnnotation κ) : Prop :=
  b.annotationType = AnnotationType.bytes ∨ b.annotationType = AnnotationType.string

theorem Copied.known_width {b : Zipkin.BinaryAnnotation κ} (h : Copied b) :
    JsonBinaryAnnotation.Known b.annotationType ∧ JsonBinaryAnnotation.width b.annotationType = 0 := by
  rcases h with h | h <;> rw [h] <;> decide

/-- The buffers of the numbers and booleans. -/
def numbers (l : List (Zipkin.BinaryAnnotation κ)) : List κ :=
  (l.filter (fun b => decide (0 < JsonBinaryAnnotation.width b.annotationType))).map BinaryAnnotation.value

theorem numbers_cons_of_copied {b : Zipkin.BinaryAnnotation κ} (h : Copied b) (l : List (Zipkin.BinaryAnnotation κ)) :
    numbers (b :: l) = numbers l := by
  simp only [numbers, List.filter_cons, h.known_width.2, Nat.lt_irrefl, decide_false, Bool.false_eq_true, if_false]

theorem numbers_cons_of_pos {b : Zipkin.BinaryAnnotation κ} (h : 0 < JsonBinaryAnnotation.width b.annotationType)
    (l : List (Zipkin.BinaryAnnotation κ)) : numbers (b :: l) = b.value :: numbers l := by
  simp only [numbers, List.filter_cons, h, decide_true, if_true, List.map_cons]

variable [DecidableEq κ]

/-! ## Buffers that were read to their end -/

/-- The buffers that were read once these are read too, one after the other, up to one that was read before. -/
def readThrough (read : List κ) : List κ → List κ
  | [] => read
  | k :: ks => if k ∈ read then read else readThrough (k :: read) ks

/-- None of the buffers was read before, and none comes twice. -/
def Unread (read ks : List κ) : Prop := ks.Nodup ∧ ∀ k ∈ ks, k ∉ read

instance (read ks : List κ) : Decidable (Unread read ks) := inferInstanceAs (Decidable (_ ∧ _))

theorem subset_readThrough (ks read : List κ) : read ⊆ readThrough read ks := by
  induction ks generalizing read with
  | nil => exact List.Subset.refl _
  | cons k ks ih =>
    rw [readThrough]
    split
    · exact List.Subset.refl _
    · exact List.Subset.trans (List.subset_cons_self _ _) (ih _)

omit [DecidableEq κ] in
theorem unread_cons {read ks : List κ} {k : κ} : Unread read (k :: ks) ↔ k ∉ read ∧ Unread (k :: read) ks := by
  rw [Unread, Unread, List.nodup_cons, List.forall_mem_cons]
  constructor
  · rintro ⟨⟨hk, hnd⟩, hread, hall⟩
    exact ⟨hread, hnd, fun k' hk' => List.not_mem_cons_of_ne_of_not_mem (fun h => hk (h ▸ hk')) (hall k' hk')⟩
  · rintro ⟨hread, hnd, hall⟩
    exact ⟨⟨fun hk => hall k hk List.mem_cons_self, hnd⟩, hread, fun k' hk' h => hall k' hk' (List.mem_cons_of_mem _ h)⟩

/-- **After a trace that was written** all buffers of its numbers were read. -/
theorem mem_readThrough_of_unread {ks read : List κ} (h : Unread read ks) : ∀ k ∈ ks, k ∈ readThrough read ks := by
  induction ks generalizing read with
  | nil => exact fun _ hk => (List.not_mem_nil hk).elim
  | cons k ks ih =>
    obtain ⟨hk, h⟩ := unread_cons.1 h
    rw [readThrough, if_neg hk]
    exact List.forall_mem_cons.2 ⟨subset_readThrough _ _ List.mem_cons_self, ih h⟩

/-- The heap once these buffers were read to their end. -/
def heapAfter (heap : κ → ByteBuffer) (read : List κ) : κ → ByteBuffer :=
  fun k => if k ∈ read then (heap k).advance (heap k).remaining else heap k

theorem heapAfter_nil (heap : κ → ByteBuffer) : heapAfter heap [] = heap :=
  funext fun _ => if_neg List.not_mem_nil

theorem heapAfter_cons (heap : κ → ByteBuffer) (read : List κ) (k : κ) :
    heapAfter heap (k :: read) = Function.update (heapAfter heap read) k ((heap k).advance (heap k).remaining) := by
  funext k'
  by_cases hk : k' = k
  · rw [hk, Function.update_self, heapAfter, if_pos List.mem_cons_self]
  · rw [Function.update_of_ne hk]
    simp only [heapAfter, List.mem_cons, hk, false_or]

theorem remaining_heapAfter {heap : κ → ByteBuffer} {read : List κ} {k : κ} (h : k ∈ read) :
    (heapAfter heap read k).remaining = 0 := by
  rw [heapAfter, if_pos h, ByteBuffer.remaining_advance, Nat.sub_self]

/-! ## One request -/

def underflow : Throwable := JsonBinaryAnnotation.matchError ⟨"BufferUnderflowException", ""⟩

/-- **A list of annotations** is written up to the first number whose buffer was read before. -/
theorem endAll_binaryAnnotations {heap : κ → ByteBuffer} {l : List (Zipkin.BinaryAnnotation κ)}
    (hwell : ∀ b ∈ l, JsonBinaryAnnotation.WellFormed b (heap b.value)) (read : List κ) :
    Effect.endAll (fun b => Effect.ending (Effect.zoom b.value (Zipkin.JsonBinaryAnnotation.apply libs b))) l
        (heapAfter heap read) =
      (if Unread read (numbers l) then .ok () else .error underflow, heapAfter heap (readThrough read (numbers l))) := by
  induction l generalizing read with
  | nil => rfl
  | cons b l ih =>
    have ih := ih (fun c hc => hwell c (List.mem_cons_of_mem _ hc))
    have hb := hwell b List.mem_cons_self
    obtain ⟨hknown, ⟨hwidth, hpos⟩ | hcopied⟩ := hb.known_width
    · rw [numbers_cons_of_pos hpos, readThrough, Effect.endAll, Effect.ending, Effect.exec_zoom]
      by_cases hread : b.value ∈ read
      · have hshort : (heapAfter heap read b.value).remaining < JsonBinaryAnnotation.width b.annotationType := by
          rwa [remaining_heapAfter hread]
        rw [Zipkin.JsonBinaryAnnotation.exec_apply, JsonBinaryAnnotation.exec_readPayload_underflow libs hknown hshort,
          if_pos hread, if_neg fun h => (unread_cons.1 h).1 hread]
        exact congrArg (Prod.mk _) (Function.update_eq_self _ _)
      · have hheap : heapAfter heap read b.value = heap b.value := if_neg hread
        rw [hheap, JsonBinaryAnnotation.exec_apply_ok libs hknown hb.width_le, if_neg hread]
        simp only [unread_cons, hread, not_false_eq_true, true_and]
        rw [hwidth, ← heapAfter_cons]
        exact ih (b.value :: read)
    · obtain ⟨hknown, hzero⟩ := Copied.known_width hcopied
      rw [numbers_cons_of_copied hcopied, Effect.endAll, Effect.ending, Effect.exec_zoom,
        JsonBinaryAnnotation.exec_apply_ok libs hknown (hzero ▸ Nat.zero_le _), hzero, ByteBuffer.advance_zero,
        Function.update_eq_self]
      exact ih read

theorem ending_jsonOfTraces (traces : List (Trace κ)) : Effect.ending (jsonOfTraces libs ord traces) =
    Effect.endAll (fun b => Effect.ending (Effect.zoom b.value (Zipkin.JsonBinaryAnnotation.apply libs b)))
      (annotationsOf ord traces) := by
  have hspan (s : Span κ) : Effect.ending (JsonSpan.apply libs s) =
      Effect.endAll (fun b => Effect.ending (Effect.zoom b.value (Zipkin.JsonBinaryAnnotation.apply libs b)))
        s.binaryAnnotations := by
    rw [JsonSpan.apply_eq, Effect.ending_map, Effect.ending_mapM]
  rw [jsonOfTraces, Effect.ending_mapM, annotationsOf, Effect.endAll_flatMap]
  simp only [Effect.ending_mapM, hspan, Effect.endAll_flatMap]

variable (store : SpanBuffer κ)

/-- The payloads of a store are well formed. -/
def WellFormedStore (heap : κ → ByteBuffer) : Prop :=
  ∀ s ∈ store, ∀ b ∈ s.binaryAnnotations, JsonBinaryAnnotation.WellFormed b (heap b.value)

/-- The response for a trace once these buffers were read. -/
def response (heap : κ → ByteBuffer) (id : Int64) (read : List κ) : Except Throwable (Option (List JsonSpan)) :=
  (Effect.exec (jsonOfTraces libs ord (tracesOf store id)) (heapAfter heap read)).1.map List.head?

theorem exec_getTrace (store : SpanBuffer κ) (heap heap' : κ → ByteBuffer) (id : Int64) (adjustClockSkew : Bool) :
    Effect.exec (getTrace libs ord (store.toSpanStore toLowerCase heap') id adjustClockSkew) heap =
      ((Effect.exec (jsonOfTraces libs ord (tracesOf store id)) heap).1.map List.head?,
        (Effect.exec (jsonOfTraces libs ord (tracesOf store id)) heap).2) := by
  rw [getTrace, Effect.exec_map, getTraces_eq libs ord _ (List.cons_ne_nil _ _)]
  rfl

section Responses
variable {store} {heap : κ → ByteBuffer} (hwell : WellFormedStore store heap)
include hwell

/-- **How a request ends**: it throws if one of the numbers was read before, and leaves its numbers read. -/
theorem ending_traces (id : Int64) (read : List κ) :
    Effect.ending (jsonOfTraces libs ord (tracesOf store id)) (heapAfter heap read) =
      (if Unread read (numbers (writtenOf ord store id)) then .ok () else .error underflow,
        heapAfter heap (readThrough read (numbers (writtenOf ord store id)))) := by
  rw [ending_jsonOfTraces]
  refine endAll_binaryAnnotations libs (fun b hb => ?_) read
  obtain ⟨s, hs, -, hb⟩ := (mem_writtenOf ord).1 hb
  exact hwell s hs b hb

theorem response_of_unread {id : Int64} {read : List κ} (h : Unread read (numbers (writtenOf ord store id))) :
    ∃ spans, response libs ord store heap id read = .ok spans := by
  have hending := congrArg Prod.fst (ending_traces libs ord hwell id read)
  rw [if_pos h] at hending
  obtain ⟨traces, htraces, -⟩ := Effect.exists_of_map_eq_ok hending
  exact ⟨traces.head?, by rw [response, htraces]; rfl⟩

theorem response_of_not_unread {id : Int64} {read : List κ} (h : ¬ Unread read (numbers (writtenOf ord store id))) :
    response libs ord store heap id read = .error underflow := by
  have hending := congrArg Prod.fst (ending_traces libs ord hwell id read)
  rw [if_neg h, Effect.ending] at hending
  rw [response]
  cases hexec : (Effect.exec (jsonOfTraces libs ord (tracesOf store id)) (heapAfter heap read)).1 with
  | ok traces => rw [hexec] at hending; cases hending
  | error e => rw [hexec] at hending; cases hending; rfl

end Responses

/-! ## A trace of bytes and strings -/

theorem bytes_heapAfter (heap : κ → ByteBuffer) (read : List κ) (k : κ) :
    (heapAfter heap read k).bytes = if k ∈ read then [] else (heap k).bytes := by
  split
  · rename_i hk
    exact List.eq_nil_of_length_eq_zero (by rw [ByteBuffer.length_bytes, remaining_heapAfter hk])
  · rename_i hk
    rw [heapAfter, if_neg hk]

/-- The JSON of an annotation that is copied. -/
def copyOf (heap : κ → ByteBuffer) (b : Zipkin.BinaryAnnotation κ) : JsonBinaryAnnotation where
  key := b.key
  value := JsonBinaryAnnotation.valueOf libs b.annotationType (heap b.value).bytes
  annotationType := JsonBinaryAnnotation.tagOf b.annotationType
  endpoint := b.host.map JsonService.apply

theorem exec_of_copied {b : Zipkin.BinaryAnnotation κ} (h : Copied b) (heap : κ → ByteBuffer) :
    Effect.exec (Effect.zoom b.value (Zipkin.JsonBinaryAnnotation.apply libs b)) heap = (.ok (copyOf libs heap b), heap) := by
  obtain ⟨hknown, hzero⟩ := h.known_width
  rw [Effect.exec_zoom, JsonBinaryAnnotation.exec_apply_ok libs hknown (hzero ▸ Nat.zero_le _), JsonBinaryAnnotation.payload,
    if_pos hzero, hzero, ByteBuffer.advance_zero, Function.update_eq_self]
  rfl

/-- **A trace of bytes and strings** is written as it is, and moves no buffer. -/
theorem exec_jsonOfTraces_of_copied {traces : List (Trace κ)} (h : ∀ b ∈ annotationsOf ord traces, Copied b)
    (heap : κ → ByteBuffer) :
    Effect.exec (jsonOfTraces libs ord traces) heap =
      (.ok (traces.map fun t => (t.spans ord).map fun s =>
        JsonSpan.ofSpan libs s (s.binaryAnnotations.map (copyOf libs heap))), heap) := by
  refine Effect.exec_mapM_pure fun t ht => Effect.exec_mapM_pure fun s hs => ?_
  have hannotations := Effect.exec_mapM_pure fun b (hb : b ∈ s.binaryAnnotations) =>
    exec_of_copied libs (h b (List.mem_flatMap.2 ⟨t, ht, List.mem_flatMap.2 ⟨s, hs, hb⟩⟩)) heap
  rw [JsonSpan.apply_eq, Effect.exec_map, hannotations]
  rfl

theorem response_eq_iff_of_copied {heap : κ → ByteBuffer} {id : Int64} (h : ∀ b ∈ writtenOf ord store id, Copied b)
    (read later : List κ) :
    response libs ord store heap id read = response libs ord store heap id later ↔
      ∀ b ∈ writtenOf ord store id, copyOf libs (heapAfter heap read) b = copyOf libs (heapAfter heap later) b := by
  rw [response, response, exec_jsonOfTraces_of_copied libs ord h, exec_jsonOfTraces_of_copied libs ord h, writtenOf]
  rcases tracesOf_cases store id with htraces | ⟨htraces, -⟩
  · rw [htraces, annotationsOf, List.flatMap_singleton]
    simp only [Except.map, List.map_singleton, List.head?_cons, Except.ok.injEq, Option.some.injEq, List.map_inj_left,
      List.mem_flatMap, forall_exists_index, and_imp]
    constructor
    · intro heq b s hs hb
      exact List.map_inj_left.1 (congrArg JsonSpan.binaryAnnotations (heq s hs)) b hb
    · intro hall s hs
      exact congrArg _ (List.map_inj_left.2 fun b hb => hall b s hs hb)
  · rw [htraces]
    exact ⟨fun _ b hb => (List.not_mem_nil hb).elim, fun _ => rfl⟩

omit [DecidableEq κ] in
/-- **Text and bytes tell an empty payload from any other.** -/
theorem eq_nil_of_valueOf_eq {b : Zipkin.BinaryAnnotation κ} {value : ByteBuffer} (h : Copied b)
    (hwell : JsonBinaryAnnotation.WellFormed b value) (heq : JsonBinaryAnnotation.valueOf libs b.annotationType value.bytes =
      JsonBinaryAnnotation.valueOf libs b.annotationType []) : value.bytes = [] := by
  rcases h with ht | ht
  · rw [ht] at heq
    have hencode : libs.base64Encode value.bytes = libs.base64Encode [] := AnyRef.string.inj heq
    have hdecode := libs.base64Decode_encode value.bytes
    rw [hencode, libs.base64Decode_encode] at hdecode
    exact (Except.ok.inj hdecode).symm
  · obtain ⟨s, hs⟩ : ∃ s, value.bytes = getBytesUtf8 s := by
      cases hwell with
      | string _ s hs => exact ⟨s, hs⟩
      | _ ht' => rw [ht] at ht'; exact absurd ht' (by decide)
    rw [ht, hs] at heq
    have hnew : libs.newString (getBytesUtf8 s) = libs.newString (getBytesUtf8 "") := AnyRef.string.inj heq
    rw [libs.newString_getBytes, libs.newString_getBytes] at hnew
    rw [hs, hnew]
    rfl

theorem copyOf_eq_iff {heap : κ → ByteBuffer} {b : Zipkin.BinaryAnnotation κ} (h : Copied b)
    (hwell : JsonBinaryAnnotation.WellFormed b (heap b.value)) {read later : List κ} (hsub : read ⊆ later) :
    copyOf libs (heapAfter heap read) b = copyOf libs (heapAfter heap later) b ↔
      (b.value ∈ later → b.value ∈ read ∨ (heap b.value).bytes = []) := by
  simp only [copyOf, JsonBinaryAnnotation.mk.injEq, true_and, and_true, bytes_heapAfter]
  by_cases hlater : b.value ∈ later
  · by_cases hread : b.value ∈ read
    · simp only [hlater, hread, true_or, imp_self]
    · rw [if_neg hread, if_pos hlater]
      constructor
      · exact fun heq _ => Or.inr (eq_nil_of_valueOf_eq libs h hwell heq)
      · intro hempty
        rw [(hempty hlater).resolve_left hread]
  · rw [if_neg hlater, if_neg fun hread => hlater (hsub hread)]
    exact ⟨fun _ hin => absurd hin hlater, fun _ => rfl⟩

/-! ## All requests -/

/-- The responses to requests for traces, one after the other, with the ids that were asked for. -/
def serve (heap : κ → ByteBuffer) : List (Int64 × Bool) → List (Int64 × Except Throwable (Option (List JsonSpan)))
  | [] => []
  | (id, adjustClockSkew) :: requests =>
    let response := Effect.exec (getTrace libs ord (store.toSpanStore toLowerCase heap) id adjustClockSkew) heap
    (id, response.1) :: serve response.2 requests

/-- The response for an id is the same each time. -/
def SameEachTime (heap : κ → ByteBuffer) (requests : List (Int64 × Bool)) : Prop :=
  (serve libs ord toLowerCase store heap requests).Pairwise fun first later => first.1 = later.1 → first.2 = later.2

/-- The buffers that were read before each of the requests. -/
def readBefore (read : List κ) : List (Int64 × Bool) → List (Int64 × List κ)
  | [] => []
  | (id, _) :: requests => (id, read) :: readBefore (readThrough read (numbers (writtenOf ord store id))) requests

/-- Written with the buffers `read` read before, the trace is written so again with `later` read: already the first time a
number or boolean of it was read before, or it has bytes and strings only, and none of their buffers that hold anything
was read in between. -/
def WrittenAgain (heap : κ → ByteBuffer) (id : Int64) (read later : List κ) : Prop :=
  ¬ Unread read (numbers (writtenOf ord store id)) ∨
    ∀ s ∈ store, s.traceId = id → ∀ b ∈ s.binaryAnnotations,
      (b.annotationType = AnnotationType.bytes ∨ b.annotationType = AnnotationType.string) ∧
        (b.value ∈ later → b.value ∈ read ∨ (heap b.value).bytes = [])

instance (heap : κ → ByteBuffer) (id : Int64) (read later : List κ) : Decidable (WrittenAgain ord store heap id read later) :=
  inferInstanceAs (Decidable (_ ∨ _))

theorem subset_of_mem_readBefore {requests : List (Int64 × Bool)} {read : List κ} {e : Int64 × List κ}
    (h : e ∈ readBefore ord store read requests) : read ⊆ e.2 := by
  induction requests generalizing read with
  | nil => exact (List.not_mem_nil h).elim
  | cons q requests ih =>
    rcases List.mem_cons.1 h with rfl | h
    · exact List.Subset.refl _
    · exact List.Subset.trans (subset_readThrough _ _) (ih h)

section Requests
variable {store} {heap : κ → ByteBuffer} (hwell : WellFormedStore store heap)
include hwell

/-- **What is served** is determined by the buffers that were read before. -/
theorem serve_eq (requests : List (Int64 × Bool)) (read : List κ) :
    serve libs ord toLowerCase store (heapAfter heap read) requests =
      (readBefore ord store read requests).map fun e => (e.1, response libs ord store heap e.1 e.2) := by
  induction requests generalizing read with
  | nil => rfl
  | cons q requests ih =>
    rw [serve, readBefore, List.map_cons, exec_getTrace]
    refine congrArg (List.cons _) ?_
    have hending : (Effect.exec (jsonOfTraces libs ord (tracesOf store q.1)) (heapAfter heap read)).2 =
        heapAfter heap (readThrough read (numbers (writtenOf ord store q.1))) :=
      congrArg Prod.snd (ending_traces libs ord hwell q.1 read)
    rw [hending]
    exact ih _

/-- **Two requests for a trace**, of which the later one finds read what the first one read. -/
theorem response_eq_iff {id : Int64} {read later : List κ}
    (hsub : readThrough read (numbers (writtenOf ord store id)) ⊆ later) :
    response libs ord store heap id read = response libs ord store heap id later ↔
      WrittenAgain ord store heap id read later := by
  have hread : read ⊆ later := List.Subset.trans (subset_readThrough _ _) hsub
  by_cases hunread : Unread read (numbers (writtenOf ord store id))
  · rw [WrittenAgain, or_iff_right (not_not_intro hunread)]
    by_cases hcopied : ∀ b ∈ writtenOf ord store id, Copied b
    · rw [response_eq_iff_of_copied libs ord store hcopied]
      constructor
      · intro heq s hs hid b hb
        have hmem := (mem_writtenOf ord).2 ⟨s, hs, hid, hb⟩
        exact ⟨hcopied b hmem, (copyOf_eq_iff libs (hcopied b hmem) (hwell s hs b hb) hread).1 (heq b hmem)⟩
      · intro hall b hmem
        obtain ⟨s, hs, hid, hb⟩ := (mem_writtenOf ord).1 hmem
        exact (copyOf_eq_iff libs (hcopied b hmem) (hwell s hs b hb) hread).2 (hall s hs hid b hb).2
    · -- a number goes through the first time, and the later request finds it read
      obtain ⟨b, hmem, hnot⟩ : ∃ b ∈ writtenOf ord store id, ¬ Copied b := by simpa using hcopied
      obtain ⟨s, hs, hid, hb⟩ := (mem_writtenOf ord).1 hmem
      have hpos := ((hwell s hs b hb).known_width.2.resolve_right hnot).2
      have hnumber : b.value ∈ numbers (writtenOf ord store id) :=
        List.mem_map_of_mem (List.mem_filter.2 ⟨hmem, decide_eq_true hpos⟩)
      obtain ⟨spans, hfirst⟩ := response_of_unread libs ord hwell hunread
      have hlater := response_of_not_unread libs ord hwell
        fun h => h.2 _ hnumber (hsub (mem_readThrough_of_unread hunread _ hnumber))
      rw [hfirst, hlater]
      constructor
      · intro heq
        cases heq
      · exact fun hall => absurd (hall s hs hid b hb).1 hnot
  · -- a number that was read before the first request was read before the later one too
    have hlater : ¬ Unread later (numbers (writtenOf ord store id)) :=
      fun h => hunread ⟨h.1, fun k hk hin => h.2 k hk (hread hin)⟩
    rw [response_of_not_unread libs ord hwell hunread, response_of_not_unread libs ord hwell hlater]
    exact ⟨fun _ => Or.inl hunread, fun _ => rfl⟩

theorem pairwise_serve_iff (requests : List (Int64 × Bool)) (read : List κ) :
    (serve libs ord toLowerCase store (heapAfter heap read) requests).Pairwise
        (fun first later => first.1 = later.1 → first.2 = later.2) ↔
      (readBefore ord store read requests).Pairwise
        fun first later => first.1 = later.1 → WrittenAgain ord store heap first.1 first.2 later.2 := by
  rw [serve_eq libs ord toLowerCase hwell, List.pairwise_map]
  induction requests generalizing read with
  | nil => exact iff_of_true List.Pairwise.nil List.Pairwise.nil
  | cons q requests ih =>
    rw [readBefore, List.pairwise_cons, List.pairwise_cons, ih]
    refine and_congr_left' (forall₂_congr fun e he => forall_congr' fun hid => ?_)
    rw [← (show q.1 = e.1 from hid)]
    exact response_eq_iff libs ord hwell (subset_of_mem_readBefore ord store he)

end Requests

/-- **When a trace can be read again and again**: exactly when of any two requests for one trace already the first comes to
a number or boolean that was read before, or the trace has bytes and strings only and no number or boolean was read from
their buffers from the first request to the second. -/
theorem sameEachTime_iff (heap : κ → ByteBuffer) (hwell : WellFormedStore store heap) (requests : List (Int64 × Bool)) :
    SameEachTime libs ord toLowerCase store heap requests ↔
      (readBefore ord store [] requests).Pairwise
        fun first later => first.1 = later.1 → WrittenAgain ord store heap first.1 first.2 later.2 := by
  have h := pairwise_serve_iff libs ord toLowerCase hwell requests []
  rwa [heapAfter_nil] at h

/-- Of trace 1 a text, and of trace 2 a span with a boolean that was stored twice, with its buffer. -/
def sharedBuffers : SpanBuffer Bool :=
  [Span.apply 1 "get" 1 none [] [⟨"http.uri", false, .string, none⟩],
    Span.apply 2 "get" 2 none [] [⟨"error", true, .bool, none⟩],
    Span.apply 2 "get" 2 none [] [⟨"error", true, .bool, none⟩]]

def sharedHeap (k : Bool) : ByteBuffer := if k then .wrap [1] else .wrap (getBytesUtf8 "/")

/-- The text is read each time, and each request for trace 2 throws. -/
theorem sameEachTime_sharedBuffers : SameEachTime .sample (.insertion Bool) String.toLower sharedBuffers sharedHeap
    [(1, true), (2, true), (1, false), (2, true)] := by
  have htext : JsonBinaryAnnotation.WellFormed ⟨"http.uri", false, .string, none⟩ (sharedHeap false) :=
    .string rfl "/" (ByteBuffer.bytes_wrap _)
  have hbool : JsonBinaryAnnotation.WellFormed ⟨"error", true, .bool, none⟩ (sharedHeap true) := .bool rfl (by decide)
  have hwell : WellFormedStore sharedBuffers sharedHeap := by
    simpa only [WellFormedStore, sharedBuffers, List.forall_mem_cons, Span.apply, List.not_mem_nil, false_implies,
      implies_true, and_true] using ⟨htext, hbool, hbool⟩
  exact (sameEachTime_iff .sample _ _ sharedBuffers sharedHeap hwell _).2 (by decide)

/-- A trace with a boolean, asked for twice: the second request throws. -/
theorem not_sameEachTime_bool :
    WellFormedStore [Span.apply 1 "get" 1 none [] [⟨"error", (), .bool, none⟩]] (fun _ => .wrap [1]) ∧
    ¬ SameEachTime .sample (.insertion Unit) String.toLower [Span.apply 1 "get" 1 none [] [⟨"error", (), .bool, none⟩]]
      (fun _ => .wrap [1]) [(1, true), (1, true)] := by
  have hwell : WellFormedStore [Span.apply 1 "get" 1 none [] [⟨"error", (), .bool, none⟩]] (fun _ => .wrap [1]) := by
    intro s hs b hb
    rw [List.mem_singleton.1 hs] at hb
    rw [List.mem_singleton.1 hb]
    exact .bool rfl (by decide)
  refine ⟨hwell, fun hsame => ?_⟩
  rw [SameEachTime, ← heapAfter_nil (fun _ => .wrap [1]), pairwise_serve_iff _ _ _ hwell] at hsame
  revert hsame
  decide

end ZipkinQueryController
end Zipkin
