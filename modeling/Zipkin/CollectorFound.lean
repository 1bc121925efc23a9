import Zipkin.AnormFound
import Zipkin.Collector
import Zipkin.Sampler
/-!
# CollectorFound — from a log call to the answer of a query

The receiver of `ScribeSpanReceiver.scala`, the queue and the filters of `ZipkinCollectorFactory.scala` and the store of
`AnormSpanStore.scala` together.  What a query finds came in a call of `log` that was answered with `Ok`
(`acknowledged_of_found`), and once the queue is closed what came in such a call is found (`found_of_acknowledged`).  A
batch is stored in one step of its worker: what the store is like in the middle of it is not a state here, and the timeout
of the queue is not reached.
-/
namespace Zipkin

open Effect

/-- `Future.join`: all are carried out, and the first failure is that of all. -/
def Future.join {ε σ : Type} : List (Effect ε σ Unit) → Effect ε σ Unit
  | [] => pure ()
  | x :: xs => .of fun s => match exec x s with
    | (.ok (), s) => exec (Future.join xs) s
    | (.error e, s) => (.error e, (exec (Future.join xs) s).2)

namespace Collector

open AnormSpanStore

/-- The entries of a call of `log`, the sampler of the filter when they are processed, and what the calls of the database throw
for the n-th span. -/
structure Delivery where
  entries : List LogEntry
  sample : Int64 → Bool
  faults : Nat → Nat → Option Throwable

section Definitions
variable (receiver : ScribeReceiver) (generated : Generated) (isSQLRecoverableException : Throwable → Bool)

/-- The spans that come to the store. -/
def spansFor (d : Delivery) : List (Span (List UInt8)) :=
  match (receiver.spansOf d.entries).mapM (thriftscala.Span.toSpan generated) with
  | .ok spans => SpanSamplerFilter.apply d.sample spans
  | .error _ => []

/-- `SpanConvertingFilter andThen spanStoreFilter andThen store`, with `SpanSamplerFilter` and `AnormSpanStore`. -/
def processDelivery (d : Delivery) : Effect Throwable SpanTables Unit :=
  match (receiver.spansOf d.entries).mapM (thriftscala.Span.toSpan generated) with
  | .ok spans => Future.join ((SpanSamplerFilter.apply d.sample spans).zipIdx.map fun (span, n) =>
    storeSpan (d.faults n) isSQLRecoverableException span)
  | .error e => throw e

/-- What `log` answers if the call of `add` returns this. -/
def answer (d : Delivery) (result : Except Throwable Unit) : Except Throwable ResultCode :=
  (exec (receiver.log (fun _ => (pure result : Effect Throwable Unit _)) d.entries) ()).1

/-- The call of `log` has been answered with `Ok`. -/
def Acknowledged (item : Nat → Delivery) (s : ItemQueue.State SpanTables) (c : Nat) : Prop :=
  ∃ result, s.adds c = .returned result ∧ answer receiver (item c) result = .ok .Ok

end Definitions

/-! ## What the store is called with -/

variable {receiver : ScribeReceiver} {generated : Generated} {isSQLRecoverableException : Throwable → Bool}

theorem runCalls_append (calls calls' : List StoreCall) : ∀ t : SpanTables,
    runCalls isSQLRecoverableException (calls ++ calls') t =
      ((runCalls isSQLRecoverableException calls t).1 ++
          (runCalls isSQLRecoverableException calls' (runCalls isSQLRecoverableException calls t).2).1,
        (runCalls isSQLRecoverableException calls' (runCalls isSQLRecoverableException calls t).2).2) := by
  induction calls with
  | nil => exact fun t => rfl
  | cons c calls ih =>
    intro t
    rw [List.cons_append, runCalls, runCalls]
    rcases exec (storeSpan c.faults isSQLRecoverableException c.span) t with ⟨_ | _, t'⟩
    · exact ih t'
    · dsimp only
      rw [ih t']
      rfl

/-- Only spans of the calls are stored. -/
theorem of_mem_runCalls {x : Span (List UInt8)} : ∀ {calls : List StoreCall} {t : SpanTables},
    x ∈ (runCalls isSQLRecoverableException calls t).1 → ∃ c ∈ calls, c.span = x
  | [], _, h => (List.not_mem_nil h).elim
  | c :: calls, t, h => by
    rw [runCalls] at h
    rcases hexec : exec (storeSpan c.faults isSQLRecoverableException c.span) t with ⟨_ | _, t'⟩
    · rw [hexec] at h
      obtain ⟨d, hd, hspan⟩ := of_mem_runCalls h
      exact ⟨d, List.mem_cons_of_mem c hd, hspan⟩
    · rw [hexec] at h
      rcases List.mem_cons.1 h with rfl | h
      · exact ⟨c, List.mem_cons_self, rfl⟩
      · obtain ⟨d, hd, hspan⟩ := of_mem_runCalls h
        exact ⟨d, List.mem_cons_of_mem c hd, hspan⟩

/-- **Where the database does not fail**, all of them are. -/
theorem runCalls_none : ∀ {calls : List StoreCall} (stored : List (Span (List UInt8))),
    (∀ c ∈ calls, c.faults = fun _ => none) →
    (runCalls isSQLRecoverableException calls (tablesOf stored)).1 = calls.map StoreCall.span
  | [], _, _ => rfl
  | c :: calls, stored, h => by
    have hexec : exec (storeSpan c.faults isSQLRecoverableException c.span) (tablesOf stored) =
        (.ok (), tablesOf (stored ++ [c.span])) := by
      rw [h c List.mem_cons_self, storeSpan, exec_map, DB.exec_pooled_none (exec_inserts c.span)]
      rfl
    rw [runCalls, hexec]
    exact congrArg (c.span :: ·) (runCalls_none _ fun d hd => h d (List.mem_cons_of_mem c hd))

theorem exec_join (calls : List StoreCall) : ∀ t : SpanTables,
    (exec (Future.join (calls.map fun c => storeSpan c.faults isSQLRecoverableException c.span)) t).2 =
      (runCalls isSQLRecoverableException calls t).2 := by
  induction calls with
  | nil => exact fun t => rfl
  | cons c calls ih =>
    intro t
    rw [List.map_cons, Future.join, exec_of, runCalls]
    rcases exec (storeSpan c.faults isSQLRecoverableException c.span) t with ⟨_ | _, t'⟩
    · exact ih t'
    · exact ih t'

/-- The calls of `storeSpan` for a call of `log`. -/
def storeCalls (receiver : ScribeReceiver) (generated : Generated) (d : Delivery) : List StoreCall :=
  (spansFor receiver generated d).zipIdx.map fun (span, n) => ⟨d.faults n, span⟩

theorem map_span_storeCalls (receiver : ScribeReceiver) (generated : Generated) (d : Delivery) :
    (storeCalls receiver generated d).map StoreCall.span = spansFor receiver generated d := by
  rw [storeCalls, List.map_map]
  exact List.zipIdx_map_fst 0 _

theorem exec_processDelivery (d : Delivery) (t : SpanTables) :
    (exec (processDelivery receiver generated isSQLRecoverableException d) t).2 =
      (runCalls isSQLRecoverableException (storeCalls receiver generated d) t).2 := by
  rw [processDelivery, storeCalls, spansFor]
  cases (receiver.spansOf d.entries).mapM (thriftscala.Span.toSpan generated) with
  | error e => rfl
  | ok spans =>
    dsimp only
    rw [← exec_join, List.map_map]
    rfl

section Run
variable {maxSize maxConcurrency : Nat} {item : Nat → Delivery} {labels : List ItemQueue.Label} {s : ItemQueue.State SpanTables}

/-- **The tables after a run** are those of the calls that have been processed. -/
theorem store_eq (hrun : Transition.run
      (ItemQueue.step maxSize item (processDelivery receiver generated isSQLRecoverableException))
      (ItemQueue.init maxConcurrency {}) labels = some s) :
    s.store = (runCalls isSQLRecoverableException
      (s.processed.flatMap fun c => storeCalls receiver generated (item c)) {}).2 := by
  refine Transition.run_invariant (P := fun s : ItemQueue.State SpanTables => s.store = (runCalls isSQLRecoverableException
    (s.processed.flatMap fun c => storeCalls receiver generated (item c)) {}).2) (fun s label s' h hstep => ?_) rfl hrun
  cases ItemQueue.step_cases hstep with
  | process w c =>
    dsimp only
    rw [ItemQueue.processItem, exec_processDelivery, List.flatMap_append, runCalls_append, ← h, List.flatMap_singleton]
  | readRunning | accept | full | goOn | leave | take | timeout | close | join => exact h

/-- A call of `add` that fails has found the queue full, or closed. -/
theorem error_of_run {α β σ : Type} {item : Nat → α} {process : α → Effect Throwable σ β} {store : σ} {s : ItemQueue.State σ}
    (hrun : Transition.run (ItemQueue.step maxSize item process) (ItemQueue.init maxConcurrency store) labels = some s) :
    ∀ c e, s.adds c = .returned (.error e) →
      e = ItemQueue.QueueFullException maxSize ∨ e = ItemQueue.QueueClosedException := by
  refine Transition.run_invariant (P := fun s : ItemQueue.State σ => ∀ c e, s.adds c = .returned (.error e) →
    e = ItemQueue.QueueFullException maxSize ∨ e = ItemQueue.QueueClosedException) (fun s label s' h hstep => ?_)
      (fun c e h => by cases h) hrun
  have hupdate : ∀ d a, (∀ e, a = .returned (.error e) → e = ItemQueue.QueueFullException maxSize ∨
      e = ItemQueue.QueueClosedException) → ∀ c e, Function.update s.adds d a c = .returned (.error e) →
        e = ItemQueue.QueueFullException maxSize ∨ e = ItemQueue.QueueClosedException := fun d a ha c e herror => by
    by_cases hc : c = d
    · subst hc
      exact ha e ((Function.update_self c a s.adds).symm.trans herror)
    · exact h c e ((Function.update_of_ne hc a s.adds).symm.trans herror)
  cases ItemQueue.step_cases hstep with
  | goOn | leave | take | timeout | process | close | join => exact h
  | readRunning d =>
    refine hupdate d _ fun e herror => ?_
    split at herror
    · cases herror
    · exact Or.inr (Except.error.inj (ItemQueue.Adding.returned.inj herror)).symm
  | accept d => exact hupdate d _ fun e herror => by cases herror
  | full d => exact hupdate d _ fun e herror => Or.inl (Except.error.inj (ItemQueue.Adding.returned.inj herror)).symm

theorem answer_ok (d : Delivery) : answer receiver d (.ok ()) = .ok .Ok := by
  unfold answer ScribeReceiver.log
  split <;> rfl

/-- A call is acknowledged exactly if its batch has been put into the queue, where there is one. -/
theorem acknowledged_iff (hrun : Transition.run
      (ItemQueue.step maxSize item (processDelivery receiver generated isSQLRecoverableException))
      (ItemQueue.init maxConcurrency {}) labels = some s)
    (hqueue : ∀ e, e = ItemQueue.QueueFullException maxSize ∨ e = ItemQueue.QueueClosedException →
      receiver.isFatal e = false ∧ receiver.isCancelled e = false) {c : Nat} (hspans : receiver.spansOf (item c).entries ≠ []) :
    Acknowledged receiver item s c ↔ s.adds c = .returned (.ok ()) := by
  constructor
  · rintro ⟨⟨_⟩ | _, hadd, hanswer⟩
    · rename_i e
      obtain ⟨hfatal, hcancelled⟩ := hqueue e (error_of_run hrun c e hadd)
      have hlater : answer receiver (item c) (.error e) = .ok .TryLater := by
        have hempty : (receiver.spansOf (item c).entries).isEmpty = false := List.isEmpty_eq_false_iff.2 hspans
        unfold answer ScribeReceiver.log
        rw [hempty]
        simp only [Bool.false_eq_true, if_false, exec_bind, exec_pure, hfatal, hcancelled]
      cases hlater.symm.trans hanswer
    · exact hadd
  · exact fun hadd => ⟨_, hadd, answer_ok _⟩

end Run

end Collector

/-! ## What a query finds -/

namespace AnormSpanStore
variable {stored : List (Span (List UInt8))} {endTs limit : Int} {q : SpanBuffer.IdQuery} {found : List IndexedTraceId}

/-- **An answer that does not reach the limit** has all traces that match. -/
theorem Answers.mem_of_lt (h : Answers stored endTs limit q found) (hlimit : found.length < limit) {x : Span (List UInt8)}
    (hx : x ∈ stored) (hmatches : matchesQuery endTs x q = true) : x.traceId ∈ found.map IndexedTraceId.traceId := by
  have hlength : found.length = ((matching stored endTs q).map Span.traceId).dedup.length := by
    have hcount := h.counts.2
    omega
  have hsubset : found.map IndexedTraceId.traceId ⊆ ((matching stored endTs q).map Span.traceId).dedup := fun id hid => by
    obtain ⟨e, he, rfl⟩ := List.mem_map.1 hid
    obtain ⟨y, hy, htrace⟩ := h.found e he
    exact List.mem_dedup.2 (htrace ▸ List.mem_map_of_mem hy)
  -- as many different ids as there are
  have hperm := (h.counts.1.subperm hsubset).perm_of_length_le (by rw [List.length_map, hlength])
  exact hperm.mem_iff.2 (List.mem_dedup.2 (List.mem_map_of_mem (List.mem_filter.2 ⟨hx, hmatches⟩)))

end AnormSpanStore

namespace Collector

open AnormSpanStore

/-- A receiver of messages in lower case, which all have the same span. -/
def sampleReceiver : ScribeReceiver where
  categories := ["zipkin"]
  locale := ⟨id, fun _ => rfl, fun _ => Iff.rfl, fun _ _ _ => rfl, fun s _ _ => ⟨s, rfl⟩⟩
  fromString _ := .ok get
  isFatal _ := false
  isCancelled _ := false

def getDelivery : Delivery := ⟨[⟨"zipkin", "get"⟩], fun _ => true, fun _ _ => none⟩

def getLabels : List ItemQueue.Label := [.readRunning 0, .offer 0, .close, .loop 0, .poll 0, .process 0, .loop 0, .join]

def getSpan : Span (List UInt8) := .apply 1 "get" 1 none [⟨10, "cs", none⟩] []

theorem run_get : ∃ s, Transition.run
      (ItemQueue.step 10 (fun _ => getDelivery) (processDelivery sampleReceiver sample fun _ => false)) (ItemQueue.init 1 {})
      getLabels = some s ∧ s.closing = .completed ∧ s.adds 0 = .returned (.ok ()) ∧ s.store = tablesOf [getSpan] := by
  obtain ⟨s, hrun, hclosed, hadd, hprocessed⟩ : ∃ s, Transition.run
      (ItemQueue.step 10 (fun _ => getDelivery) (processDelivery sampleReceiver sample fun _ => false)) (ItemQueue.init 1 {})
      getLabels = some s ∧ s.closing = .completed ∧ s.adds 0 = .returned (.ok ()) ∧ s.processed = [0] := ⟨_, rfl, rfl, rfl, rfl⟩
  refine ⟨s, hrun, hclosed, hadd, ?_⟩
  rw [store_eq hrun, hprocessed]
  rfl

section Queries
variable (receiver : ScribeReceiver) (generated : Generated) (isSQLRecoverableException : Throwable → Bool)
  (maxSize maxConcurrency : Nat) (item : Nat → Delivery) (labels : List ItemQueue.Label) (s : ItemQueue.State SpanTables)
  (order : RowOrder) (nullFound : Throwable) (endTs limit : Int) (q : SpanBuffer.IdQuery) (found : List IndexedTraceId)

/-- **What is found was acknowledged**: at any time, in whatever order the calls, the workers and the close take their steps
and whatever the database throws, a trace that a query finds has a matching span of a call of `log` that was answered with
`Ok`. -/
theorem acknowledged_of_found (hrun : Transition.run
      (ItemQueue.step maxSize item (processDelivery receiver generated isSQLRecoverableException))
      (ItemQueue.init maxConcurrency {}) labels = some s)
    (hfound : getTraceIds order nullFound s.store endTs limit q = .ok found) (e : IndexedTraceId) (he : e ∈ found) :
    ∃ c, Acknowledged receiver item s c ∧
      ∃ span ∈ spansFor receiver generated (item c), span.traceId = e.traceId ∧ matchesQuery endTs span q = true := by
  rw [store_eq hrun, run_eq] at hfound
  rcases getTraceIds_cases order nullFound endTs limit q with ⟨herror, -⟩ | ⟨found', hok, hanswers⟩
  · cases herror.symm.trans hfound
  obtain rfl := Except.ok.inj (hok.symm.trans hfound)
  obtain ⟨span, hspan, htrace⟩ := hanswers.found e he
  obtain ⟨hstored, hmatches⟩ := List.mem_filter.1 hspan
  obtain ⟨call, hcall, rfl⟩ := of_mem_runCalls hstored
  obtain ⟨c, hc, hcall⟩ := List.mem_flatMap.1 hcall
  have hadd : s.adds c = .returned (.ok ()) :=
    ((ItemQueue.keepsItems.run_accounted hrun).mem_held c).1 (List.mem_append_right _ (List.mem_append_right _ hc))
  refine ⟨c, ⟨_, hadd, answer_ok _⟩, call.span, ?_, htrace, hmatches⟩
  exact map_span_storeCalls receiver generated (item c) ▸ List.mem_map_of_mem hcall

/-- One call of `log` with one span, which is found. -/
theorem acknowledged_of_found_get : ∃ s, Transition.run
      (ItemQueue.step 10 (fun _ => getDelivery) (processDelivery sampleReceiver sample fun _ => false)) (ItemQueue.init 1 {})
      getLabels = some s ∧ ∃ c, Acknowledged sampleReceiver (fun _ => getDelivery) s c := by
  obtain ⟨s, hrun, -, -, hstore⟩ := run_get
  obtain ⟨c, hok, -⟩ := acknowledged_of_found sampleReceiver sample (fun _ => false) 10 1 (fun _ => getDelivery) getLabels s
    .insertion ⟨"RuntimeException", "UnexpectedNullableFound"⟩ 100 10 (.byName "Unknown service name" none) [⟨1, 10⟩] hrun
    (by rw [hstore]; rfl) ⟨1, 10⟩ List.mem_cons_self
  exact ⟨s, hrun, c, hok⟩

/-- **What was acknowledged is found**: once `close` has completed and no offer came after the last worker had ended, a query
whose answer does not reach its limit has the trace of each span that it matches of a call of `log` that was answered with
`Ok`, if the database does not fail and the exceptions of the queue are neither fatal nor of a request that was cancelled. -/
theorem found_of_acknowledged (hrun : Transition.run
      (ItemQueue.step maxSize item (processDelivery receiver generated isSQLRecoverableException))
      (ItemQueue.init maxConcurrency {}) labels = some s)
    (hclosed : s.closing = .completed)
    (htime : Transition.Meets (ItemQueue.step maxSize item (processDelivery receiver generated isSQLRecoverableException))
      (ItemQueue.InTime maxSize) (ItemQueue.init maxConcurrency {}) labels)
    (hfaults : ∀ c n, (item c).faults n = fun _ => none)
    (hqueue : ∀ e, e = ItemQueue.QueueFullException maxSize ∨ e = ItemQueue.QueueClosedException →
      receiver.isFatal e = false ∧ receiver.isCancelled e = false)
    (hfound : getTraceIds order nullFound s.store endTs limit q = .ok found) (hlimit : found.length < limit) (c : Nat)
    (hok : Acknowledged receiver item s c) (span : Span (List UInt8))
    (hspan : span ∈ spansFor receiver generated (item c)) (hmatches : matchesQuery endTs span q = true) :
    span.traceId ∈ found.map IndexedTraceId.traceId := by
  have hspans : receiver.spansOf (item c).entries ≠ [] := fun hnil => by
    rw [spansFor, hnil] at hspan
    exact List.not_mem_nil hspan
  -- the call is among those that have been processed
  have hadd := (acknowledged_iff hrun hqueue hspans).1 hok
  have honce := (ItemQueue.keepsItems.once_iff hrun hclosed).2 htime
  have hprocessed : c ∈ s.processed := List.count_pos_iff.1 (by rw [(honce c).1 hadd]; exact Nat.one_pos)
  let calls := s.processed.flatMap fun c => storeCalls receiver generated (item c)
  have hnone : ∀ call ∈ calls, call.faults = fun _ => none := fun call hcall => by
    obtain ⟨d, -, hcall⟩ := List.mem_flatMap.1 hcall
    obtain ⟨⟨x, n⟩, -, rfl⟩ := List.mem_map.1 hcall
    exact hfaults d n
  have hstored : (runCalls isSQLRecoverableException calls {}).1 = calls.map StoreCall.span := runCalls_none [] hnone
  rw [store_eq hrun, run_eq, hstored] at hfound
  rcases getTraceIds_cases order nullFound endTs limit q with ⟨herror, -⟩ | ⟨found', hanswer, hanswers⟩
  · cases herror.symm.trans hfound
  obtain rfl := Except.ok.inj (hanswer.symm.trans hfound)
  refine hanswers.mem_of_lt hlimit ?_ hmatches
  rw [← map_span_storeCalls] at hspan
  obtain ⟨call, hcall, rfl⟩ := List.mem_map.1 hspan
  exact List.mem_map_of_mem (List.mem_flatMap.2 ⟨c, hprocessed, hcall⟩)

/-- The call is acknowledged, and its span is found. -/
theorem found_of_acknowledged_get : (1 : Int64) ∈ [(⟨1, 10⟩ : IndexedTraceId)].map IndexedTraceId.traceId := by
  obtain ⟨s, hrun, hclosed, hadd, hstore⟩ := run_get
  exact found_of_acknowledged sampleReceiver sample (fun _ => false) 10 1 (fun _ => getDelivery) getLabels s .insertion
    ⟨"RuntimeException", "UnexpectedNullableFound"⟩ 100 10 (.byName "Unknown service name" none) [⟨1, 10⟩] hrun hclosed
    (by decide) (fun _ _ => rfl) (fun _ _ => ⟨rfl, rfl⟩) (by rw [hstore]; rfl) (by decide) 0 ⟨.ok (), hadd, rfl⟩ getSpan
    List.mem_cons_self rfl

end Queries

end Collector
end Zipkin
