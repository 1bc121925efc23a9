import Zipkin.ItemQueue
import Zipkin.LowerCase
import Zipkin.Thrift
/-!
# Collector — from the receiver to the store

`ZipkinCollectorFactory.scala` and the receiver of `ScribeSpanReceiver.scala`.  A batch of structs is made a list of spans
and handed to the store, in the call of the receiver or by a worker of the queue.  One struct of which no span can be made
throws, and its whole batch does not come to the store: `reachesStore_iff` says when the others do.
-/
namespace Zipkin

open Effect

/-- The lists of spans that `SpanStore.apply` has been called with. -/
abbrev SpanStoreCalls := List (List (Span (List UInt8)))

namespace Collector

/-- A store whose calls succeed. -/
def store (spans : List (Span (List UInt8))) : Effect Throwable SpanStoreCalls Unit :=
  .of fun calls => (.ok (), calls ++ [spans])

/-- `Filter.identity`, which the collector has without a sampler. -/
def spanStoreFilter (spans : List (Span (List UInt8))) (svc : List (Span (List UInt8)) → Effect Throwable SpanStoreCalls Unit) :
    Effect Throwable SpanStoreCalls Unit := svc spans

variable (generated : Generated)

/-- `spans.map(_.toSpan)` throws what the first conversion that fails throws. -/
def SpanConvertingFilter (spans : List thriftscala.Span)
    (svc : List (Span (List UInt8)) → Effect Throwable SpanStoreCalls Unit) : Effect Throwable SpanStoreCalls Unit :=
  match spans.mapM (thriftscala.Span.toSpan generated) with
  | .ok spans => svc spans
  | .error e => throw e

/-- `SpanConvertingFilter andThen spanStoreFilter andThen store`, which is called by the receiver or by a worker. -/
def process (spans : List thriftscala.Span) : Effect Throwable SpanStoreCalls Unit :=
  SpanConvertingFilter generated spans fun spans => spanStoreFilter spans store

/-! ## `ScribeReceiver` -/

structure LogEntry where
  category : String
  message : String
deriving DecidableEq, Repr

inductive ResultCode where
  | Ok
  | TryLater
deriving DecidableEq, Repr

/-- The libraries of the receiver: `deserializer.fromString`, and which exceptions are fatal, or of a request that its
client cancelled. -/
structure ScribeReceiver where
  categories : List String
  locale : Locale
  fromString : String → Except Throwable thriftscala.Span
  isFatal : Throwable → Bool
  isCancelled : Throwable → Bool

namespace ScribeReceiver

variable (receiver : ScribeReceiver)

/-- What cannot be read is swallowed. -/
def entryToSpan (entry : LogEntry) : Option thriftscala.Span :=
  match receiver.fromString entry.message with
  | .ok span => some span
  | .error _ => none

def spansOf (entries : List LogEntry) : List thriftscala.Span :=
  entries.filterMap fun entry =>
    if (receiver.categories.map receiver.locale.toLowerCase).contains (receiver.locale.toLowerCase entry.category) then
      receiver.entryToSpan entry
    else none

/-- The result of `process` is that of its future. -/
def log {σ : Type} (process : List thriftscala.Span → Effect Throwable σ (Except Throwable Unit)) (entries : List LogEntry) :
    Effect Throwable σ ResultCode :=
  if (receiver.spansOf entries).isEmpty then pure .Ok
  else do
    match ← process (receiver.spansOf entries) with
    | .ok _ => pure .Ok
    | .error e =>
      if receiver.isFatal e then throw e
      else if receiver.isCancelled e then pure .Ok
      else pure .TryLater

end ScribeReceiver

/-! ## What comes to the store -/

variable {generated} {batch : List thriftscala.Span}

def Converts (generated : Generated) (t : thriftscala.Span) : Prop := (t.toSpan generated).isOk = true

instance (t : thriftscala.Span) : Decidable (Converts generated t) := inferInstanceAs (Decidable (_ = true))

def AllOrNone (generated : Generated) (batch : List thriftscala.Span) : Prop :=
  (∀ t ∈ batch, Converts generated t) ∨ ∀ t ∈ batch, ¬ Converts generated t

instance : Decidable (AllOrNone generated batch) := inferInstanceAs (Decidable (_ ∨ _))

/-- Each span that can be made of a struct of the batch is in a call. -/
def ReachesStore (generated : Generated) (batch : List thriftscala.Span) (calls : SpanStoreCalls) : Prop :=
  ∀ t ∈ batch, ∀ span, t.toSpan generated = .ok span → ∃ call ∈ calls, span ∈ call

def callsFor (generated : Generated) (batch : List thriftscala.Span) : SpanStoreCalls :=
  match batch.mapM (thriftscala.Span.toSpan generated) with
  | .ok spans => [spans]
  | .error _ => []

theorem exec_process (batch : List thriftscala.Span) (calls : SpanStoreCalls) :
    (exec (process generated batch) calls).2 = calls ++ callsFor generated batch := by
  rw [process, SpanConvertingFilter, callsFor]
  cases batch.mapM (thriftscala.Span.toSpan generated) with
  | ok spans => rfl
  | error e => exact (List.append_nil calls).symm

theorem converts_iff {t : thriftscala.Span} : Converts generated t ↔ ∃ span, t.toSpan generated = .ok span := by
  rw [Converts]
  cases t.toSpan generated with
  | ok span => exact iff_of_true rfl ⟨span, rfl⟩
  | error e => exact iff_of_false Bool.false_ne_true (fun ⟨_, h⟩ => nomatch h)

/-- **When the spans of a batch come to the store.** -/
theorem reachesStore_callsFor_iff : ReachesStore generated batch (callsFor generated batch) ↔ AllOrNone generated batch := by
  rw [callsFor, AllOrNone]
  simp only [converts_iff]
  cases hmapM : batch.mapM (thriftscala.Span.toSpan generated) with
  | ok spans =>
    have hspans := exists_mem_of_mapM_ok hmapM
    refine iff_of_true (fun t ht span hspan => ⟨spans, List.mem_singleton_self _, ?_⟩)
      (Or.inl (fun t ht => (hspans t ht).imp fun _ h => h.2))
    obtain ⟨span', hmem, hspan'⟩ := hspans t ht
    exact Except.ok.inj (hspan.symm.trans hspan') ▸ hmem
  | error e =>
    constructor
    · rintro hreaches
      refine Or.inr (fun t ht => ?_)
      rintro ⟨span, hspan⟩
      obtain ⟨_, hcall, -⟩ := hreaches t ht span hspan
      exact List.not_mem_nil hcall
    · rintro (hall | hnone) t ht span hspan
      · obtain ⟨spans, hspans⟩ := exists_mapM_ok hall
        rw [hmapM] at hspans
        cases hspans
      · exact (hnone t ht ⟨span, hspan⟩).elim

/-- What is read of the entries is handed to `process` in one batch, whatever could not be read. -/
theorem exec_log (receiver : ScribeReceiver) (entries : List LogEntry) (calls : SpanStoreCalls) :
    (exec (receiver.log (fun spans => .ok <$> process generated spans) entries) calls).2 =
      if receiver.spansOf entries = [] then calls else calls ++ callsFor generated (receiver.spansOf entries) := by
  rw [ScribeReceiver.log]
  by_cases hnil : receiver.spansOf entries = []
  · rw [if_pos (List.isEmpty_iff.2 hnil), if_pos hnil]
    rfl
  · rw [if_neg (fun h => hnil (List.isEmpty_iff.1 h)), if_neg hnil, exec_bind, exec_map, ← exec_process]
    cases exec (process generated (receiver.spansOf entries)) calls with
    | mk r calls' => cases r <;> rfl

end Collector

namespace ItemQueue

open Collector

/-- **The calls of the store are those for the batches that were processed**, in their order. -/
theorem store_run {generated : Generated} {maxSize maxConcurrency : Nat} {item : Nat → List thriftscala.Span}
    {labels : List Label} {s : State SpanStoreCalls}
    (hrun : Transition.run (step maxSize item (process generated)) (init maxConcurrency []) labels = some s) :
    s.store = s.processed.flatMap fun c => callsFor generated (item c) := by
  refine Transition.run_invariant (P := fun s : State SpanStoreCalls =>
    s.store = s.processed.flatMap fun c => callsFor generated (item c)) (fun s label s' h hstep => ?_) rfl hrun
  cases step_cases hstep with
  | process w c =>
    dsimp only
    rw [processItem, exec_process, List.flatMap_append, ← h, List.flatMap_singleton]
  | readRunning | accept | full | goOn | leave | take | timeout | close | join => exact h

end ItemQueue

namespace Collector

def newCalls (before after : SpanStoreCalls) : SpanStoreCalls := after.drop before.length

theorem newCalls_process (batch : List thriftscala.Span) (before : SpanStoreCalls) :
    newCalls before (exec (process generated batch) before).2 = callsFor generated batch := by
  rw [exec_process, newCalls, List.drop_left]

/-- **When a bad struct does not take others down with it**, in the call of the receiver and in a worker of the queue. -/
theorem reachesStore_iff (generated : Generated) :
    (∀ batch before, ReachesStore generated batch (newCalls before (exec (process generated batch) before).2) ↔
      AllOrNone generated batch) ∧
    ∀ (maxSize : Nat) (item : Nat → List thriftscala.Span) (s s' : ItemQueue.State SpanStoreCalls) (w c : Nat),
      s.workers[w]? = some (.process c) → ItemQueue.step maxSize item (process generated) s (.process w) = some s' →
        (ReachesStore generated (item c) (newCalls s.store s'.store) ↔ AllOrNone generated (item c)) := by
  refine ⟨fun batch before => ?_, fun maxSize item s s' w c hw hstep => ?_⟩
  · rw [newCalls_process, reachesStore_callsFor_iff]
  · cases ItemQueue.step_cases hstep with
    | process w c' hw' =>
      obtain rfl := ItemQueue.Worker.process.inj (Option.some.inj (hw'.symm.trans hw))
      rw [ItemQueue.processItem, newCalls_process, reachesStore_callsFor_iff]

section Instances

def sample : Generated := ⟨fun t => toString (repr t), fun a => a.value⟩

def get : thriftscala.Span := ⟨1, some "get", 1, none, some [⟨10, "cs", none⟩], some [], false⟩

def find : thriftscala.Span := ⟨2, some "find", 1, none, some [⟨12, "cs", none⟩, ⟨17, "cr", none⟩], some [], true⟩

/-- Its annotation has no timestamp. -/
def untimed : thriftscala.Span := ⟨1, some "put", 2, none, some [⟨0, "cs", none⟩], some [], false⟩

/-- Both come to the store. -/
theorem reachesStore_get_find : ∃ s', ItemQueue.step 10 (fun _ => [get, find]) (process sample)
      { ItemQueue.init 1 [] with workers := [.process 0] } (.process 0) = some s' ∧
    ReachesStore sample [get, find] (newCalls [] s'.store) :=
  ⟨_, rfl, ((reachesStore_iff sample).2 10 (fun _ => [get, find]) { ItemQueue.init 1 [] with workers := [.process 0] } _ 0 0
    rfl rfl).2 (by decide)⟩

/-- With a struct that is refused in its batch, a good one does not come to the store. -/
theorem not_reachesStore_untimed : ¬ ReachesStore sample [get, untimed] (newCalls [] (exec (process sample [get, untimed]) []).2) := by
  intro hreaches
  obtain ⟨call, hcall, -⟩ := hreaches get List.mem_cons_self _ rfl
  exact List.not_mem_nil hcall

end Instances

end Collector
end Zipkin
