import Zipkin.CassandraSpanStore
/-!
# CassandraStored — the statements of calls that went through

Calls that went through have executed the statements of their spans one after the other (`statements`), each with the
bucket that was drawn for it.  So each table, the tables of names apart, is what these statements have put there: under
each key stands what the last one has bound.
-/
namespace Zipkin

open Effect Repository

/-- A statement as it is submitted: with all its values, or with a bucket that is drawn for it. -/
inductive Submission where
  | bound (insert : Insert)
  | drawn (insert : Nat → Insert)

namespace Submission

def draws : List Submission → Nat
  | [] => 0
  | .bound _ :: l => draws l
  | .drawn _ :: l => draws l + 1

/-- The statements that are executed, `d` numbers having been drawn before. -/
def executed (nextInt : Nat → Fin BUCKETS) : Nat → List Submission → List Insert
  | _, [] => []
  | d, .bound i :: l => i :: executed nextInt d l
  | d, .drawn i :: l => i (nextInt d) :: executed nextInt (d + 1) l

theorem draws_append : ∀ l l' : List Submission, draws (l ++ l') = draws l + draws l'
  | [], l' => (Nat.zero_add _).symm
  | .bound _ :: l, l' => draws_append l l'
  | .drawn _ :: l, l' => by rw [List.cons_append, draws, draws, draws_append l l', Nat.add_right_comm]

theorem executed_append (nextInt : Nat → Fin BUCKETS) : ∀ (l l' : List Submission) (d : Nat),
    executed nextInt d (l ++ l') = executed nextInt d l ++ executed nextInt (d + draws l) l'
  | [], _, _ => rfl
  | .bound i :: l, l', d => congrArg (i :: ·) (executed_append nextInt l l' d)
  | .drawn i :: l, l', d => by
    rw [List.cons_append, executed, executed, draws, executed_append nextInt l l' (d + 1), List.cons_append]
    rw [Nat.add_assoc, Nat.add_comm 1]

theorem mem_executed {nextInt : Nat → Fin BUCKETS} {i : Insert} : ∀ {l : List Submission} {d : Nat},
    i ∈ executed nextInt d l → .bound i ∈ l ∨ ∃ f n, .drawn f ∈ l ∧ d ≤ n ∧ i = f (nextInt n)
  | .bound j :: l, d, h => by
    rcases List.mem_cons.1 h with rfl | h
    · exact Or.inl List.mem_cons_self
    · exact (mem_executed h).imp (List.mem_cons_of_mem _)
        (fun ⟨f, n, hf, hn⟩ => ⟨f, n, List.mem_cons_of_mem _ hf, hn⟩)
  | .drawn f :: l, d, h => by
    rcases List.mem_cons.1 h with rfl | h
    · exact Or.inr ⟨f, d, List.mem_cons_self, Nat.le_refl d, rfl⟩
    · exact (mem_executed h).imp (List.mem_cons_of_mem _)
        (fun ⟨g, n, hg, hn, hi⟩ => ⟨g, n, List.mem_cons_of_mem _ hg, by omega, hi⟩)

/-- What statements put into a table that has no buckets. -/
def rowOf {δ : Type} (row : Insert → Option δ) : Submission → Option δ
  | .bound i => row i
  | .drawn _ => none

theorem filterMap_executed {δ : Type} {row : Insert → Option δ} (nextInt : Nat → Fin BUCKETS) :
    ∀ {l : List Submission} (d : Nat), (∀ f, .drawn f ∈ l → ∀ b, row (f b) = none) →
      (executed nextInt d l).filterMap row = l.filterMap (rowOf row)
  | [], _, _ => rfl
  | .bound i :: l, d, h => by
    rw [executed, List.filterMap_cons, List.filterMap_cons,
      filterMap_executed nextInt d (fun f hf => h f (List.mem_cons_of_mem _ hf))]
    rfl
  | .drawn f :: l, d, h => by
    rw [executed, List.filterMap_cons, List.filterMap_cons, h f List.mem_cons_self,
      filterMap_executed nextInt (d + 1) (fun f hf => h f (List.mem_cons_of_mem _ hf))]
    rfl

end Submission

/-- Whether the statement is of the tables of names, which the cache of written names stands before. -/
def Insert.isName : Insert → Bool
  | .serviceName _ | .spanName _ _ _ => true
  | _ => false

def Insert.annotationRow : Insert → Option (((List UInt8 × Nat) × Int) × Int64)
  | .traceIdByAnnotationKey a bucket ts id => some (((a, bucket), ts), id)
  | _ => none

theorem Keyspace.isTable_annotations_index : IsTable Keyspace.annotations_index Insert.annotationRow :=
  ⟨rfl, fun _ i => by cases i <;> rfl⟩

/-! ## What a run submits -/

variable {machine : Machine} {α β : Type}

/-- A run that goes through draws its buckets and executes the statements, and besides them only some of names. -/
def Submits (machine : Machine) (x : Effect Throwable Repository α) (l : List Submission) : Prop :=
  ∀ r r' a, exec x r = (.ok a, r') → r'.draws = r.draws + Submission.draws l ∧
    ∃ inserts : List Insert, r'.session = inserts.foldl Keyspace.execute r.session ∧
      inserts.filter (fun i => !i.isName) = Submission.executed machine.nextInt r.draws l

section Submits
variable {x : Effect Throwable Repository α} {l l' : List Submission}

theorem Submits.of_unchanged (h : ∀ r r' a, exec x r = (.ok a, r') → r'.draws = r.draws ∧ r'.session = r.session) :
    Submits machine x [] :=
  fun r r' a hx => ⟨(h r r' a hx).1, [], (h r r' a hx).2, rfl⟩

theorem submits_pure (a : α) : Submits machine (pure a) [] :=
  .of_unchanged fun r r' b h => by cases h; exact ⟨rfl, rfl⟩

theorem Submits.bind {f : α → Effect Throwable Repository β} (hx : Submits machine x l)
    (hf : ∀ a, Submits machine (f a) l') : Submits machine (x >>= f) (l ++ l') := by
  intro r r' b h
  obtain ⟨a, r₁, ha, h⟩ := exec_bind_eq_ok h
  obtain ⟨hd, inserts, hs, hl⟩ := hx r r₁ a ha
  obtain ⟨hd', inserts', hs', hl'⟩ := hf a r₁ r' b h
  refine ⟨by rw [hd', hd, Submission.draws_append, Nat.add_assoc], inserts ++ inserts', ?_, ?_⟩
  · rw [hs', hs, List.foldl_append]
  · rw [List.filter_append, hl, hl', hd, Submission.executed_append]

theorem submits_join {f : β → Effect Throwable Repository Unit} {g : β → List Submission} {bs : List β}
    (h : ∀ b ∈ bs, Submits machine (f b) (g b)) :
    Submits machine (CassandraSpanStore.join bs f) (bs.flatMap g) := by
  have hmapM : Submits machine (bs.mapM f) (bs.flatMap g) := by
    induction bs with
    | nil => exact submits_pure []
    | cons b bs ih =>
      rw [mapM_cons, List.flatMap_cons]
      refine (h b List.mem_cons_self).bind (fun _ r r' us hus => ?_)
      rw [exec_map] at hus
      cases hbs : exec (bs.mapM f) r with
      | mk a r₁ =>
        rw [hbs] at hus
        cases a with
        | ok us => cases hus; exact ih (fun c hc => h c (List.mem_cons_of_mem _ hc)) r r₁ us hbs
        | error e => cases hus
  intro r r' u hu
  obtain ⟨us, hus⟩ := CassandraSpanStore.exists_of_join_ok hu
  exact hmapM r r' us hus

theorem submits_join_nil {f : β → Effect Throwable Repository Unit} {bs : List β}
    (h : ∀ b ∈ bs, Submits machine (f b) []) : Submits machine (CassandraSpanStore.join bs f) [] := by
  have hjoin := submits_join h
  rwa [List.flatMap_eq_nil_iff.2 (fun _ _ => rfl)] at hjoin

theorem submits_checkArgument (expression : Bool) : Submits machine (checkArgument expression) [] :=
  .of_unchanged fun r r' u h => by rw [(of_checkArgument h).2]; exact ⟨rfl, rfl⟩

theorem submits_executeAsync {insert : Insert} (h : insert.isName = false) :
    Submits machine (executeAsync insert) [.bound insert] := by
  intro r r' u hu
  cases hu
  exact ⟨rfl, [insert], rfl, by simp [h, Submission.executed]⟩

theorem submits_drawn {insert : Nat → Insert} (h : ∀ b, (insert b).isName = false) :
    Submits machine (nextBucket machine >>= fun b => executeAsync (insert b)) [.drawn insert] := by
  intro r r' u hu
  cases hu
  exact ⟨rfl, [insert (machine.nextInt r.draws)], rfl, by simp [h, Submission.executed]⟩

theorem submits_storeName (thread : Nat) (name : String) {insert : Insert} (h : insert.isName = true) :
    Submits machine (storeName machine thread name insert) [] := by
  have hdraws : ∀ r, (refreshed machine thread r).draws = r.draws := fun r => by
    unfold refreshed
    dsimp only
    split <;> rfl
  intro r r' u hu
  rw [exec_storeName] at hu
  dsimp only at hu
  split at hu <;> cases hu
  · exact ⟨hdraws r, [], session_refreshed machine thread r, rfl⟩
  · exact ⟨hdraws r, [insert], by rw [session_refreshed]; rfl, by simp [h, Submission.executed]⟩

end Submits

/-! ## The statements of a span -/

namespace CassandraSpanStore

variable (jvm : Jvm)

def spanStatement (span : Span (List UInt8)) : Submission :=
  .bound (.span span.traceId (span.lastTimestamp.getD (span.firstTimestamp.getD 0)) (createSpanColumnName jvm span)
    (jvm.encode (span.copyAnnotations (StableSort.sorted Ord.compare span.annotations))))

def nameStatements (span : Span (List UInt8)) : List Submission :=
  match span.lastAnnotation with
  | none => []
  | some lastAnnotation => (serviceNames jvm span).flatMap fun s =>
      [.drawn (fun b => .traceIdByServiceName s b lastAnnotation.timestamp span.traceId)] ++
        if span.name ≠ "" then
          [.bound (.traceIdBySpanName (s ++ "." ++ span.name) lastAnnotation.timestamp span.traceId)]
        else []

/-- The keys that a span has in the index of annotations. -/
def annotationKeys (span : Span (List UInt8)) : List (List UInt8) :=
  let annotations := span.annotations.filter (fun a => !Constants.CoreAnnotations.contains a.value)
  ((jvm.iterate (annotations.map Annotation.value).dedup).flatMap fun value =>
    match minAnnotation (annotations.filter (fun a => a.value == value)) with
    | none => []
    | some a => match a.host with
      | none => []
      | some endpoint => [annotationKey jvm endpoint.serviceName a.value none]) ++
  span.binaryAnnotations.flatMap fun ba => match ba.host with
    | none => []
    | some endpoint =>
      [annotationKey jvm endpoint.serviceName ba.key (some ba.value), annotationKey jvm endpoint.serviceName ba.key none]

def annotationStatements (span : Span (List UInt8)) : List Submission :=
  match span.lastAnnotation with
  | none => []
  | some lastAnnotation => (annotationKeys jvm span).map fun key =>
      .drawn (fun b => .traceIdByAnnotationKey key b lastAnnotation.timestamp span.traceId)

def statements (span : Span (List UInt8)) : List Submission :=
  spanStatement jvm span :: (nameStatements jvm span ++ annotationStatements jvm span)

variable {jvm} {thread : Nat} {span : Span (List UInt8)}

theorem submits_storeSpan (traceId : Int64) (timestamp : Int) (spanName : String) (bytes : List UInt8) :
    Submits machine (storeSpan traceId timestamp spanName bytes) [.bound (.span traceId timestamp spanName bytes)] :=
  (submits_checkArgument _).bind fun _ => submits_executeAsync rfl

theorem submits_storeTraceIdByServiceName (serviceName : String) (timestamp : Int) (traceId : Int64) :
    Submits machine (storeTraceIdByServiceName machine serviceName timestamp traceId)
      [.drawn (fun b => .traceIdByServiceName serviceName b timestamp traceId)] :=
  (submits_checkArgument _).bind fun _ => submits_drawn fun _ => rfl

theorem submits_storeTraceIdBySpanName (serviceName spanName : String) (timestamp : Int) (traceId : Int64) :
    Submits machine (storeTraceIdBySpanName serviceName spanName timestamp traceId)
      [.bound (.traceIdBySpanName (serviceName ++ "." ++ spanName) timestamp traceId)] :=
  (submits_checkArgument _).bind fun _ => (submits_checkArgument _).bind fun _ => submits_executeAsync rfl

theorem submits_storeTraceIdByAnnotation (key : List UInt8) (timestamp : Int) (traceId : Int64) :
    Submits machine (Repository.storeTraceIdByAnnotation machine key timestamp traceId)
      [.drawn (fun b => .traceIdByAnnotationKey key b timestamp traceId)] :=
  submits_drawn fun _ => rfl

theorem submits_indexServiceName : Submits jvm.toMachine (indexServiceName jvm thread span) [] := by
  refine submits_join_nil (fun s _ => ?_)
  split
  · exact submits_pure ()
  · exact (submits_checkArgument _).bind fun _ => submits_storeName thread _ rfl

theorem submits_indexSpanNameByService : Submits jvm.toMachine (indexSpanNameByService jvm thread span) [] := by
  unfold indexSpanNameByService
  split
  · exact submits_pure ()
  · exact submits_join_nil fun s _ => (submits_checkArgument _).bind fun _ => (submits_checkArgument _).bind fun _ =>
      submits_storeName thread _ rfl

theorem submits_indexTraceIdByName :
    Submits jvm.toMachine (indexTraceIdByName jvm span) (nameStatements jvm span) := by
  unfold indexTraceIdByName nameStatements
  cases span.lastAnnotation with
  | none => exact submits_pure ()
  | some last =>
    refine submits_join (fun s _ => (submits_storeTraceIdByServiceName s _ _).bind fun _ => ?_)
    split
    · exact submits_storeTraceIdBySpanName s _ _ _
    · exact submits_pure ()

theorem submits_indexByAnnotations :
    Submits jvm.toMachine (indexByAnnotations jvm span) (annotationStatements jvm span) := by
  unfold indexByAnnotations annotationStatements annotationKeys
  cases span.lastAnnotation with
  | none => exact submits_pure ()
  | some last =>
    dsimp only
    rw [List.map_append, List.map_flatMap, List.map_flatMap]
    refine (submits_join (fun value _ => ?_)).bind fun _ => submits_join (fun ba _ => ?_)
    · cases minAnnotation _ with
      | none => exact submits_pure ()
      | some a =>
        dsimp only
        cases a.host with
        | none => exact submits_pure ()
        | some endpoint => exact submits_storeTraceIdByAnnotation _ _ _
    · cases ba.host with
      | none => exact submits_pure ()
      | some endpoint =>
        exact (CassandraSpanStore.submits_storeTraceIdByAnnotation _ _ _).bind fun _ => submits_storeTraceIdByAnnotation _ _ _

/-- **A span that is stored has its statements executed.** -/
theorem submits_applySpan : Submits jvm.toMachine (applySpan jvm thread span) (statements jvm span) :=
  (submits_storeSpan _ _ _ _).bind fun _ => submits_indexServiceName.bind fun _ =>
    submits_indexSpanNameByService.bind fun _ => submits_indexTraceIdByName.bind fun _ => submits_indexByAnnotations

/-- **The statements of a span**, one by one. -/
theorem mem_statements {submission : Submission} : submission ∈ statements jvm span ↔
    submission = spanStatement jvm span ∨ ∃ last, span.lastAnnotation = some last ∧
      ((∃ s ∈ serviceNames jvm span,
        submission = .drawn (fun b => .traceIdByServiceName s b last.timestamp span.traceId) ∨
          span.name ≠ "" ∧ submission = .bound (.traceIdBySpanName (s ++ "." ++ span.name) last.timestamp span.traceId)) ∨
        ∃ key ∈ annotationKeys jvm span,
          submission = .drawn (fun b => .traceIdByAnnotationKey key b last.timestamp span.traceId)) := by
  rw [statements, List.mem_cons, List.mem_append, nameStatements, annotationStatements]
  cases span.lastAnnotation with
  | none => simp
  | some last =>
    have hname : ∀ i, submission ∈ (if span.name ≠ "" then [.bound i] else []) ↔
        span.name ≠ "" ∧ submission = .bound i := fun i => by
      split <;> simp_all
    simp only [List.mem_flatMap, List.mem_append, List.mem_singleton, hname, List.mem_map, eq_comm (b := submission),
      Option.some.injEq, exists_eq_left']

theorem bound_of_mem_statements {i : Insert} (h : .bound i ∈ statements jvm span) :
    .bound i = spanStatement jvm span ∨ ∃ s ts id, i = .traceIdBySpanName s ts id := by
  rcases mem_statements.1 h with h | ⟨last, -, ⟨s, -, h | ⟨-, h⟩⟩ | ⟨key, -, h⟩⟩
  · exact Or.inl h
  · cases h
  · exact Or.inr ⟨_, _, _, Submission.bound.inj h⟩
  · cases h

theorem drawn_of_mem_statements {f : Nat → Insert} (h : .drawn f ∈ statements jvm span) :
    (∃ s ts id, f = fun b => .traceIdByServiceName s b ts id) ∨
      ∃ key ∈ annotationKeys jvm span, ∃ last, span.lastAnnotation = some last ∧
        f = fun b => .traceIdByAnnotationKey key b last.timestamp span.traceId := by
  rcases mem_statements.1 h with h | ⟨last, hlast, ⟨s, -, h | ⟨-, h⟩⟩ | ⟨key, hkey, h⟩⟩
  · cases h
  · exact Or.inl ⟨s, _, _, Submission.drawn.inj h⟩
  · cases h
  · exact Or.inr ⟨key, hkey, last, hlast, Submission.drawn.inj h⟩

theorem drawn_mem_statements {key : List UInt8} (hkey : key ∈ annotationKeys jvm span) {last : Annotation}
    (hlast : span.lastAnnotation = some last) :
    .drawn (fun b => .traceIdByAnnotationKey key b last.timestamp span.traceId) ∈ statements jvm span :=
  mem_statements.2 (Or.inr ⟨last, hlast, Or.inr ⟨key, hkey, rfl⟩⟩)

/-! ## Calls one after the other -/

/-- Calls of `apply`, each by a thread. -/
def applyAll (jvm : Jvm) (calls : List (Nat × List (Span (List UInt8)))) : Effect Throwable Repository Unit :=
  join calls fun call => apply jvm call.1 call.2

/-- The spans of the calls, in the order in which they are stored. -/
def stored (calls : List (Nat × List (Span (List UInt8)))) : List (Span (List UInt8)) := calls.flatMap Prod.snd

theorem submits_applyAll (calls : List (Nat × List (Span (List UInt8)))) :
    Submits jvm.toMachine (applyAll jvm calls) ((stored calls).flatMap (statements jvm)) := by
  rw [stored, List.flatMap_assoc]
  exact submits_join fun call _ => submits_join fun span _ => submits_applySpan

theorem exists_exec_of_join_ok {α : Type} {l : List α} {f : α → Effect Throwable Repository Unit} {r r' : Repository}
    {u : Unit} (h : exec (join l f) r = (.ok u, r')) {a : α} (ha : a ∈ l) :
    ∃ u r₁ r₂, exec (f a) r₁ = (.ok u, r₂) := by
  obtain ⟨us, h⟩ := exists_of_join_ok h
  obtain ⟨u, ⟨r₁, r₂, hexec⟩, -⟩ := exists_of_mapM_ok₂ h h ha
  exact ⟨u, r₁, r₂, hexec⟩

/-- **A span with an empty service name is not indexed**: its call throws. -/
theorem ne_empty_of_applySpan {r r' : Repository} {u : Unit} (hok : exec (applySpan jvm thread span) r = (.ok u, r'))
    {s : String} (hs : s ∈ serviceNames jvm span) : s ≠ "" := by
  obtain ⟨_, _, -, hspan⟩ := exec_bind_eq_ok hok
  obtain ⟨_, _, -, hspan⟩ := exec_bind_eq_ok hspan
  obtain ⟨_, _, -, hspan⟩ := exec_bind_eq_ok hspan
  obtain ⟨_, _, hname, -⟩ := exec_bind_eq_ok hspan
  obtain ⟨last, hlast⟩ := exists_lastAnnotation hs
  unfold indexTraceIdByName at hname
  rw [hlast] at hname
  obtain ⟨_, _, _, hstore⟩ := exists_exec_of_join_ok hname hs
  obtain ⟨_, _, hstore, -⟩ := exec_bind_eq_ok hstore
  exact ne_empty_of_storeTraceIdByServiceName hstore

theorem ne_empty_of_applyAll {calls : List (Nat × List (Span (List UInt8)))} {r r' : Repository} {u : Unit}
    (hok : exec (applyAll jvm calls) r = (.ok u, r')) {x : Span (List UInt8)} (hx : x ∈ stored calls) {s : String}
    (hs : s ∈ serviceNames jvm x) : s ≠ "" := by
  obtain ⟨call, hcall, hx⟩ := List.mem_flatMap.1 hx
  obtain ⟨_, _, _, happly⟩ := exists_exec_of_join_ok hok hcall
  obtain ⟨_, _, _, hspan⟩ := exists_exec_of_join_ok happly hx
  exact ne_empty_of_applySpan hspan hs

/-! ## What is in the tables -/

section Tables
variable {κ ν : Type} [DecidableEq κ] {table : Keyspace → List (κ × ν)} {row : Insert → Option (κ × ν)}
  {calls : List (Nat × List (Span (List UInt8)))} {r : Repository}

theorem table_foldl (h : Keyspace.IsTable table row) :
    ∀ (inserts : List Insert) (k : Keyspace),
      table (inserts.foldl Keyspace.execute k) = AssocMap.putAll (inserts.filterMap row) (table k)
  | [], _ => rfl
  | i :: inserts, k => by
    rw [List.foldl_cons, table_foldl h inserts, h.execute, ← AssocMap.putAll_append]
    congr 1
    rw [List.filterMap_cons]
    cases row i <;> rfl

/-- **A table has what the statements have put there**, in their order. -/
theorem table_of_applyAll (h : Keyspace.IsTable table row) (hname : ∀ i, i.isName = true → row i = none)
    (hok : exec (applyAll jvm calls) (Repository.empty jvm.toMachine) = (.ok (), r)) :
    table r.session = AssocMap.putAll
      ((Submission.executed jvm.nextInt 0 ((stored calls).flatMap (statements jvm))).filterMap row) [] := by
  obtain ⟨-, inserts, hs, hl⟩ := submits_applyAll calls _ _ _ hok
  have hempty : (Repository.empty jvm.toMachine).session = {} := rfl
  have hdraws : (Repository.empty jvm.toMachine).draws = 0 := rfl
  have hfilter : inserts.filterMap row = (inserts.filter (fun i => !i.isName)).filterMap row := by
    rw [List.filterMap_filter]
    refine List.filterMap_congr (fun i _ => ?_)
    cases hi : i.isName with
    | false => rfl
    | true => exact hname i hi
  rw [hs, table_foldl h, hempty, h.empty, hfilter, hl, hdraws]

theorem table_of_applyAll_bound (h : Keyspace.IsTable table row) (hname : ∀ i, i.isName = true → row i = none)
    (hdrawn : ∀ span f, .drawn f ∈ statements jvm span → ∀ b, row (f b) = none)
    (hok : exec (applyAll jvm calls) (Repository.empty jvm.toMachine) = (.ok (), r)) :
    table r.session = AssocMap.putAll
      ((stored calls).flatMap fun span => (statements jvm span).filterMap (Submission.rowOf row)) [] := by
  rw [table_of_applyAll h hname hok, Submission.filterMap_executed, List.filterMap_flatMap]
  intro f hf
  obtain ⟨span, -, hf⟩ := List.mem_flatMap.1 hf
  exact hdrawn span f hf

end Tables

end CassandraSpanStore
end Zipkin
