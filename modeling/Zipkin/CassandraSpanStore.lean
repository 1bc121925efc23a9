import Zipkin.RepositoryWrites
import Zipkin.SpanStore
/-!
# CassandraSpanStore — what the store writes of a span, and what it reads

`CassandraSpanStore.scala`.  The statements of a call are submitted one after the other by the thread of the call, which
stops where an argument is refused.  `Indexes` says which statements a span can cause, and a call causes no others
(`apply_writes`).
-/
namespace Zipkin

open Repository (checkArgument)

/-- The machine, with the functions of its libraries: hash codes of lists, the codec of spans, the default charset, and
the order in which the elements of a set or the keys of a map come. -/
structure Jvm extends Repository.Machine where
  annotationsHashCode : List Annotation → Int32
  binaryAnnotationsHashCode : List (Zipkin.BinaryAnnotation (List UInt8)) → Int32
  encode : Span (List UInt8) → List UInt8
  getBytes : String → List UInt8
  iterate : List String → List String
  iterate_perm : ∀ l, (iterate l).Perm l

namespace CassandraSpanStore

variable (jvm : Jvm) (thread : Nat)

def createSpanColumnName (span : Span (List UInt8)) : String :=
  toString span.id.toInt ++ "_" ++ toString (jvm.annotationsHashCode span.annotations).toInt ++ "_" ++
    toString (jvm.binaryAnnotationsHashCode span.binaryAnnotations).toInt

def IndexDelimiterBytes : List UInt8 := jvm.getBytes ":"

def annotationKey (serviceName annotation : String) (value : Option (List UInt8)) : List UInt8 :=
  jvm.getBytes serviceName ++ IndexDelimiterBytes jvm ++ jvm.getBytes annotation ++
    (value.map (fun v => IndexDelimiterBytes jvm ++ v)).getD []

/-- The set of the span's service names, in the order in which they come. -/
def serviceNames (span : Span (List UInt8)) : List String :=
  jvm.iterate (span.serviceNames jvm.locale.toLowerCase).dedup

/-- `Future.join` of what is submitted for each element. -/
def join {α : Type} (l : List α) (f : α → Effect Throwable Repository Unit) : Effect Throwable Repository Unit :=
  (fun _ => ()) <$> l.mapM f

/-! ## The indexes -/

def indexServiceName (span : Span (List UInt8)) : Effect Throwable Repository Unit :=
  join (serviceNames jvm span) fun s =>
    if s = "" then pure () else Repository.storeServiceName jvm.toMachine thread (jvm.locale.toLowerCase s)

def indexSpanNameByService (span : Span (List UInt8)) : Effect Throwable Repository Unit :=
  if span.name = "" then pure ()
  else join (serviceNames jvm span) fun serviceName =>
    Repository.storeSpanName jvm.toMachine thread serviceName (jvm.locale.toLowerCase span.name)

def indexTraceIdByName (span : Span (List UInt8)) : Effect Throwable Repository Unit :=
  match span.lastAnnotation with
  | none => pure ()
  | some lastAnnotation => join (serviceNames jvm span) fun serviceName => do
    Repository.storeTraceIdByServiceName jvm.toMachine serviceName lastAnnotation.timestamp span.traceId
    if span.name ≠ "" then
      Repository.storeTraceIdBySpanName serviceName span.name lastAnnotation.timestamp span.traceId

/-- `as.min`, the first of the smallest. -/
def minAnnotation (as : List Annotation) : Option Annotation :=
  AssocMap.mergeAll (fun a b => if (compare a b).isLE then a else b) as

def indexByAnnotations (span : Span (List UInt8)) : Effect Throwable Repository Unit :=
  match span.lastAnnotation with
  | none => pure ()
  | some lastAnnotation => do
    let annotations := span.annotations.filter (fun a => !Constants.CoreAnnotations.contains a.value)
    join (jvm.iterate (annotations.map Annotation.value).dedup) fun value =>
      match minAnnotation (annotations.filter (fun a => a.value == value)) with
      | none => pure ()
      | some a => match a.host with
        | none => pure ()
        | some endpoint => Repository.storeTraceIdByAnnotation jvm.toMachine
            (annotationKey jvm endpoint.serviceName a.value none) lastAnnotation.timestamp span.traceId
    join span.binaryAnnotations fun ba => match ba.host with
      | none => pure ()
      | some endpoint => do
        Repository.storeTraceIdByAnnotation jvm.toMachine
          (annotationKey jvm endpoint.serviceName ba.key (some ba.value)) lastAnnotation.timestamp span.traceId
        Repository.storeTraceIdByAnnotation jvm.toMachine
          (annotationKey jvm endpoint.serviceName ba.key none) lastAnnotation.timestamp span.traceId

/-! ## The API -/

def applySpan (span : Span (List UInt8)) : Effect Throwable Repository Unit := do
  Repository.storeSpan span.traceId (span.lastTimestamp.getD (span.firstTimestamp.getD 0))
    (createSpanColumnName jvm span)
    (jvm.encode (span.copyAnnotations (StableSort.sorted Ord.compare span.annotations)))
  indexServiceName jvm thread span
  indexSpanNameByService jvm thread span
  indexTraceIdByName jvm span
  indexByAnnotations jvm span

def apply (spans : List (Span (List UInt8))) : Effect Throwable Repository Unit :=
  join spans (applySpan jvm thread)

def getAllServiceNames (r : Repository) : List String := Repository.getServiceNames r.session

def getSpanNames (r : Repository) (service : String) : List String := Repository.getSpanNames r.session service

def indexedTraceIds (traceIds : List (Int64 × Int)) : List IndexedTraceId := traceIds.map (fun e => ⟨e.1, e.2⟩)

def getTraceIdsByName (r : Repository) (serviceName : String) (spanName : Option String) (endTs limit : Int) :
    Except Throwable (List IndexedTraceId) :=
  (match spanName with
  | some x => Repository.getTraceIdsBySpanName r.session serviceName x endTs limit
  | none => Repository.getTraceIdsByServiceName r.session serviceName endTs limit).map indexedTraceIds

def getTraceIdsByAnnotation (r : Repository) (serviceName annotation : String) (value : Option (List UInt8))
    (endTs limit : Int) : Except Throwable (List IndexedTraceId) :=
  (Repository.getTraceIdsByAnnotation r.session (annotationKey jvm serviceName annotation value) endTs limit).map
    indexedTraceIds

/-! ## What a span causes to be written -/

/-- The statements that a span can cause. -/
def Indexes (span : Span (List UInt8)) : Insert → Prop
  | .span id ts name bytes =>
    id = span.traceId ∧ ts = span.lastTimestamp.getD (span.firstTimestamp.getD 0) ∧
      name = createSpanColumnName jvm span ∧
      bytes = jvm.encode (span.copyAnnotations (StableSort.sorted Ord.compare span.annotations))
  | .serviceName s => ∃ t ∈ serviceNames jvm span, t ≠ "" ∧ s = jvm.locale.toLowerCase t
  | .spanName s bucket n =>
    s ∈ serviceNames jvm span ∧ bucket = 0 ∧ span.name ≠ "" ∧ n = jvm.locale.toLowerCase span.name
  | .traceIdByServiceName s _ ts id => s ∈ serviceNames jvm span ∧ span.lastTimestamp = some ts ∧ id = span.traceId
  | .traceIdBySpanName key ts id =>
    (∃ s ∈ serviceNames jvm span, key = s ++ "." ++ span.name) ∧ span.name ≠ "" ∧ span.lastTimestamp = some ts ∧
      id = span.traceId
  | .traceIdByAnnotationKey key _ ts id =>
    ((∃ a ∈ span.annotations, Constants.CoreAnnotations.contains a.value = false ∧
        ∃ endpoint ∈ a.host, key = annotationKey jvm endpoint.serviceName a.value none) ∨
      ∃ ba ∈ span.binaryAnnotations, ∃ endpoint ∈ ba.host,
        key = annotationKey jvm endpoint.serviceName ba.key (some ba.value) ∨
          key = annotationKey jvm endpoint.serviceName ba.key none) ∧
      span.lastTimestamp = some ts ∧ id = span.traceId

section Writes
open Effect Repository

variable {jvm thread} {span : Span (List UInt8)} {kind : Insert → Prop}

theorem moves_join {R : Repository → Repository → Prop} [Std.Refl R] [IsTrans Repository R] {α : Type} {l : List α}
    {f : α → Effect Throwable Repository Unit} (h : ∀ a ∈ l, Moves R (f a)) : Moves R (join l f) :=
  (Moves.mapM h).map _

theorem moves_indexServiceName (hkind : ∀ i, Indexes jvm span i → i.traceRow = none → kind i) :
    Moves (Writes kind) (indexServiceName jvm thread span) := by
  refine moves_join (fun s hs => ?_)
  split
  · exact moves_pure ()
  · rename_i hne
    exact moves_storeServiceName (hkind _ ⟨s, hs, hne, rfl⟩ rfl)

theorem moves_indexSpanNameByService (hkind : ∀ i, Indexes jvm span i → i.traceRow = none → kind i) :
    Moves (Writes kind) (indexSpanNameByService jvm thread span) := by
  unfold indexSpanNameByService
  split
  · exact moves_pure ()
  · rename_i hne
    exact moves_join (fun s hs => moves_storeSpanName (hkind _ ⟨hs, rfl, hne, rfl⟩ rfl))

theorem moves_indexTraceIdByName (hkind : ∀ i, Indexes jvm span i → i.traceRow = none → kind i) :
    Moves (Writes kind) (indexTraceIdByName jvm span) := by
  unfold indexTraceIdByName
  cases hlast : span.lastAnnotation with
  | none => exact moves_pure ()
  | some last =>
    have hts : span.lastTimestamp = some last.timestamp := congrArg (Option.map Annotation.timestamp) hlast
    refine moves_join (fun s hs => (moves_storeTraceIdByServiceName (fun _ => hkind _ ⟨hs, hts, rfl⟩ rfl)).bind fun _ => ?_)
    split
    · rename_i hne
      exact moves_storeTraceIdBySpanName (hkind _ ⟨⟨s, hs, rfl⟩, hne, hts, rfl⟩ rfl)
    · exact moves_pure _

theorem mem_of_minAnnotation {as : List Annotation} {a : Annotation} (h : minAnnotation as = some a) : a ∈ as :=
  AssocMap.mem_of_mergeAll _ (fun x y => by split <;> simp) h

theorem moves_indexByAnnotations (hkind : ∀ i, Indexes jvm span i → i.traceRow = none → kind i) :
    Moves (Writes kind) (indexByAnnotations jvm span) := by
  unfold indexByAnnotations
  cases hlast : span.lastAnnotation with
  | none => exact moves_pure ()
  | some last =>
    have hts : span.lastTimestamp = some last.timestamp := congrArg (Option.map Annotation.timestamp) hlast
    refine (moves_join (fun value _ => ?_)).bind fun _ => moves_join (fun ba hba => ?_)
    · split
      · exact moves_pure ()
      · rename_i a hmin
        split
        · exact moves_pure ()
        · rename_i endpoint hhost
          obtain ⟨ha, hcore⟩ := List.mem_filter.1 (List.mem_filter.1 (CassandraSpanStore.mem_of_minAnnotation hmin)).1
          refine moves_storeTraceIdByAnnotation (fun _ => hkind _ ⟨Or.inl ⟨a, ha, ?_, endpoint, hhost, rfl⟩, hts, rfl⟩ rfl)
          simpa using hcore
    · split
      · exact moves_pure ()
      · rename_i endpoint hhost
        exact (Repository.moves_storeTraceIdByAnnotation
            (fun _ => hkind _ ⟨Or.inr ⟨ba, hba, endpoint, hhost, Or.inl rfl⟩, hts, rfl⟩ rfl)).bind fun _ =>
          moves_storeTraceIdByAnnotation
            (fun _ => hkind _ ⟨Or.inr ⟨ba, hba, endpoint, hhost, Or.inr rfl⟩, hts, rfl⟩ rfl)

theorem moves_indexes (hkind : ∀ i, Indexes jvm span i → i.traceRow = none → kind i) :
    Moves (Writes kind) (do
      indexServiceName jvm thread span
      indexSpanNameByService jvm thread span
      indexTraceIdByName jvm span
      indexByAnnotations jvm span) :=
  (moves_indexServiceName hkind).bind fun _ => (moves_indexSpanNameByService hkind).bind fun _ =>
    (moves_indexTraceIdByName hkind).bind fun _ => moves_indexByAnnotations hkind

theorem moves_applySpan (hkind : ∀ i, Indexes jvm span i → kind i) :
    Moves (Writes kind) (applySpan jvm thread span) :=
  (moves_storeSpan (hkind _ ⟨rfl, rfl, rfl, rfl⟩)).bind fun _ => moves_indexes fun i hi _ => hkind i hi

/-- **A call writes what its spans are indexed by**, and nothing else, whether it goes through or throws. -/
theorem apply_writes (jvm : Jvm) (thread : Nat) (spans : List (Span (List UInt8))) :
    Moves (Writes (fun i => ∃ span ∈ spans, Indexes jvm span i)) (apply jvm thread spans) :=
  moves_join (fun span hspan => moves_applySpan (fun _ hi => ⟨span, hspan, hi⟩))

end Writes

section Calls
open Effect Repository

variable {jvm : Jvm} {thread : Nat} {span : Span (List UInt8)}

/-! ## The service names -/

theorem mem_serviceNames {s : String} :
    s ∈ serviceNames jvm span ↔ s ∈ span.serviceNames jvm.locale.toLowerCase := by
  rw [serviceNames, (jvm.iterate_perm _).mem_iff, List.mem_dedup]

theorem toLowerCase_of_mem {s : String} (h : s ∈ serviceNames jvm span) : jvm.locale.toLowerCase s = s := by
  obtain ⟨a, -, ha⟩ := List.mem_filterMap.1 (mem_serviceNames.1 h)
  obtain ⟨endpoint, -, rfl⟩ := Option.map_eq_some_iff.1 ha
  exact jvm.locale.toLowerCase_toLowerCase _

theorem exists_lastAnnotation {s : String} (h : s ∈ serviceNames jvm span) :
    ∃ last, span.lastAnnotation = some last := by
  obtain ⟨a, ha, -⟩ := List.mem_filterMap.1 (mem_serviceNames.1 h)
  exact ⟨_, List.getLast?_eq_some_getLast (List.ne_nil_of_mem ha)⟩

/-! ## What a query finds -/

section Query
variable {r : Repository}

theorem map_traceId_indexedTraceIds (m : List (Int64 × Int)) :
    (indexedTraceIds m).map IndexedTraceId.traceId = m.map Prod.fst := by
  rw [indexedTraceIds, List.map_map]
  rfl

theorem getTraceIdsByName_eq {s n : String} (hs : s ≠ "") (hn : n ≠ "") (endTs : Int) {limit : Int} (hlimit : 0 < limit) :
    getTraceIdsByName r s (some n) endTs limit = .ok (indexedTraceIds (traceIdsToTimestamps
      (Table.select (fun p => p == s ++ "." ++ n) endTs limit.toNat r.session.service_span_name_index))) := by
  simp only [getTraceIdsByName, getTraceIdsBySpanName, if_neg hs, if_neg hn, checkLimit, if_pos hlimit]
  rfl

/-- **What a query finds is in the index.** -/
theorem exists_row_of_mem_ids {s n : String} {endTs limit : Int} {ids : List IndexedTraceId} {id : Int64}
    (hids : getTraceIdsByName r s (some n) endTs limit = .ok ids) (hid : id ∈ ids.map IndexedTraceId.traceId) :
    ∃ ts, ((s ++ "." ++ n, ts), id) ∈ r.session.service_span_name_index := by
  obtain ⟨answer, hanswer, rfl⟩ := exists_of_map_eq_ok hids
  rw [map_traceId_indexedTraceIds] at hid
  simp only [getTraceIdsBySpanName] at hanswer
  split at hanswer
  · cases hanswer
  split at hanswer
  · cases hanswer
  obtain ⟨p, ts, hp, hrow⟩ := exists_row_of_mem_answer hanswer hid
  rw [beq_iff_eq] at hp
  exact ⟨ts, hp ▸ hrow⟩

end Query

/-! ## A call that goes through -/

theorem succeeds_join {α : Type} {l : List α} {f : α → Effect Throwable Repository Unit}
    (h : ∀ a ∈ l, Succeeds (f a)) : Succeeds (join l f) :=
  (Succeeds.mapM h).map _

theorem createSpanColumnName_ne_empty : createSpanColumnName jvm span ≠ "" := by
  intro h
  have hlist := congrArg String.toList h
  simp [createSpanColumnName, String.toList_append] at hlist

theorem succeeds_indexServiceName : Succeeds (indexServiceName jvm thread span) := by
  refine succeeds_join (fun s _ => ?_)
  split
  · exact succeeds_pure ()
  · rename_i hs
    exact succeeds_storeServiceName (fun he => hs ((jvm.locale.toLowerCase_eq_empty s).1 he))

/-- **A span without an empty service name is stored.** -/
theorem succeeds_applySpan (h : "" ∉ serviceNames jvm span) : Succeeds (applySpan jvm thread span) := by
  have hne : ∀ s ∈ serviceNames jvm span, s ≠ "" := fun s hs he => h (he ▸ hs)
  refine (succeeds_storeSpan createSpanColumnName_ne_empty _ _ _).bind fun _ => succeeds_indexServiceName.bind fun _ =>
    Succeeds.bind ?_ fun _ => Succeeds.bind ?_ fun _ => ?_
  · unfold indexSpanNameByService
    split
    · exact succeeds_pure ()
    · rename_i hname
      exact succeeds_join (fun s hs => succeeds_storeSpanName (hne s hs)
        (fun he => hname ((jvm.locale.toLowerCase_eq_empty _).1 he)))
  · unfold indexTraceIdByName
    split
    · exact succeeds_pure ()
    · refine succeeds_join (fun s hs => (succeeds_storeTraceIdByServiceName (hne s hs) _ _).bind fun _ => ?_)
      split
      · rename_i hname
        exact succeeds_storeTraceIdBySpanName (hne s hs) hname _ _
      · exact succeeds_pure ()
  · unfold indexByAnnotations
    split
    · exact succeeds_pure ()
    · refine (succeeds_join (fun value _ => ?_)).bind fun _ => succeeds_join (fun ba _ => ?_)
      · split
        · exact succeeds_pure ()
        · split
          · exact succeeds_pure ()
          · exact succeeds_storeTraceIdByAnnotation _ _ _
      · split
        · exact succeeds_pure ()
        · exact (Repository.succeeds_storeTraceIdByAnnotation _ _ _).bind fun _ => succeeds_storeTraceIdByAnnotation _ _ _

theorem exists_of_join_ok {α : Type} {l : List α} {f : α → Effect Throwable Repository Unit} {r r' : Repository}
    {u : Unit} (h : exec (join l f) r = (.ok u, r')) : ∃ us, exec (l.mapM f) r = (.ok us, r') := by
  unfold join at h
  rw [exec_map] at h
  cases hl : exec (l.mapM f) r with
  | mk x r₁ =>
    rw [hl] at h
    cases x with
    | ok us => cases h; exact ⟨us, rfl⟩
    | error e => cases h

theorem exec_join_singleton {α : Type} (a : α) (f : α → Effect Throwable Repository Unit) (r : Repository) :
    exec (join [a] f) r = exec (f a) r := by
  unfold join
  rw [exec_map, mapM_cons, exec_bind]
  cases exec (f a) r with
  | mk x r₁ => cases x <;> rfl

end Calls

/-- A machine whose clock stands still. -/
def sampleJvm : Jvm where
  locale := .ascii
  currentTimeMillis _ := 0
  nextInt _ := ⟨0, by decide⟩
  annotationsHashCode l := Int32.ofNat l.length
  binaryAnnotationsHashCode l := Int32.ofNat l.length
  encode span := span.name.toUTF8.data.toList
  getBytes s := s.toUTF8.data.toList
  iterate l := l
  iterate_perm l := .refl l

end CassandraSpanStore
end Zipkin
