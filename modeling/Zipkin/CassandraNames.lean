import Mathlib.Data.Finset.Max
import Zipkin.CassandraSpanStore
import Zipkin.WrittenNames
/-!
# CassandraNames — the names that are listed, and the names that are looked up

The span names of a service are listed in lower case, and the trace ids are indexed under the name as the span has it.
Where a service name is empty the call throws: the names of the services are in their table by then, and the span name
for those before the empty one, and no trace id is indexed.  `listedNamesFound_iff` says for which spans all that is
listed is found.
-/
namespace Zipkin
namespace CassandraSpanStore

open Effect Repository

variable {jvm : Jvm} {thread : Nat} {span : Span (List UInt8)}

/-- Under each name that is listed the trace id of the span is found. -/
def NamesFound (span : Span (List UInt8)) (r : Repository) : Prop :=
  ∀ s ∈ getAllServiceNames r, ∀ n ∈ getSpanNames r s, ∀ endTs limit : Int,
    (∀ ts ∈ span.lastTimestamp, ts ≤ endTs) → 1 ≤ limit →
    ∃ ids, getTraceIdsByName r s (some n) endTs limit = .ok ids ∧ span.traceId ∈ ids.map IndexedTraceId.traceId

/-- The span was stored into an empty store: what there is after the call, whether it went through or threw. -/
def afterStoring (jvm : Jvm) (thread : Nat) (span : Span (List UInt8)) : Repository :=
  (exec (apply jvm thread [span]) (Repository.empty jvm.toMachine)).2

/-- Stored into an empty store, the span is found under each name that is listed. -/
def ListedNamesFound (jvm : Jvm) (thread : Nat) (span : Span (List UInt8)) : Prop :=
  NamesFound span (afterStoring jvm thread span)

/-! ## What is there after a call -/

theorem of_indexServiceName {r r' : Repository} {u : Unit}
    (h : exec (indexServiceName jvm thread span) r = (.ok u, r')) (hr : Written r)
    (hnone : ∀ row, row ∉ r.session.span_names.map Prod.fst) {s : String} (hs : s ∈ serviceNames jvm span)
    (hne : s ≠ "") : s ∈ r'.session.service_names.map Prod.fst := by
  obtain ⟨us, h⟩ := exists_of_join_ok h
  have hmoves : ∀ t ∈ serviceNames jvm span, Moves (Writes (fun i => ∃ t, i = .serviceName t))
      (if t = "" then pure () else storeServiceName jvm.toMachine thread (jvm.locale.toLowerCase t)) := by
    intro t _
    split
    · exact moves_pure ()
    · exact moves_storeServiceName ⟨_, rfl⟩
  refine forall_of_mapM_ok (P := fun r => Written r ∧ ∀ row, row ∉ r.session.span_names.map Prod.fst)
    (Q := fun s r => s ≠ "" → s ∈ r.session.service_names.map Prod.fst) (fun t ht r hr => ⟨?_, fun row hrow => ?_⟩)
    (fun t _ t' ht' r hq hne => ?_) (fun t ht r u r' hr h hne => ?_) ⟨hr, hnone⟩ h s hs hne
  · exact (hmoves t ht r).written hr.1
  · rcases (hmoves t ht r).mem_span_names hrow with h | ⟨_, h⟩
    · exact hr.2 row h
    · cases h
  · exact (hmoves t' ht' r).service_names (hq hne)
  · have hw := Moves.of_exec h (hmoves t ht)
    rw [if_neg hne, toLowerCase_of_mem ht] at h
    -- no pair is in the table of span names yet, so the name is not such a pair
    rcases of_storeServiceName h hr.1 with h | ⟨_, _, _, h⟩
    · exact h
    · rcases hw.mem_span_names h with h | ⟨_, h⟩
      · exact (hr.2 _ h).elim
      · cases h

theorem of_indexSpanNameByService {r r' : Repository} {u : Unit}
    (h : exec (indexSpanNameByService jvm thread span) r = (.ok u, r')) (hr : Written r) (hname : span.name ≠ "")
    {s : String} (hs : s ∈ serviceNames jvm span) :
    r'.session.Holds (s ++ "––" ++ jvm.locale.toLowerCase span.name) := by
  unfold indexSpanNameByService at h
  rw [if_neg hname] at h
  obtain ⟨us, h⟩ := exists_of_join_ok h
  have hmoves : ∀ t, Moves (Writes (fun _ => True))
      (storeSpanName jvm.toMachine thread t (jvm.locale.toLowerCase span.name)) :=
    fun _ => moves_storeSpanName trivial
  exact forall_of_mapM_ok (P := Written)
    (Q := fun s r => r.session.Holds (s ++ "––" ++ jvm.locale.toLowerCase span.name))
    (fun t _ r => (hmoves t r).written) (fun _ _ t _ r => (hmoves t r).holds)
    (fun _ _ _ _ _ hr h => of_storeSpanName h hr) hr h s hs

theorem of_indexTraceIdByName {r r' : Repository} {u : Unit} (h : exec (indexTraceIdByName jvm span) r = (.ok u, r'))
    {last : Annotation} (hlast : span.lastAnnotation = some last) {s : String} (hs : s ∈ serviceNames jvm span) :
    s ≠ "" ∧ (span.name ≠ "" →
      (s ++ "." ++ span.name, last.timestamp) ∈ r'.session.service_span_name_index.map Prod.fst) := by
  unfold indexTraceIdByName at h
  simp only [hlast] at h
  obtain ⟨us, h⟩ := exists_of_join_ok h
  refine forall_of_mapM_ok (P := fun _ => True) (Q := fun s r => s ≠ "" ∧ (span.name ≠ "" →
      (s ++ "." ++ span.name, last.timestamp) ∈ r.session.service_span_name_index.map Prod.fst))
    (fun _ _ _ _ => trivial) (fun t _ t' _ r hq => ⟨hq.1, fun hname => ?_⟩) (fun t ht r u r' _ h => ?_) trivial h s hs
  · have hmoves : Moves (Writes (fun _ => True)) (do
        storeTraceIdByServiceName jvm.toMachine t' last.timestamp span.traceId
        if span.name ≠ "" then storeTraceIdBySpanName t' span.name last.timestamp span.traceId) := by
      rw [if_pos hname]
      exact (moves_storeTraceIdByServiceName fun _ => trivial).bind fun _ => moves_storeTraceIdBySpanName trivial
    exact (hmoves r).service_span_name_index (hq.2 hname)
  · obtain ⟨_, r₁, hs, h⟩ := exec_bind_eq_ok h
    refine ⟨ne_empty_of_storeTraceIdByServiceName hs, fun hname => ?_⟩
    rw [if_pos hname] at h
    exact of_storeTraceIdBySpanName h

/-- **All that the tables have is of this span.** -/
theorem writes_afterStoring (jvm : Jvm) (thread : Nat) (span : Span (List UInt8)) :
    Writes (Indexes jvm span) (Repository.empty jvm.toMachine) (afterStoring jvm thread span) := by
  rw [afterStoring, apply, exec_join_singleton]
  exact moves_applySpan (fun _ hi => hi) _

/-- **What is listed**: service names of the span, each with its name in lower case. -/
theorem of_listed {s n : String} (hn : n ∈ getSpanNames (afterStoring jvm thread span) s) :
    s ∈ serviceNames jvm span ∧ s ≠ "" ∧ span.name ≠ "" ∧ n = jvm.locale.toLowerCase span.name := by
  obtain ⟨hne, hrow⟩ := mem_getSpanNames.1 hn
  rcases (writes_afterStoring jvm thread span).mem_span_names hrow with hrow | ⟨hs, -, hname, hn⟩
  · exact (List.not_mem_nil hrow).elim
  · exact ⟨hs, hne, hname, hn⟩

/-- **What is looked up**: a name is found under a service if the index has the span under the two. -/
theorem found_iff {s n : String} (hs : s ≠ "") (hn : n ≠ "") {endTs limit : Int}
    (hend : ∀ ts ∈ span.lastTimestamp, ts ≤ endTs) (hlimit : 1 ≤ limit) :
    (∃ ids, getTraceIdsByName (afterStoring jvm thread span) s (some n) endTs limit = .ok ids ∧
      span.traceId ∈ ids.map IndexedTraceId.traceId) ↔
      ∃ ts, (s ++ "." ++ n, ts) ∈ (afterStoring jvm thread span).session.service_span_name_index.map Prod.fst := by
  have hnew : ∀ row ∈ (afterStoring jvm thread span).session.service_span_name_index,
      row.1.2 ≤ endTs ∧ row.2 = span.traceId := by
    intro row hrow
    rcases (writes_afterStoring jvm thread span).mem_service_span_name_index hrow with hrow | ⟨-, -, hts, hid⟩
    · exact (List.not_mem_nil hrow).elim
    · exact ⟨hend _ hts, hid⟩
  constructor
  · rintro ⟨ids, hids, hmem⟩
    obtain ⟨ts, hrow⟩ := exists_row_of_mem_ids hids hmem
    exact ⟨ts, List.mem_map_of_mem hrow⟩
  · rintro ⟨ts, hkey⟩
    obtain ⟨row, hrow, hkey⟩ := List.mem_map.1 hkey
    refine ⟨_, getTraceIdsByName_eq hs hn endTs (by omega), ?_⟩
    rw [map_traceId_indexedTraceIds, mem_traceIdsToTimestamps]
    have hselect : ∃ found, found ∈ Table.select (fun p => p == s ++ "." ++ n) endTs limit.toNat
        (afterStoring jvm thread span).session.service_span_name_index :=
      Table.exists_mem_select hrow (by rw [hkey]; exact beq_self_eq_true _) (hnew row hrow).1 (by omega)
    obtain ⟨found, hfound⟩ := hselect
    obtain ⟨_, -, -, hmem⟩ := Table.exists_row_of_mem_select hfound
    exact List.mem_map.2 ⟨found, hfound, (hnew _ hmem).2⟩

section Stored
variable (h : "" ∉ serviceNames jvm span)
include h

/-- **What the tables have of each service name** after a call that goes through. -/
theorem of_stored {s : String} (hs : s ∈ serviceNames jvm span) :
    s ∈ (afterStoring jvm thread span).session.service_names.map Prod.fst ∧ (span.name ≠ "" →
      (afterStoring jvm thread span).session.Holds (s ++ "––" ++ jvm.locale.toLowerCase span.name) ∧
      ∀ ts ∈ span.lastTimestamp, (s ++ "." ++ span.name, ts) ∈
        (afterStoring jvm thread span).session.service_span_name_index.map Prod.fst) := by
  obtain ⟨_, r, h⟩ : ∃ u r, exec (apply jvm thread [span]) (Repository.empty jvm.toMachine) = (.ok u, r) := by
    rw [apply, exec_join_singleton]
    exact succeeds_applySpan h _
  rw [afterStoring, h]
  rw [apply, exec_join_singleton] at h
  obtain ⟨_, r₁, h₁, h⟩ := exec_bind_eq_ok h
  obtain ⟨_, r₂, h₂, h⟩ := exec_bind_eq_ok h
  obtain ⟨_, r₃, h₃, h⟩ := exec_bind_eq_ok h
  obtain ⟨_, r₄, h₄, h₅⟩ := exec_bind_eq_ok h
  have hw₁ : Writes (fun i => ∃ id ts name bytes, i = .span id ts name bytes) (Repository.empty jvm.toMachine) r₁ :=
    Moves.of_exec h₁ (moves_storeSpan ⟨_, _, _, _, rfl⟩)
  have hw₂ : Writes (Indexes jvm span) r₁ r₂ := Moves.of_exec h₂ (moves_indexServiceName fun _ hi _ => hi)
  have hw₃ : Writes (Indexes jvm span) r₂ r₃ := Moves.of_exec h₃ (moves_indexSpanNameByService fun _ hi _ => hi)
  have hw₄ : Writes (Indexes jvm span) r₃ r₄ := Moves.of_exec h₄ (moves_indexTraceIdByName fun _ hi _ => hi)
  have hw₅ : Writes (Indexes jvm span) r₄ r := Moves.of_exec h₅ (moves_indexByAnnotations fun _ hi _ => hi)
  have hr₁ := hw₁.written (written_empty jvm.toMachine)
  have hnone : ∀ row, row ∉ r₁.session.span_names.map Prod.fst := by
    intro row hrow
    rcases hw₁.mem_span_names hrow with hrow | ⟨_, _, _, _, hrow⟩
    · exact List.not_mem_nil hrow
    · cases hrow
  obtain ⟨last, hlast⟩ := exists_lastAnnotation hs
  obtain ⟨hne, hindex⟩ := of_indexTraceIdByName h₄ hlast hs
  refine ⟨?_, fun hname => ⟨?_, fun ts hts => ?_⟩⟩
  · exact hw₅.service_names (hw₄.service_names (hw₃.service_names (of_indexServiceName h₂ hr₁ hnone hs hne)))
  · exact hw₅.holds (hw₄.holds (of_indexSpanNameByService h₃ (hw₂.written hr₁) hname hs))
  · rw [Span.lastTimestamp, hlast, Option.map_some, Option.mem_some_iff] at hts
    rw [← hts]
    exact hw₅.service_span_name_index (hindex hname)

/-- **Some name is listed**, the name of the span under its longest service name. -/
theorem exists_listed (hname : span.name ≠ "") (hnames : serviceNames jvm span ≠ []) :
    ∃ s ∈ getAllServiceNames (afterStoring jvm thread span),
      jvm.locale.toLowerCase span.name ∈ getSpanNames (afterStoring jvm thread span) s := by
  obtain ⟨s, hs, hmax⟩ := Finset.exists_max_image (serviceNames jvm span).toFinset String.length
    (List.toFinset_nonempty_iff _ |>.2 hnames)
  rw [List.mem_toFinset] at hs
  obtain ⟨hservice, hpair⟩ := of_stored h hs
  have hne : s ≠ "" := fun he => h (he ▸ hs)
  refine ⟨s, hservice, mem_getSpanNames.2 ⟨hne, ?_⟩⟩
  rcases (hpair hname).1 with hlong | ⟨t, n, heq, hrow⟩
  · -- a pair with the longest service name is longer than any service name
    rcases (writes_afterStoring jvm thread span).mem_service_names hlong with hlong | ⟨t, ht, -, heq⟩
    · exact (List.not_mem_nil hlong).elim
    · rw [toLowerCase_of_mem ht] at heq
      have hle := hmax t (List.mem_toFinset.2 ht)
      rw [← heq, String.length_append, String.length_append] at hle
      have hdash : "––".length = 2 := by decide
      omega
  · -- the pair is one of a service name and this span name
    rcases (writes_afterStoring jvm thread span).mem_span_names hrow with hrow' | ⟨-, -, -, hn⟩
    · exact (List.not_mem_nil hrow').elim
    · dsimp only at hn
      rw [hn] at heq hrow
      have hst := congrArg String.toList heq
      simp only [String.toList_append, List.append_assoc] at hst
      rw [String.toList_injective (List.append_cancel_right hst)]
      exact hrow

/-- **A name in lower case is found.** -/
theorem namesFound_of_stored (hlower : jvm.locale.toLowerCase span.name = span.name) :
    NamesFound span (afterStoring jvm thread span) := by
  intro s hs n hn endTs limit hend hlimit
  obtain ⟨hmem, hne, hname, hn⟩ := of_listed hn
  rw [hn, hlower]
  obtain ⟨last, hlast⟩ := exists_lastAnnotation hmem
  have hts : span.lastTimestamp = some last.timestamp := congrArg (Option.map Annotation.timestamp) hlast
  exact (found_iff hne hname hend hlimit).2 ⟨last.timestamp, ((of_stored h hmem).2 hname).2 _ hts⟩

/-- **Another name is listed and not found**: no index row has it in lower case. -/
theorem not_namesFound_of_stored (hlower : jvm.locale.toLowerCase span.name ≠ span.name)
    (hnames : serviceNames jvm span ≠ []) : ¬ NamesFound span (afterStoring jvm thread span) := by
  intro hfound
  have hname : span.name ≠ "" := fun he => hlower (by rw [he]; exact (jvm.locale.toLowerCase_eq_empty "").2 rfl)
  have hname' : jvm.locale.toLowerCase span.name ≠ "" :=
    fun he => hname ((jvm.locale.toLowerCase_eq_empty _).1 he)
  obtain ⟨s, hs, hn⟩ := exists_listed h hname hnames
  obtain ⟨hmem, hne, -, -⟩ := of_listed hn
  obtain ⟨last, hlast⟩ := exists_lastAnnotation hmem
  have hend : ∀ ts ∈ span.lastTimestamp, ts ≤ last.timestamp := by
    intro ts hts
    rw [Span.lastTimestamp, hlast] at hts
    exact Int.le_of_eq (Option.some.inj hts).symm
  obtain ⟨ts, hkey⟩ := (found_iff hne hname' hend (Int.le_refl 1)).1
    (hfound s hs _ hn last.timestamp 1 hend (Int.le_refl 1))
  obtain ⟨row, hrow, hkey⟩ := List.mem_map.1 hkey
  rcases (writes_afterStoring jvm thread span).mem_service_span_name_index hrow with hrow | ⟨⟨s', -, hs'⟩, -⟩
  · exact List.not_mem_nil hrow
  · rw [hkey] at hs'
    exact hlower (jvm.locale.toLowerCase_eq_of_key_eq hs')

end Stored

/-! ## A call that throws -/

/-- What there is when the call comes to the span names. -/
def beforeSpanNames (jvm : Jvm) (thread : Nat) (span : Span (List UInt8)) : Repository :=
  (exec (do
    storeSpan span.traceId (span.lastTimestamp.getD (span.firstTimestamp.getD 0)) (createSpanColumnName jvm span)
      (jvm.encode (span.copyAnnotations (StableSort.sorted Ord.compare span.annotations)))
    indexServiceName jvm thread span) (Repository.empty jvm.toMachine)).2

/-- The calls for the names of the services, which come first. -/
def serviceCalls (jvm : Jvm) (thread : Nat) (span : Span (List UInt8)) : List NameCall :=
  (serviceNames jvm span).map fun s => ⟨thread, .service s⟩

/-- The thread has stored a name with this text, and neither it since nor the next call has opened an interval. -/
def IsCached (machine : Machine) (thread : Nat) (text : String) (calls : List NameCall) : Prop :=
  ¬ WrittenNames.Opens machine calls ∧ WrittenNames.Cached machine calls thread text

/-- The pair of each service name before the empty one and the span name has, when its turn comes, been stored already: as
the name of a service. -/
def PairsCached (jvm : Jvm) (thread : Nat) (span : Span (List UInt8)) : Prop :=
  AllAlong (fun s => IsCached jvm.toMachine thread (s ++ "––" ++ jvm.locale.toLowerCase span.name))
    (fun s calls => calls ++ [⟨thread, .span s (jvm.locale.toLowerCase span.name)⟩])
    ((serviceNames jvm span).takeWhile (fun s => s != "")) (serviceCalls jvm thread span)

/-- The sets and the clock are the same. -/
structure SameNames (r r' : Repository) : Prop where
  names : r.names = r'.names
  reads : r.reads = r'.reads
  cacheInterval : r.cacheInterval = r'.cacheInterval

namespace SameNames
variable {machine : Machine} {r r' : Repository} (h : SameNames r r')
include h

theorem refreshed (thread : Nat) : SameNames (refreshed machine thread r) (refreshed machine thread r') := by
  obtain ⟨hnames, hreads, hinterval⟩ := h
  unfold Repository.refreshed
  rw [hnames, hreads, hinterval]
  dsimp only
  split <;> exact ⟨rfl, rfl, rfl⟩

theorem step (call : NameCall) : SameNames (WrittenNames.step machine r call) (WrittenNames.step machine r' call) := by
  cases haccepted : call.name.accepted with
  | false =>
    rw [WrittenNames.step_of_not_accepted haccepted, WrittenNames.step_of_not_accepted haccepted]
    exact h
  | true =>
    obtain ⟨hnames, hreads, hinterval⟩ := @SameNames.refreshed machine _ _ h call.thread
    rw [WrittenNames.step_of_accepted haccepted, WrittenNames.step_of_accepted haccepted]
    dsimp only
    rw [hnames]
    split
    · exact ⟨hnames, hreads, hinterval⟩
    · exact ⟨rfl, hreads, hinterval⟩

end SameNames

section SpanNames
variable {machine : Machine} {n : String}

theorem exec_storeSpanName_empty (r : Repository) :
    exec (storeSpanName machine thread "" n) r = (.error ⟨"IllegalArgumentException", ""⟩, r) := rfl

theorem mem_refreshed_iff {calls : List NameCall} {r : Repository} (h : SameNames r (WrittenNames.run machine calls))
    {text : String} : text ∈ (refreshed machine thread r).names thread ↔ IsCached machine thread text calls := by
  rw [(h.refreshed thread).names, WrittenNames.names_refreshed_run, IsCached, ← WrittenNames.mem_names_run]
  by_cases hopens : WrittenNames.Opens machine calls
  · rw [if_pos ⟨rfl, hopens⟩]
    exact iff_of_false List.not_mem_nil fun h => h.1 hopens
  · rw [if_neg fun h => hopens h.2, and_iff_right hopens]

theorem exec_storeSpanName_eq {s : String} (hs : s ≠ "") (hn : n ≠ "") (r : Repository) :
    exec (storeSpanName machine thread s n) r = (.ok (), WrittenNames.step machine r ⟨thread, .span s n⟩) := by
  have hstep := @WrittenNames.exec_store machine (.span s n) thread r
  have haccepted : (StoredName.span s n).accepted = true := by simp [StoredName.accepted, hs, hn]
  rw [if_pos haccepted, exec_storeName] at hstep
  rw [WrittenNames.step, hstep]
  exact hstep

/-- **A pair that is not cached gets a row.** -/
theorem mem_span_names_step {calls : List NameCall} {r : Repository} (h : SameNames r (WrittenNames.run machine calls))
    {s : String} (hs : s ≠ "") (hn : n ≠ "") :
    (IsCached machine thread (s ++ "––" ++ n) calls ∧
      (WrittenNames.step machine r ⟨thread, .span s n⟩).session = r.session) ∨
    (¬ IsCached machine thread (s ++ "––" ++ n) calls ∧
      (s, 0, n) ∈ (WrittenNames.step machine r ⟨thread, .span s n⟩).session.span_names.map Prod.fst) := by
  have haccepted : (StoredName.span s n).accepted = true := by simp [StoredName.accepted, hs, hn]
  rw [← mem_refreshed_iff h, WrittenNames.step_of_accepted haccepted]
  dsimp only
  split
  · rename_i hcached
    exact Or.inl ⟨hcached, session_refreshed machine thread r⟩
  · rename_i hcached
    exact Or.inr ⟨hcached, AssocMap.mem_keys_put.2 (Or.inl rfl)⟩

theorem moves_storeSpanName_of_ne {s : String} {kind : Insert → Prop} (h : s ≠ "" → kind (.spanName s 0 n)) :
    Moves (Writes kind) (storeSpanName machine thread s n) := by
  by_cases hs : s = ""
  · intro r
    rw [hs, exec_storeSpanName_empty]
    exact Std.Refl.refl r
  · exact moves_storeSpanName (h hs)

theorem exists_error_of_empty {l : List String} (h : "" ∈ l) (r : Repository) :
    ∃ e r', exec (l.mapM fun s => storeSpanName machine thread s n) r = (.error e, r') := by
  cases hexec : exec (l.mapM fun s => storeSpanName machine thread s n) r with
  | mk x r' =>
    cases x with
    | error e => exact ⟨e, r', rfl⟩
    | ok us =>
      have hne : ∀ s ∈ l, s ≠ "" := forall_of_mapM_ok (P := fun _ => True) (Q := fun s _ => s ≠ "")
        (fun _ _ _ _ => trivial) (fun _ _ _ _ _ hs => hs) (fun s _ r₁ u r₂ _ hs he => by
          rw [he, exec_storeSpanName_empty] at hs
          cases hs) trivial hexec
      exact absurd rfl (hne "" h)

/-- **Up to the empty name nothing is listed** exactly if all the pairs are in the set when their turns come. -/
theorem span_names_eq_nil_iff (hn : n ≠ "") : ∀ {l : List String} {calls : List NameCall} {r : Repository},
    SameNames r (WrittenNames.run machine calls) → "" ∈ l → r.session.span_names = [] →
    ((exec (l.mapM fun s => storeSpanName machine thread s n) r).2.session.span_names = [] ↔
      AllAlong (fun s => IsCached machine thread (s ++ "––" ++ n)) (fun s calls => calls ++ [⟨thread, .span s n⟩])
        (l.takeWhile (fun s => s != "")) calls)
  | [], _, _, _, hmem, _ => (List.not_mem_nil hmem).elim
  | s :: l, calls, r, hsame, hmem, hnil => by
    rw [mapM_cons]
    by_cases hs : s = ""
    · rw [hs, exec_bind_error (exec_storeSpanName_empty r)]
      exact iff_of_true hnil trivial
    · have hl : "" ∈ l := (List.mem_cons.1 hmem).resolve_left fun h => hs h.symm
      have hrun : SameNames (WrittenNames.step machine r ⟨thread, .span s n⟩)
          (WrittenNames.run machine (calls ++ [⟨thread, .span s n⟩])) := by
        rw [WrittenNames.run_append_singleton]
        exact hsame.step _
      rw [List.takeWhile_cons_of_pos (by simpa using hs), AllAlong, exec_bind_ok (exec_storeSpanName_eq hs hn r), exec_map]
      rcases @mem_span_names_step thread _ _ _ _ hsame _ hs hn with ⟨hcached, hsession⟩ | ⟨hcached, hrow⟩
      · rw [and_iff_right hcached]
        exact span_names_eq_nil_iff hn hrun hl ((congrArg Keyspace.span_names hsession).trans hnil)
      · -- the row stays to the end
        refine iff_of_false (fun hempty => ?_) fun h => hcached h.1
        have hrest : Moves (Writes (fun _ => True)) (l.mapM fun s => storeSpanName machine thread s n) :=
          Moves.mapM fun _ _ => moves_storeSpanName trivial
        have hkept := (hrest (WrittenNames.step machine r ⟨thread, .span s n⟩)).mem_keys Keyspace.isTable_span_names hrow
        rw [hempty] at hkept
        exact List.not_mem_nil hkept

/-- **The names of the services are stored by their calls**, of which those with an empty name do nothing. -/
theorem sameNames_mapM : ∀ {l : List String} {calls : List NameCall} {r : Repository},
    SameNames r (WrittenNames.run machine calls) → (∀ s ∈ l, machine.locale.toLowerCase s = s) →
    SameNames (exec (l.mapM fun s => if s = "" then pure () else
        storeServiceName machine thread (machine.locale.toLowerCase s)) r).2
      (WrittenNames.run machine (calls ++ l.map fun s => ⟨thread, .service s⟩))
  | [], calls, r, hsame, _ => by
    rw [List.map_nil, List.append_nil]
    exact hsame
  | s :: l, calls, r, hsame, hlower => by
    have hexec : exec (if s = "" then pure () else storeServiceName machine thread (machine.locale.toLowerCase s)) r =
        (.ok (), WrittenNames.step machine r ⟨thread, .service s⟩) := by
      have hstep := @WrittenNames.exec_store machine (.service s) thread r
      by_cases hs : s = ""
      · rw [if_pos hs, WrittenNames.step_of_not_accepted (by simp [StoredName.accepted, hs])]
        rfl
      · have haccepted : (StoredName.service s).accepted = true := by simp [StoredName.accepted, hs]
        rw [if_pos haccepted, exec_storeName] at hstep
        rw [if_neg hs, hlower s List.mem_cons_self, WrittenNames.step, hstep]
        exact hstep
    have hrun : SameNames (WrittenNames.step machine r ⟨thread, .service s⟩)
        (WrittenNames.run machine (calls ++ [⟨thread, .service s⟩])) := by
      rw [WrittenNames.run_append_singleton]
      exact hsame.step _
    have hrest := sameNames_mapM hrun fun t ht => hlower t (List.mem_cons_of_mem s ht)
    rw [List.append_assoc, List.singleton_append] at hrest
    rw [mapM_cons, exec_bind_ok hexec, exec_map, List.map_cons]
    exact hrest

end SpanNames

section Thrown
variable (hempty : "" ∈ serviceNames jvm span) (hname : span.name ≠ "")

/-- **The span and the names of its services are stored**, whatever they are. -/
theorem exec_beforeSpanNames (jvm : Jvm) (thread : Nat) (span : Span (List UInt8)) : ∃ r,
    exec (storeSpan span.traceId (span.lastTimestamp.getD (span.firstTimestamp.getD 0)) (createSpanColumnName jvm span)
        (jvm.encode (span.copyAnnotations (StableSort.sorted Ord.compare span.annotations))))
      (Repository.empty jvm.toMachine) = (.ok (), r) ∧
    exec (indexServiceName jvm thread span) r = (.ok (), beforeSpanNames jvm thread span) := by
  obtain ⟨_, r, hr⟩ := succeeds_storeSpan (createSpanColumnName_ne_empty : createSpanColumnName jvm span ≠ "") span.traceId
    (span.lastTimestamp.getD (span.firstTimestamp.getD 0))
    (jvm.encode (span.copyAnnotations (StableSort.sorted Ord.compare span.annotations))) (Repository.empty jvm.toMachine)
  have hnames : Succeeds (indexServiceName jvm thread span) := succeeds_indexServiceName
  obtain ⟨_, r', hr'⟩ := hnames r
  exact ⟨r, hr, by rw [beforeSpanNames, exec_bind_ok hr, hr']⟩

/-- **The names of the services are in their table**, and nothing else that names are looked up by. -/
theorem of_beforeSpanNames (jvm : Jvm) (thread : Nat) (span : Span (List UInt8)) :
    (∀ s ∈ serviceNames jvm span, s ≠ "" → s ∈ (beforeSpanNames jvm thread span).session.service_names.map Prod.fst) ∧
      (beforeSpanNames jvm thread span).session.span_names = [] ∧
      (beforeSpanNames jvm thread span).session.service_span_name_index = [] := by
  obtain ⟨r, hspan, hnames⟩ := exec_beforeSpanNames jvm thread span
  have hw : Writes (fun i => i.spanNamesRow = none ∧ i.spanNameRow = none) (Repository.empty jvm.toMachine) r :=
    Moves.of_exec hspan (moves_storeSpan ⟨rfl, rfl⟩)
  have hw' : Writes (fun i => i.spanNamesRow = none ∧ i.spanNameRow = none) r (beforeSpanNames jvm thread span) :=
    Moves.of_exec hnames (moves_join fun s _ => by
      split
      · exact moves_pure ()
      · exact moves_storeServiceName ⟨rfl, rfl⟩)
  have hnil := hw.eq_nil Keyspace.isTable_span_names (fun _ hi => hi.1) rfl
  refine ⟨fun s hs hne => ?_, hw'.eq_nil Keyspace.isTable_span_names (fun _ hi => hi.1) hnil, ?_⟩
  · refine of_indexServiceName hnames (hw.written (written_empty jvm.toMachine)) (fun row hrow => ?_) hs hne
    rw [hnil] at hrow
    exact List.not_mem_nil hrow
  · exact hw'.eq_nil Keyspace.isTable_service_span_name_index (fun _ hi => hi.2)
      (hw.eq_nil Keyspace.isTable_service_span_name_index (fun _ hi => hi.2) rfl)

/-- **What the sets have** is what these calls leave there. -/
theorem sameNames_beforeSpanNames (jvm : Jvm) (thread : Nat) (span : Span (List UInt8)) :
    SameNames (beforeSpanNames jvm thread span) (WrittenNames.run jvm.toMachine (serviceCalls jvm thread span)) := by
  obtain ⟨r, hspan, hnames⟩ := exec_beforeSpanNames jvm thread span
  have hstored : SameNames r (WrittenNames.run jvm.toMachine []) := by
    rw [storeSpan, checkArgument, if_pos (decide_eq_true createSpanColumnName_ne_empty)] at hspan
    obtain ⟨-, rfl⟩ := Prod.mk.inj hspan
    exact ⟨rfl, rfl, rfl⟩
  have hlower : ∀ s ∈ serviceNames jvm span, jvm.locale.toLowerCase s = s := fun s hs => toLowerCase_of_mem hs
  have hall := @sameNames_mapM thread _ _ _ _ hstored hlower
  rw [indexServiceName, join, exec_map] at hnames
  have hstate : (exec ((serviceNames jvm span).mapM fun s => if s = "" then pure () else
      storeServiceName jvm.toMachine thread (jvm.locale.toLowerCase s)) r).2 = beforeSpanNames jvm thread span :=
    congrArg Prod.snd hnames
  rw [hstate] at hall
  exact hall

include hempty hname

/-- **The call goes as far as the span names**, and no further. -/
theorem afterStoring_of_empty : afterStoring jvm thread span =
    (exec ((serviceNames jvm span).mapM fun s => storeSpanName jvm.toMachine thread s (jvm.locale.toLowerCase span.name))
      (beforeSpanNames jvm thread span)).2 := by
  obtain ⟨r, hspan, hnames⟩ := exec_beforeSpanNames jvm thread span
  obtain ⟨e, r', herror⟩ : ∃ e r', exec ((serviceNames jvm span).mapM fun s =>
      storeSpanName jvm.toMachine thread s (jvm.locale.toLowerCase span.name)) (beforeSpanNames jvm thread span) =
      (.error e, r') := exists_error_of_empty hempty _
  have hthrows : exec (indexSpanNameByService jvm thread span) (beforeSpanNames jvm thread span) = (.error e, r') := by
    rw [indexSpanNameByService, if_neg hname, join, exec_map, herror]
    rfl
  rw [afterStoring, apply, exec_join_singleton, applySpan, exec_bind_ok hspan, exec_bind_ok hnames,
    exec_bind_error hthrows, herror]

/-- What is written then is span names of services with a name. -/
theorem writes_afterStoring_of_empty :
    Writes (fun i => ∃ s ∈ serviceNames jvm span, s ≠ "" ∧ i = .spanName s 0 (jvm.locale.toLowerCase span.name))
      (beforeSpanNames jvm thread span) (afterStoring jvm thread span) := by
  rw [afterStoring_of_empty hempty hname]
  have hmoves : Moves (Writes (fun i => ∃ s ∈ serviceNames jvm span,
      s ≠ "" ∧ i = .spanName s 0 (jvm.locale.toLowerCase span.name))) ((serviceNames jvm span).mapM fun s =>
        storeSpanName jvm.toMachine thread s (jvm.locale.toLowerCase span.name)) :=
    Moves.mapM fun s hs => moves_storeSpanName_of_ne fun hne => ⟨s, hs, hne, rfl⟩
  exact hmoves _

/-- **Nothing is found** of a span that threw: no span name is listed if all is well. -/
theorem span_names_eq_nil_of_namesFound (hfound : NamesFound span (afterStoring jvm thread span)) :
    (afterStoring jvm thread span).session.span_names = [] := by
  obtain ⟨hservices, hnil, hindex⟩ := of_beforeSpanNames jvm thread span
  have hw := @writes_afterStoring_of_empty _ thread _ hempty hname
  refine List.eq_nil_iff_forall_not_mem.2 (fun e he => ?_)
  rcases hw.mem_span_names (List.mem_map_of_mem he) with hrow | ⟨s, hs, hne, hinsert⟩
  · rw [hnil] at hrow
    exact List.not_mem_nil hrow
  · -- the row is listed, and the index is empty
    obtain ⟨hs', hb, -⟩ := Insert.spanName.inj hinsert
    have hlisted : e.1.2.2 ∈ getSpanNames (afterStoring jvm thread span) s := mem_getSpanNames.2
      ⟨hne, List.mem_map.2 ⟨e, he, Prod.ext hs' (Prod.ext hb rfl)⟩⟩
    have hend : ∀ ts ∈ span.lastTimestamp, ts ≤ span.lastTimestamp.getD 0 := fun ts hts => by
      rw [Option.mem_def.1 hts]
      exact Int.le_refl _
    obtain ⟨ids, hids, hmem⟩ := hfound s (hw.service_names (hservices s hs hne)) _ hlisted _ 1 hend (Int.le_refl 1)
    obtain ⟨ts, hrow⟩ := exists_row_of_mem_ids hids hmem
    rw [hw.eq_nil Keyspace.isTable_service_span_name_index
      (fun i hi => by obtain ⟨s, -, -, rfl⟩ := hi; rfl) hindex] at hrow
    exact List.not_mem_nil hrow

/-- **All is well exactly if nothing was listed**, when all pairs were cached. -/
theorem namesFound_iff_of_empty :
    NamesFound span (afterStoring jvm thread span) ↔ PairsCached jvm thread span := by
  have hlower : jvm.locale.toLowerCase span.name ≠ "" := fun he => hname ((jvm.locale.toLowerCase_eq_empty _).1 he)
  have hcached : (afterStoring jvm thread span).session.span_names = [] ↔ PairsCached jvm thread span := by
    rw [afterStoring_of_empty hempty hname]
    exact span_names_eq_nil_iff hlower (sameNames_beforeSpanNames jvm thread span) hempty
      (of_beforeSpanNames jvm thread span).2.1
  rw [← hcached]
  refine ⟨span_names_eq_nil_of_namesFound hempty hname, fun hnone s _ n hn => ?_⟩
  have hrow := (mem_getSpanNames.1 hn).2
  rw [hnone] at hrow
  exact (List.not_mem_nil hrow).elim

end Thrown

/-- **When every name that is listed is found**: exactly when the span has no name or no service name; or it has no empty
service name, and its name is in lower case; or it has one, and the thread has written all pairs of a service name before
it and the span name already, so that the call throws and has listed nothing. -/
theorem listedNamesFound_iff (jvm : Jvm) (thread : Nat) (span : Span (List UInt8)) :
    ListedNamesFound jvm thread span ↔
      span.name = "" ∨ span.serviceNames jvm.locale.toLowerCase = [] ∨
        ("" ∉ span.serviceNames jvm.locale.toLowerCase ∧ jvm.locale.toLowerCase span.name = span.name) ∨
        ("" ∈ span.serviceNames jvm.locale.toLowerCase ∧ PairsCached jvm thread span) := by
  have hnothing (h : span.name = "" ∨ span.serviceNames jvm.locale.toLowerCase = []) : ListedNamesFound jvm thread span := by
    intro s hs n hn
    obtain ⟨hmem, -, hname, -⟩ := of_listed hn
    rcases h with h | h
    · exact absurd h hname
    · rw [mem_serviceNames, h] at hmem
      exact (List.not_mem_nil hmem).elim
  by_cases hname : span.name = ""
  · exact iff_of_true (hnothing (Or.inl hname)) (Or.inl hname)
  by_cases hnames : span.serviceNames jvm.locale.toLowerCase = []
  · exact iff_of_true (hnothing (Or.inr hnames)) (Or.inr (Or.inl hnames))
  rw [or_iff_right hname, or_iff_right hnames, ListedNamesFound]
  by_cases hempty : "" ∈ span.serviceNames jvm.locale.toLowerCase
  · rw [namesFound_iff_of_empty (mem_serviceNames.2 hempty) hname]
    simp only [hempty, not_true_eq_false, false_and, true_and, false_or]
  · have hstored : "" ∉ serviceNames jvm span := fun h => hempty (mem_serviceNames.1 h)
    obtain ⟨s, hs⟩ := List.exists_mem_of_ne_nil _ hnames
    simp only [hempty, not_false_eq_true, true_and, false_and, or_false]
    refine ⟨fun hfound => by_contra fun hlower => ?_, namesFound_of_stored hstored⟩
    exact not_namesFound_of_stored hstored hlower (List.ne_nil_of_mem (mem_serviceNames.2 hs)) hfound

/-- A span of the service "web" with capital letters in its name. -/
def getUser : Span (List UInt8) := .apply 1 "GetUser" 1 none [⟨1, "sr", some ⟨0, 80, "web"⟩⟩] []

/-- The name is listed as "getuser", and nothing is found under "getuser". -/
theorem not_listedNamesFound_getUser : ¬ ListedNamesFound sampleJvm 0 getUser := by
  intro h
  have hservice : "web" ∈ getAllServiceNames (afterStoring sampleJvm 0 getUser) := by decide +kernel
  have hspan : "getuser" ∈ getSpanNames (afterStoring sampleJvm 0 getUser) "web" := by decide +kernel
  have hlast : ∀ ts ∈ getUser.lastTimestamp, ts ≤ 1 := by decide +kernel
  obtain ⟨ids, hids, hmem⟩ := h _ hservice _ hspan 1 10 hlast (by decide)
  have hnone : getTraceIdsByName (afterStoring sampleJvm 0 getUser) "web" (some "getuser") 1 10 = .ok [] := by
    decide +kernel
  rw [hnone] at hids
  cases hids
  exact List.not_mem_nil hmem

end CassandraSpanStore
end Zipkin
