import Zipkin.CassandraRepository
/-!
# RepositoryWrites — what the statements of the repository do

`Writes` relates the repository before and after a run: statements of a given kind were executed, and what is in the
cache of written names is in a table (`Written`).  It holds of every run, also of one that throws, so a row that is new
is the row of a statement of the kind, and no row is lost.
-/
namespace Zipkin

/-! What a statement puts into each table. -/

def Insert.serviceNameRow : Insert → Option (String × Unit)
  | .serviceName s => some (s, ())
  | _ => none

def Insert.spanNamesRow : Insert → Option ((String × Nat × String) × Unit)
  | .spanName s bucket n => some ((s, bucket, n), ())
  | _ => none

def Insert.spanNameRow : Insert → Option ((String × Int) × Int64)
  | .traceIdBySpanName s ts id => some ((s, ts), id)
  | _ => none

namespace Keyspace

/-- A name of the cache is in a table: the name of a service, or a pair of a service and a span name. -/
def Holds (k : Keyspace) (name : String) : Prop :=
  name ∈ k.service_names.map Prod.fst ∨
    ∃ s n, name = s ++ "––" ++ n ∧ (s, 0, n) ∈ k.span_names.map Prod.fst

/-- A table has what the statements put into it: rows, each under its key. -/
structure IsTable {κ ν : Type} [DecidableEq κ] (table : Keyspace → List (κ × ν)) (row : Insert → Option (κ × ν)) :
    Prop where
  empty : table {} = []
  execute : ∀ k i, table (Keyspace.execute k i) = AssocMap.putAll (row i).toList (table k)

theorem isTable_service_names : IsTable Keyspace.service_names Insert.serviceNameRow :=
  ⟨rfl, fun _ i => by cases i <;> rfl⟩

theorem isTable_span_names : IsTable Keyspace.span_names Insert.spanNamesRow := ⟨rfl, fun _ i => by cases i <;> rfl⟩

theorem isTable_service_span_name_index : IsTable Keyspace.service_span_name_index Insert.spanNameRow :=
  ⟨rfl, fun _ i => by cases i <;> rfl⟩

section IsTable
variable {κ ν : Type} [DecidableEq κ] {table : Keyspace → List (κ × ν)} {row : Insert → Option (κ × ν)} {k : Keyspace}

theorem IsTable.mem_keys_execute (h : IsTable table row) {key : κ} (hkey : key ∈ (table k).map Prod.fst)
    (insert : Insert) : key ∈ (table (k.execute insert)).map Prod.fst := by
  rw [h.execute]
  exact AssocMap.mem_keys_putAll.2 (Or.inr hkey)

theorem IsTable.mem_execute (h : IsTable table row) {insert : Insert} {e : κ × ν} (he : e ∈ table (k.execute insert)) :
    e ∈ table k ∨ row insert = some e := by
  rw [h.execute] at he
  cases hrow : row insert with
  | none => exact Or.inl (by simpa [hrow, AssocMap.putAll] using he)
  | some e' =>
    rw [hrow] at he
    exact (AssocMap.mem_put he).elim (fun heq => Or.inr (congrArg some heq.symm)) Or.inl

end IsTable

theorem Holds.execute {k : Keyspace} {name : String} (h : k.Holds name) (insert : Insert) :
    (k.execute insert).Holds name := by
  rcases h with h | ⟨s, n, hname, h⟩
  · exact Or.inl (isTable_service_names.mem_keys_execute h insert)
  · exact Or.inr ⟨s, n, hname, isTable_span_names.mem_keys_execute h insert⟩

theorem holds_serviceName (serviceName : String) (k : Keyspace) :
    (k.execute (.serviceName serviceName)).Holds serviceName :=
  Or.inl (AssocMap.mem_keys_put.2 (Or.inl rfl))

theorem holds_spanName (serviceName spanName : String) (k : Keyspace) :
    (k.execute (.spanName serviceName 0 spanName)).Holds (serviceName ++ "––" ++ spanName) :=
  Or.inr ⟨serviceName, spanName, rfl, AssocMap.mem_keys_put.2 (Or.inl rfl)⟩

end Keyspace

namespace Repository

variable (machine : Machine) (thread : Nat)

/-! ## What a run writes -/

/-- **What is in the cache is in a table.** -/
def Written (r : Repository) : Prop := ∀ thread, ∀ name ∈ r.names thread, r.session.Holds name

theorem written_empty : Written (empty machine) := fun _ _ h => (List.not_mem_nil h).elim

/-- A run executes statements of a kind, and puts into the cache what is in a table. -/
structure Writes (kind : Insert → Prop) (r r' : Repository) : Prop where
  executes : ∃ l : List Insert, (∀ i ∈ l, kind i) ∧ r'.session = l.foldl Keyspace.execute r.session
  written : Written r → Written r'

variable {kind : Insert → Prop}

theorem Writes.of_session_eq {r r' : Repository} (h : r'.session = r.session) (hw : Written r → Written r') :
    Writes kind r r' :=
  ⟨⟨[], fun _ hi => (List.not_mem_nil hi).elim, h⟩, hw⟩

instance : Std.Refl (Writes kind) := ⟨fun _ => .of_session_eq rfl id⟩

instance : IsTrans Repository (Writes kind) := by
  refine ⟨fun r₁ r₂ r₃ h h' => ⟨?_, fun hw => h'.written (h.written hw)⟩⟩
  obtain ⟨l, hl, he⟩ := h.executes
  obtain ⟨l', hl', he'⟩ := h'.executes
  exact ⟨l ++ l', fun i hi => (List.mem_append.1 hi).elim (hl i) (hl' i), by rw [he', he, List.foldl_append]⟩

theorem Writes.keeps {P : Keyspace → Prop} (hP : ∀ i, kind i → ∀ k, P k → P (k.execute i)) {r r' : Repository}
    (h : Writes kind r r') (hr : P r.session) : P r'.session := by
  obtain ⟨l, hl, he⟩ := h.executes
  rw [he]
  clear he
  generalize r.session = k at hr
  induction l generalizing k with
  | nil => exact hr
  | cons i l ih =>
    exact ih (fun j hj => hl j (List.mem_cons_of_mem _ hj)) _ (hP i (hl i List.mem_cons_self) k hr)

theorem Writes.holds {r r' : Repository} (h : Writes kind r r') {name : String} (hname : r.session.Holds name) :
    r'.session.Holds name :=
  h.keeps (P := fun k => k.Holds name) (fun i _ _ hk => hk.execute i) hname

section Table
variable {κ ν : Type} [DecidableEq κ] {table : Keyspace → List (κ × ν)} {row : Insert → Option (κ × ν)}
  {r r' : Repository}

theorem Writes.mem_keys (htable : Keyspace.IsTable table row) (h : Writes kind r r') {key : κ}
    (hkey : key ∈ (table r.session).map Prod.fst) : key ∈ (table r'.session).map Prod.fst :=
  h.keeps (P := fun k => key ∈ (table k).map Prod.fst) (fun i _ _ hk => htable.mem_keys_execute hk i) hkey

theorem Writes.mem_table (htable : Keyspace.IsTable table row) (h : Writes kind r r') {e : κ × ν}
    (he : e ∈ table r'.session) : e ∈ table r.session ∨ ∃ i, kind i ∧ row i = some e := by
  refine h.keeps (P := fun k => ∀ e ∈ table k, e ∈ table r.session ∨ ∃ i, kind i ∧ row i = some e)
    (fun i hi k hk e he => ?_) (fun e he => Or.inl he) e he
  rcases htable.mem_execute he with he | hrow
  · exact hk e he
  · exact Or.inr ⟨i, hi, hrow⟩

/-- **No statement of the kind writes to the table**, and it stays empty. -/
theorem Writes.eq_nil (htable : Keyspace.IsTable table row) (h : Writes kind r r') (hkind : ∀ i, kind i → row i = none)
    (hnil : table r.session = []) : table r'.session = [] := by
  refine List.eq_nil_iff_forall_not_mem.2 (fun e he => ?_)
  rcases h.mem_table htable he with he | ⟨i, hi, hrow⟩
  · rw [hnil] at he
    exact List.not_mem_nil he
  · rw [hkind i hi] at hrow
    cases hrow

end Table

theorem Writes.service_names {r r' : Repository} (h : Writes kind r r') {s : String}
    (hs : s ∈ r.session.service_names.map Prod.fst) : s ∈ r'.session.service_names.map Prod.fst :=
  h.mem_keys Keyspace.isTable_service_names hs

theorem Writes.service_span_name_index {r r' : Repository} (h : Writes kind r r') {key : String × Int}
    (hkey : key ∈ r.session.service_span_name_index.map Prod.fst) :
    key ∈ r'.session.service_span_name_index.map Prod.fst :=
  h.mem_keys Keyspace.isTable_service_span_name_index hkey

theorem Writes.mem_service_names {r r' : Repository} (h : Writes kind r r') {s : String}
    (hs : s ∈ r'.session.service_names.map Prod.fst) :
    s ∈ r.session.service_names.map Prod.fst ∨ kind (.serviceName s) := by
  obtain ⟨e, he, rfl⟩ := List.mem_map.1 hs
  rcases h.mem_table Keyspace.isTable_service_names he with he | ⟨i, hi, hrow⟩
  · exact Or.inl (List.mem_map_of_mem he)
  · cases i <;> cases hrow
    exact Or.inr hi

theorem Writes.mem_span_names {r r' : Repository} (h : Writes kind r r') {row : String × Nat × String}
    (hrow : row ∈ r'.session.span_names.map Prod.fst) :
    row ∈ r.session.span_names.map Prod.fst ∨ kind (.spanName row.1 row.2.1 row.2.2) := by
  obtain ⟨e, he, rfl⟩ := List.mem_map.1 hrow
  rcases h.mem_table Keyspace.isTable_span_names he with he | ⟨i, hi, hrow⟩
  · exact Or.inl (List.mem_map_of_mem he)
  · cases i <;> cases hrow
    exact Or.inr hi

theorem Writes.mem_service_span_name_index {r r' : Repository} (h : Writes kind r r') {row : (String × Int) × Int64}
    (hrow : row ∈ r'.session.service_span_name_index) :
    row ∈ r.session.service_span_name_index ∨ kind (.traceIdBySpanName row.1.1 row.1.2 row.2) := by
  rcases h.mem_table Keyspace.isTable_service_span_name_index hrow with hrow | ⟨i, hi, hrow⟩
  · exact Or.inl hrow
  · cases i <;> cases hrow
    exact Or.inr hi

section Moves
open Effect

theorem moves_checkArgument (expression : Bool) : Moves (Writes kind) (checkArgument expression) := by
  unfold checkArgument
  split
  · exact moves_pure ()
  · exact moves_throw _

theorem moves_nextBucket : Moves (Writes kind) (nextBucket machine) :=
  fun _ => .of_session_eq rfl id

theorem moves_executeAsync {insert : Insert} (h : kind insert) : Moves (Writes kind) (executeAsync insert) :=
  fun _ => ⟨⟨[insert], fun i hi => by rwa [List.mem_singleton.1 hi], rfl⟩,
    fun hw thread name hn => (hw thread name hn).execute insert⟩

theorem session_refreshed (r : Repository) : (refreshed machine thread r).session = r.session := by
  unfold refreshed
  dsimp only
  split <;> rfl

theorem written_refreshed {r : Repository} (h : Written r) : Written (refreshed machine thread r) := by
  intro t name hn
  rw [session_refreshed]
  unfold refreshed at hn
  dsimp only at hn
  split at hn
  · dsimp only at hn
    by_cases ht : t = thread
    · rw [ht, Function.update_self] at hn
      exact (List.not_mem_nil hn).elim
    · rw [Function.update_of_ne ht] at hn
      exact h t name hn
  · exact h t name hn

theorem exec_storeName (name : String) (insert : Insert) (r : Repository) :
    exec (storeName machine thread name insert) r = (.ok (),
      let r := refreshed machine thread r
      if name ∈ r.names thread then r
      else { r with
        names := Function.update r.names thread (r.names thread ++ [name]), session := r.session.execute insert }) := by
  unfold storeName writtenNames.add
  rw [exec_bind, exec_bind]
  simp only [writtenNames.get, exec_of, List.contains_eq_mem, decide_eq_true_eq]
  by_cases hn : name ∈ (refreshed machine thread r).names thread
  · simp only [if_pos hn, exec_pure]
    rfl
  · simp only [if_neg hn, exec_of]
    rfl

theorem moves_storeName {name : String} {insert : Insert} (hkind : kind insert)
    (hname : ∀ k : Keyspace, (k.execute insert).Holds name) :
    Moves (Writes kind) (storeName machine thread name insert) := by
  intro r
  rw [exec_storeName]
  dsimp only
  split
  · exact .of_session_eq (session_refreshed machine thread r) (written_refreshed machine thread)
  · refine ⟨⟨[insert], fun i hi => by rwa [List.mem_singleton.1 hi], ?_⟩, fun hw t n hn => ?_⟩
    · rw [session_refreshed]
      rfl
    · have hw' := written_refreshed machine thread hw
      dsimp only at hn ⊢
      by_cases ht : t = thread
      · rw [ht, Function.update_self] at hn
        rcases List.mem_append.1 hn with hn | hn
        · exact (hw' thread n hn).execute insert
        · rw [List.mem_singleton.1 hn]
          exact hname _
      · rw [Function.update_of_ne ht] at hn
        exact (hw' t n hn).execute insert

/-- **A name that was stored is in a table.** -/
theorem holds_of_storeName {name : String} {insert : Insert} (hname : ∀ k : Keyspace, (k.execute insert).Holds name)
    {r : Repository} (hr : Written r) : (exec (storeName machine thread name insert) r).2.session.Holds name := by
  rw [exec_storeName]
  dsimp only
  split
  · rename_i hn
    exact written_refreshed machine thread hr thread name hn
  · exact hname _

variable {machine thread}

theorem moves_storeSpan {traceId : Int64} {timestamp : Int} {spanName : String} {span : List UInt8}
    (h : kind (.span traceId timestamp spanName span)) :
    Moves (Writes kind) (storeSpan traceId timestamp spanName span) :=
  (moves_checkArgument _).bind fun _ => moves_executeAsync h

theorem moves_storeServiceName {serviceName : String} (h : kind (.serviceName serviceName)) :
    Moves (Writes kind) (storeServiceName machine thread serviceName) :=
  (moves_checkArgument _).bind fun _ => moves_storeName machine thread h (Keyspace.holds_serviceName serviceName)

theorem moves_storeSpanName {serviceName spanName : String} (h : kind (.spanName serviceName 0 spanName)) :
    Moves (Writes kind) (storeSpanName machine thread serviceName spanName) :=
  (moves_checkArgument _).bind fun _ => (moves_checkArgument _).bind fun _ =>
    moves_storeName machine thread h (Keyspace.holds_spanName serviceName spanName)

theorem moves_storeTraceIdByServiceName {serviceName : String} {timestamp : Int} {traceId : Int64}
    (h : ∀ bucket, kind (.traceIdByServiceName serviceName bucket timestamp traceId)) :
    Moves (Writes kind) (storeTraceIdByServiceName machine serviceName timestamp traceId) :=
  (moves_checkArgument _).bind fun _ => (moves_nextBucket machine).bind fun bucket => moves_executeAsync (h bucket)

theorem moves_storeTraceIdBySpanName {serviceName spanName : String} {timestamp : Int} {traceId : Int64}
    (h : kind (.traceIdBySpanName (serviceName ++ "." ++ spanName) timestamp traceId)) :
    Moves (Writes kind) (storeTraceIdBySpanName serviceName spanName timestamp traceId) :=
  (moves_checkArgument _).bind fun _ => (moves_checkArgument _).bind fun _ => moves_executeAsync h

theorem moves_storeTraceIdByAnnotation {annotationKey : List UInt8} {timestamp : Int} {traceId : Int64}
    (h : ∀ bucket, kind (.traceIdByAnnotationKey annotationKey bucket timestamp traceId)) :
    Moves (Writes kind) (Repository.storeTraceIdByAnnotation machine annotationKey timestamp traceId) :=
  (moves_nextBucket machine).bind fun bucket => moves_executeAsync (h bucket)

/-! ## A statement that went through -/

theorem of_checkArgument {expression : Bool} {r r' : Repository} {u : Unit}
    (h : exec (checkArgument expression) r = (.ok u, r')) : expression = true ∧ r' = r := by
  unfold checkArgument at h
  split at h
  · rename_i he
    cases h
    exact ⟨he, rfl⟩
  · cases h

theorem of_storeServiceName {serviceName : String} {r r' : Repository} {u : Unit}
    (h : exec (storeServiceName machine thread serviceName) r = (.ok u, r')) (hr : Written r) :
    r'.session.Holds serviceName := by
  obtain ⟨_, r₁, hc, h⟩ := exec_bind_eq_ok h
  rw [(of_checkArgument hc).2] at h
  have hholds := holds_of_storeName machine thread (Keyspace.holds_serviceName serviceName) hr
  rwa [h] at hholds

theorem of_storeSpanName {serviceName spanName : String} {r r' : Repository} {u : Unit}
    (h : exec (storeSpanName machine thread serviceName spanName) r = (.ok u, r')) (hr : Written r) :
    r'.session.Holds (serviceName ++ "––" ++ spanName) := by
  obtain ⟨_, r₁, hc, h⟩ := exec_bind_eq_ok h
  obtain ⟨_, r₂, hc', h⟩ := exec_bind_eq_ok h
  rw [(of_checkArgument hc').2, (of_checkArgument hc).2] at h
  have hholds := holds_of_storeName machine thread (Keyspace.holds_spanName serviceName spanName) hr
  rwa [h] at hholds

theorem ne_empty_of_storeTraceIdByServiceName {serviceName : String} {timestamp : Int} {traceId : Int64}
    {r r' : Repository} {u : Unit}
    (h : exec (storeTraceIdByServiceName machine serviceName timestamp traceId) r = (.ok u, r')) : serviceName ≠ "" := by
  obtain ⟨_, r₁, hc, -⟩ := exec_bind_eq_ok h
  simpa using (of_checkArgument hc).1

theorem of_storeTraceIdBySpanName {serviceName spanName : String} {timestamp : Int} {traceId : Int64}
    {r r' : Repository} {u : Unit}
    (h : exec (storeTraceIdBySpanName serviceName spanName timestamp traceId) r = (.ok u, r')) :
    (serviceName ++ "." ++ spanName, timestamp) ∈ r'.session.service_span_name_index.map Prod.fst := by
  obtain ⟨_, r₁, hc, h⟩ := exec_bind_eq_ok h
  obtain ⟨_, r₂, hc', h⟩ := exec_bind_eq_ok h
  cases h
  exact AssocMap.mem_keys_put.2 (Or.inl rfl)

/-! ## A statement that goes through -/

theorem succeeds_checkArgument {expression : Bool} (h : expression = true) : Succeeds (checkArgument expression) := by
  rw [checkArgument, if_pos h]
  exact fun r => ⟨(), r, rfl⟩

theorem succeeds_executeAsync (insert : Insert) : Succeeds (executeAsync insert) := fun _ => ⟨(), _, rfl⟩

theorem succeeds_nextBucket : Succeeds (nextBucket machine) := fun _ => ⟨_, _, rfl⟩

theorem succeeds_storeName (name : String) (insert : Insert) : Succeeds (storeName machine thread name insert) :=
  fun r => ⟨(), _, exec_storeName machine thread name insert r⟩

theorem succeeds_storeSpan {spanName : String} (h : spanName ≠ "") (traceId : Int64) (timestamp : Int)
    (span : List UInt8) : Succeeds (storeSpan traceId timestamp spanName span) :=
  (succeeds_checkArgument (decide_eq_true h)).bind fun _ => succeeds_executeAsync _

theorem succeeds_storeServiceName {serviceName : String} (h : serviceName ≠ "") :
    Succeeds (storeServiceName machine thread serviceName) :=
  (succeeds_checkArgument (decide_eq_true h)).bind fun _ => succeeds_storeName _ _

theorem succeeds_storeSpanName {serviceName spanName : String} (h : serviceName ≠ "") (h' : spanName ≠ "") :
    Succeeds (storeSpanName machine thread serviceName spanName) :=
  (succeeds_checkArgument (decide_eq_true h)).bind fun _ => (succeeds_checkArgument (decide_eq_true h')).bind fun _ =>
    succeeds_storeName _ _

theorem succeeds_storeTraceIdByServiceName {serviceName : String} (h : serviceName ≠ "") (timestamp : Int)
    (traceId : Int64) : Succeeds (storeTraceIdByServiceName machine serviceName timestamp traceId) :=
  (succeeds_checkArgument (decide_eq_true h)).bind fun _ => succeeds_nextBucket.bind fun _ => succeeds_executeAsync _

theorem succeeds_storeTraceIdBySpanName {serviceName spanName : String} (h : serviceName ≠ "") (h' : spanName ≠ "")
    (timestamp : Int) (traceId : Int64) : Succeeds (storeTraceIdBySpanName serviceName spanName timestamp traceId) :=
  (succeeds_checkArgument (decide_eq_true h)).bind fun _ => (succeeds_checkArgument (decide_eq_true h')).bind fun _ =>
    succeeds_executeAsync _

theorem succeeds_storeTraceIdByAnnotation (annotationKey : List UInt8) (timestamp : Int) (traceId : Int64) :
    Succeeds (Repository.storeTraceIdByAnnotation machine annotationKey timestamp traceId) :=
  succeeds_nextBucket.bind fun _ => succeeds_executeAsync _

end Moves

/-! ## What a query finds -/

theorem mem_traceIdsToTimestamps {rows : List (Int × Int64)} {id : Int64} :
    id ∈ (traceIdsToTimestamps rows).map Prod.fst ↔ id ∈ rows.map Prod.snd := by
  rw [traceIdsToTimestamps, AssocMap.mem_keys_putAll, List.map_map]
  simp [Function.comp_def]

/-- **What an answer has is in the table**, in a partition that was asked for. -/
theorem exists_row_of_mem_answer {π : Type} {part : π → Bool} {endTs limit : Int} {table : List ((π × Int) × Int64)}
    {answer : List (Int64 × Int)}
    (h : (checkLimit limit fun n => Table.select part endTs n table).map traceIdsToTimestamps = .ok answer) {id : Int64}
    (hid : id ∈ answer.map Prod.fst) : ∃ p ts, part p = true ∧ ((p, ts), id) ∈ table := by
  unfold checkLimit at h
  split at h
  · cases h
    obtain ⟨found, hfound, rfl⟩ := List.mem_map.1 (mem_traceIdsToTimestamps.1 hid)
    obtain ⟨p, hp, -, hrow⟩ := Table.exists_row_of_mem_select hfound
    exact ⟨p, found.1, hp, hrow⟩
  · cases h

theorem mem_getSpanNames {k : Keyspace} {serviceName n : String} :
    n ∈ getSpanNames k serviceName ↔ serviceName ≠ "" ∧ (serviceName, 0, n) ∈ k.span_names.map Prod.fst := by
  unfold getSpanNames
  split
  · rename_i hne
    simp only [List.mem_map, List.mem_filter, Bool.and_eq_true, beq_iff_eq]
    constructor
    · rintro ⟨⟨s, b, m⟩, ⟨⟨e, he, hrow⟩, hs, hb⟩, rfl⟩
      dsimp only at hs hb
      exact ⟨hne, e, he, by rw [hrow, hs, hb]⟩
    · rintro ⟨-, e, he, hrow⟩
      exact ⟨(serviceName, 0, n), ⟨⟨e, he, hrow⟩, rfl, rfl⟩, rfl⟩
  · rename_i hne
    exact ⟨fun h => (List.not_mem_nil h).elim, fun h => absurd h.1 hne⟩

end Repository
end Zipkin
