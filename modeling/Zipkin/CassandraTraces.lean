import Std.Data.String.ToInt
import Zipkin.CassandraStored
import Zipkin.Thrift
import Zipkin.TraceMerge
/-!
# CassandraTraces — the parts of a span in the store

A row of `traces` has for its key the trace id, the last timestamp and a column name, which is the span id with the hash
codes of the annotations and of the binary annotations.  The name, the parent and `debug` are not in it: a part replaces
another that differs from it in these alone.  The rows of a trace are read in the order of their keys, and not in the
order in which they came.  `noPartLost_iff` says when the merged trace has lost nothing by that.
-/
namespace Zipkin

open Effect StableSort AssocMap

namespace Repository

/-! ## `traces` -/

/-- A `text` is ordered by its UTF-8 bytes, which is by its code points. -/
def compareText (a b : String) : Ordering := compare (a.toList.map Char.toNat) (b.toList.map Char.toNat)

/-- By the clustering columns `ts` and `span_name`. -/
def compareColumns (a b : Int × String) : Ordering := (compare a.1 b.1).then (compareText a.2 b.2)

instance : Std.TransCmp compareColumns :=
  inferInstanceAs (Std.TransCmp (compareLex (compareOn Prod.fst)
    (compareOn (fun c : Int × String => c.2.toList.map Char.toNat))))

instance : Std.LawfulEqCmp compareColumns where
  compare_self := Std.ReflCmp.compare_self
  eq_of_compare {a b} h := by
    obtain ⟨hts, htext⟩ := Ordering.then_eq_eq.1 h
    have hcodes : a.2.toList.map Char.toNat = b.2.toList.map Char.toNat := Std.LawfulEqOrd.eq_of_compare htext
    exact Prod.ext (Std.LawfulEqOrd.eq_of_compare hts)
      (String.toList_injective (List.map_injective_iff.2 (fun _ _ => Char.toNat_inj.1) hcodes))

/-- `SELECT trace_id, span FROM traces WHERE trace_id IN ids LIMIT limit`: the partitions in an order of their own. -/
def selectTraces (partitions : List Int64 → List Int64) (k : Keyspace) (ids : List Int64) (limit : Nat) :
    List ((Int64 × Int × String) × List UInt8) :=
  ((partitions ids).flatMap fun id =>
    sorted (fun a b => compareColumns a.1.2 b.1.2) (k.traces.filter (fun row => row.1.1 == id))).take limit

def getSpansByTraceIds (partitions : List Int64 → List Int64) (k : Keyspace) (traceIds : List Int64) (limit : Int) :
    Except Throwable (List (Int64 × List (List UInt8))) :=
  if traceIds = [] then .ok []
  else checkLimit limit fun n =>
    (addBindings (fun row => some row.1.1) (selectTraces partitions k traceIds n)).map
      fun e => (e.1, e.2.map Prod.snd)

end Repository

namespace CassandraSpanStore

open Repository

/-- What a read takes of the libraries: the codec, and the order in which the partitions of ids come. -/
structure TraceReader extends Generated where
  decode : List UInt8 → Except Throwable thriftscala.Span
  partitions : List Int64 → List Int64
  partitions_perm : ∀ ids, (partitions ids).Perm ids.dedup

section Definitions
variable (jvm : Jvm) (reader : TraceReader)

def readSpan (bytes : List UInt8) : Except Throwable (Span (List UInt8)) := do
  let span ← reader.decode bytes
  span.toSpan reader.toGenerated

def getSpansByTraceIds (r : Repository) (maxTraceCols : Int) (traceIds : List Int64) :
    Except Throwable (List (List (Span (List UInt8)))) := do
  let spansByTraceId ← Repository.getSpansByTraceIds reader.partitions r.session traceIds maxTraceCols
  let spans ← (traceIds.filterMap (fun traceId => spansByTraceId.lookup traceId)).mapM
    fun spans => spans.mapM (readSpan reader)
  pure (sorted Span.compareHeads spans)

/-- Calls of `apply` one after the other, each by a thread; one that throws does not stop the next. -/
def run (calls : List (Nat × List (Span (List UInt8)))) : Repository :=
  calls.foldl (fun r call => (exec (apply jvm call.1 call.2) r).2) (Repository.empty jvm.toMachine)

/-- The spans of a call that are stored: all, or those up to one with an empty service name, which throws. -/
def inserted : List (Span (List UInt8)) → List (Span (List UInt8))
  | [] => []
  | x :: spans => if "" ∈ serviceNames jvm x then [x] else x :: inserted spans

/-- The stored spans, in the order in which they are stored. -/
def storedParts (calls : List (Nat × List (Span (List UInt8)))) : List (Span (List UInt8)) :=
  calls.flatMap fun call => inserted jvm call.2

/-- The primary key of a span in `traces`. -/
def traceKey (span : Span (List UInt8)) : Int64 × Int × String :=
  (span.traceId, span.lastTimestamp.getD (span.firstTimestamp.getD 0), createSpanColumnName jvm span)

end Definitions

variable {jvm : Jvm} {reader : TraceReader} {thread : Nat} {calls : List (Nat × List (Span (List UInt8)))}

/-! ## The rows -/

theorem copyAnnotations_sorted (span : Span (List UInt8)) :
    span.copyAnnotations (sorted Ord.compare span.annotations) = span := by
  have hsorted := sorted_eq_self _ span.sorted
  ext1 <;> simp only [Span.copyAnnotations, Span.apply, hsorted]

variable (jvm thread) in
/-- **A span that is stored has a row**, whether its call goes through or throws. -/
theorem traces_applySpan (span : Span (List UInt8)) (r : Repository) :
    (exec (applySpan jvm thread span) r).2.session.traces =
      put (traceKey jvm span) (jvm.encode span) r.session.traces := by
  have hstore : exec (storeSpan span.traceId (span.lastTimestamp.getD (span.firstTimestamp.getD 0))
      (createSpanColumnName jvm span) (jvm.encode (span.copyAnnotations (sorted Ord.compare span.annotations)))) r =
      (.ok (), { r with session := r.session.execute (.span span.traceId
        (span.lastTimestamp.getD (span.firstTimestamp.getD 0)) (createSpanColumnName jvm span) (jvm.encode span)) }) := by
    rw [copyAnnotations_sorted, storeSpan, checkArgument, if_pos (decide_eq_true createSpanColumnName_ne_empty)]
    rfl
  rw [applySpan, exec_bind_ok hstore]
  refine (moves_indexes (fun _ _ h => h) _ : Writes (fun i => i.traceRow = none) _ _).keeps
    (P := fun k => k.traces = put (traceKey jvm span) (jvm.encode span) r.session.traces) (fun i hi k hk => ?_) rfl
  cases i with
  | span => cases hi
  | _ => exact hk

def traceRow (jvm : Jvm) (span : Span (List UInt8)) : (Int64 × Int × String) × List UInt8 :=
  (traceKey jvm span, jvm.encode span)

theorem traces_apply : ∀ (spans : List (Span (List UInt8))) (r : Repository),
    (exec (apply jvm thread spans) r).2.session.traces =
      putAll ((inserted jvm spans).map (traceRow jvm)) r.session.traces
  | [], _ => rfl
  | x :: spans, r => by
    have hx := traces_applySpan jvm thread x r
    have ih := traces_apply spans (exec (applySpan jvm thread x) r).2
    rw [apply, join, exec_map] at ih ⊢
    rw [mapM_cons, exec_bind, inserted]
    by_cases hempty : "" ∈ serviceNames jvm x
    · rw [if_pos hempty]
      cases hexec : exec (applySpan jvm thread x) r with
      | mk a r' =>
        rw [hexec] at hx
        cases a with
        | error e => exact hx
        | ok u => exact absurd rfl (ne_empty_of_applySpan hexec hempty)
    · rw [if_neg hempty, List.map_cons]
      have hsucceeds : Succeeds (applySpan jvm thread x) := succeeds_applySpan hempty
      obtain ⟨u, r', hexec⟩ := hsucceeds r
      rw [hexec] at hx ih
      simp only [hexec, exec_map]
      rw [ih, hx]
      rfl

theorem traces_run : (run jvm calls).session.traces = putAll ((storedParts jvm calls).map (traceRow jvm)) [] := by
  have hfold : ∀ (calls : List (Nat × List (Span (List UInt8)))) (r : Repository),
      (calls.foldl (fun r call => (exec (apply jvm call.1 call.2) r).2) r).session.traces =
        putAll ((storedParts jvm calls).map (traceRow jvm)) r.session.traces := by
    intro calls
    induction calls with
    | nil => exact fun r => rfl
    | cons call calls ih =>
      intro r
      rw [List.foldl_cons, ih, traces_apply, ← putAll_append, ← List.map_append]
      rfl
  exact hfold calls _

/-! ## The rows of a trace -/

section Read

variable (jvm) in
/-- The parts that no later part replaces, in the order in which they are read. -/
def keptParts (parts : List (Span (List UInt8))) : List (Span (List UInt8)) :=
  sorted (fun a b => compareColumns (traceKey jvm a).2 (traceKey jvm b).2) (lasts (traceKey jvm) parts)

def partsOfTrace (traceId : Int64) (parts : List (Span (List UInt8))) : List (Span (List UInt8)) :=
  parts.filter fun p => p.traceId == traceId

instance : Std.TransCmp (fun a b : Span (List UInt8) => compareColumns (traceKey jvm a).2 (traceKey jvm b).2) :=
  inferInstanceAs (Std.TransCmp (compareLex (compareOn (fun a => (traceKey jvm a).2.1))
    (compareOn (fun a => (traceKey jvm a).2.2.toList.map Char.toNat))))

instance : Std.TransCmp (fun a b : (Int64 × Int × String) × List UInt8 => compareColumns a.1.2 b.1.2) :=
  inferInstanceAs (Std.TransCmp (compareLex (compareOn (fun a : (Int64 × Int × String) × List UInt8 => a.1.2.1))
    (compareOn (fun a : (Int64 × Int × String) × List UInt8 => a.1.2.2.toList.map Char.toNat))))

theorem eq_of_compareColumns {a b : Int × String} (hab : (compareColumns a b).isLE = true)
    (hba : (compareColumns b a).isLE = true) : a = b :=
  Std.LawfulEqCmp.eq_of_compare (Std.OrientedCmp.isLE_antisymm hab hba)

variable (jvm calls) in
/-- **The rows of a trace, as they are read.** -/
theorem sorted_rows (traceId : Int64) :
    sorted (fun a b => compareColumns a.1.2 b.1.2)
        ((run jvm calls).session.traces.filter (fun row => row.1.1 == traceId)) =
      (keptParts jvm (partsOfTrace traceId (storedParts jvm calls))).map (traceRow jvm) := by
  have hperm : ((run jvm calls).session.traces.filter (fun row => row.1.1 == traceId)).Perm
      ((lasts (traceKey jvm) (partsOfTrace traceId (storedParts jvm calls))).map (traceRow jvm)) := by
    have hfilter := (putAll_map_perm (traceKey jvm) jvm.encode (storedParts jvm calls)).filter
      (fun row => row.1.1 == traceId)
    rw [List.filter_map] at hfilter
    rw [traces_run, partsOfTrace, ← filter_lasts (fun b c hbc => by
      have hid : b.traceId = c.traceId := congrArg Prod.fst hbc
      rw [hid])]
    exact hfilter
  have hkeys : (((run jvm calls).session.traces.filter (fun row => row.1.1 == traceId)).map Prod.fst).Nodup := by
    rw [(hperm.map Prod.fst).nodup_iff, List.map_map]
    exact nodup_keys_lasts (traceKey jvm) _
  have hsorted := pairwise_sorted (fun a b => compareColumns (traceKey jvm a).2 (traceKey jvm b).2)
    (lasts (traceKey jvm) (partsOfTrace traceId (storedParts jvm calls)))
  refine List.Perm.eq_of_pairwise (fun a b ha hb hab hba => ?_) (pairwise_sorted _ _)
    (List.pairwise_map.2 hsorted) ((sorted_perm _ _).trans (hperm.trans ((sorted_perm _ _).map _).symm))
  have ha := (sorted_perm _ _).mem_iff.1 ha
  have hb := (hperm.trans ((sorted_perm _ _).map _).symm).mem_iff.2 hb
  have hid : a.1.1 = b.1.1 := by
    have h₁ := (List.mem_filter.1 ha).2
    have h₂ := (List.mem_filter.1 hb).2
    rw [beq_iff_eq] at h₁ h₂
    rw [h₁, h₂]
  exact List.inj_on_of_nodup_map hkeys ha hb (Prod.ext hid (eq_of_compareColumns hab hba))

/-- A struct is made of the span, its bytes decode to the struct, and the struct makes the span again. -/
def RoundTrips (jvm : Jvm) (reader : TraceReader) (span : Span (List UInt8)) : Prop :=
  ∃ struct, span.toThrift = .ok struct ∧ reader.decode (jvm.encode span) = .ok struct ∧
    struct.toSpan reader.toGenerated = .ok span

theorem RoundTrips.readSpan {span : Span (List UInt8)} (h : RoundTrips jvm reader span) :
    readSpan reader (jvm.encode span) = .ok span := by
  obtain ⟨struct, -, hdecode, hspan⟩ := h
  rw [CassandraSpanStore.readSpan, hdecode]
  exact hspan

theorem mem_keptParts {parts : List (Span (List UInt8))} {p : Span (List UInt8)} :
    p ∈ keptParts jvm parts ↔ p ∈ lasts (traceKey jvm) parts := (sorted_perm _ _).mem_iff

/-- **A trace is read as its parts that are not replaced.** -/
theorem getSpansByTraceIds_singleton (hround : ∀ p ∈ storedParts jvm calls, RoundTrips jvm reader p) {maxTraceCols : Int}
    {traceId : Int64} (hfew : (((run jvm calls).session.traces.filter (fun row => row.1.1 == traceId)).length : Int) <
      maxTraceCols) :
    ∃ traces, getSpansByTraceIds reader (run jvm calls) maxTraceCols [traceId] = .ok traces ∧
      traces.flatten = keptParts jvm (partsOfTrace traceId (storedParts jvm calls)) := by
  generalize hkept : keptParts jvm (partsOfTrace traceId (storedParts jvm calls)) = kept
  have hrows := sorted_rows jvm calls traceId
  rw [hkept] at hrows
  have hselect : selectTraces reader.partitions (run jvm calls).session [traceId] maxTraceCols.toNat =
      kept.map (traceRow jvm) := by
    have hpartitions : reader.partitions [traceId] = [traceId] := List.perm_singleton.1 (reader.partitions_perm _)
    rw [selectTraces, hpartitions, List.flatMap_singleton, hrows]
    refine List.take_of_length_le ?_
    rw [← hrows, (sorted_perm _ _).length_eq]
    omega
  have hid : ∀ p ∈ kept, p.traceId = traceId ∧ RoundTrips jvm reader p := fun p hp => by
    rw [← hkept, mem_keptParts] at hp
    obtain ⟨hp, hid⟩ := List.mem_filter.1 (mem_of_mem_lasts hp)
    rw [beq_iff_eq] at hid
    exact ⟨hid, hround p hp⟩
  have hread : (kept.map jvm.encode).mapM (readSpan reader) = .ok kept :=
    mapM_map_ok (fun p hp => (hid p hp).2.readSpan)
  rw [getSpansByTraceIds, Repository.getSpansByTraceIds, if_neg (List.cons_ne_nil _ _), checkLimit, if_pos (by omega),
    hselect]
  by_cases hnil : kept = []
  · subst hnil
    exact ⟨[], rfl, rfl⟩
  · have hfilter : (kept.map (traceRow jvm)).filter (fun row => decide (some row.1.1 = some traceId)) =
        kept.map (traceRow jvm) := by
      refine List.filter_eq_self.2 (fun row hrow => ?_)
      obtain ⟨p, hp, rfl⟩ := List.mem_map.1 hrow
      exact decide_eq_true (congrArg some (hid p hp).1)
    have hlookup : (addBindings (fun row => some row.1.1) (kept.map (traceRow jvm))).lookup traceId = some _ :=
      lookup_addBindings_of_ne_nil (by rw [hfilter]; exact fun h => hnil (List.map_eq_nil_iff.1 h))
    have hfound : [traceId].filterMap (fun traceId => ((addBindings (fun row => some row.1.1)
        (kept.map (traceRow jvm))).map (fun e => (e.1, e.2.map Prod.snd))).lookup traceId) = [kept.map jvm.encode] := by
      rw [List.filterMap_cons, lookup_map, hlookup, hfilter, Option.map_some, List.map_map]
      rfl
    refine ⟨[kept], ?_, List.append_nil kept⟩
    dsimp only [bind, Except.bind]
    rw [hfound, List.mapM_cons, hread]
    rfl

theorem underscore_not_mem_toString (i : Int) : '_' ∉ (toString i).toList := by
  cases i with
  | ofNat n =>
    have hlist : (toString (Int.ofNat n)).toList = Nat.toDigits 10 n := String.toList_ofList
    rw [hlist]
    exact Nat.underscore_not_in_toDigits
  | negSucc n =>
    have hlist : (toString (Int.negSucc n)).toList = '-' :: Nat.toDigits 10 (n + 1) := by
      rw [show toString (Int.negSucc n) = "-" ++ (n + 1).repr from rfl, String.toList_append]
      exact congrArg _ String.toList_ofList
    rw [hlist, List.mem_cons, not_or]
    exact ⟨by decide, Nat.underscore_not_in_toDigits⟩

theorem takeWhile_toString_append (i : Int) (l : List Char) :
    ((toString i).toList ++ '_' :: l).takeWhile (fun c => c != '_') = (toString i).toList := by
  have hall : ∀ c ∈ (toString i).toList, (c != '_') = true := fun c hc => by
    rw [bne_iff_ne]
    exact fun h => underscore_not_mem_toString i (h ▸ hc)
  rw [List.takeWhile_append_of_pos hall, List.takeWhile_cons_of_neg (by simp), List.append_nil]

/-- Parts with one key are of one span: its id is what stands before the first delimiter of the column name. -/
theorem id_of_traceKey_eq {a b : Span (List UInt8)} (h : traceKey jvm a = traceKey jvm b) : a.id = b.id := by
  have hname : createSpanColumnName jvm a = createSpanColumnName jvm b := congrArg (fun k => k.2.2) h
  have hlist := congrArg String.toList hname
  have hdelimiter : "_".toList = ['_'] := rfl
  simp only [createSpanColumnName, String.toList_append, List.append_assoc, hdelimiter, List.cons_append] at hlist
  have hid := congrArg (List.takeWhile (fun c => c != '_')) hlist
  rw [takeWhile_toString_append, takeWhile_toString_append] at hid
  exact Int64.toInt_inj.1 (Int.repr_inj.1 (String.toList_injective hid))

end Read

/-! ## No part is lost -/

/-- The merged trace that is read carries, for each span, what the parts as they were stored merge to. -/
def NoPartLost (ord : HashOrder (List UInt8)) (jvm : Jvm) (reader : TraceReader) (maxTraceCols : Int)
    (calls : List (Nat × List (Span (List UInt8)))) : Prop :=
  ∀ traceId, ∃ traces, getSpansByTraceIds reader (run jvm calls) maxTraceCols [traceId] = .ok traces ∧
    ∀ s ∈ (⟨partsOfTrace traceId (storedParts jvm calls)⟩ : Trace (List UInt8)).spans ord,
      ∃ s' ∈ (⟨traces.flatten⟩ : Trace (List UInt8)).spans ord, s'.id = s.id ∧ Carries s' s

theorem covers_of_partsOf_eq_nil {kept parts : List (Span (List UInt8))} (h : parts = []) : Covers kept parts := by
  subst h
  exact ⟨nofun, nofun, nofun, nofun, nofun⟩

variable (jvm) in
theorem partsOf_keptParts_ne_nil {parts : List (Span (List UInt8))} {id : Int64} (h : partsOf parts id ≠ []) :
    partsOf (keptParts jvm parts) id ≠ [] := by
  obtain ⟨p, hp⟩ := List.exists_mem_of_ne_nil _ h
  obtain ⟨hp, hid⟩ := mem_partsOf.1 hp
  obtain ⟨q, hq, hkey⟩ : ∃ q ∈ lasts (traceKey jvm) parts, traceKey jvm q = traceKey jvm p := exists_mem_lasts hp
  exact List.ne_nil_of_mem (mem_partsOf.2 ⟨mem_keptParts.2 hq, (id_of_traceKey_eq hkey).trans hid⟩)

theorem exists_span_of_partsOf (ord : HashOrder (List UInt8)) {parts : List (Span (List UInt8))} {id : Int64}
    (h : partsOf parts id ≠ []) : ∃ s ∈ (⟨parts⟩ : Trace (List UInt8)).spans ord, s.id = id := by
  obtain ⟨p, hp⟩ := List.exists_mem_of_ne_nil _ h
  obtain ⟨hp, hid⟩ := mem_partsOf.1 hp
  obtain ⟨s, hs, hsid⟩ := exists_span_of_part ord hp
  exact ⟨s, hs, hsid.trans hid⟩

theorem noPartLost_iff_covers {ord : HashOrder (List UInt8)} {maxTraceCols : Int}
    (hround : ∀ p ∈ storedParts jvm calls, RoundTrips jvm reader p)
    (hfew : ∀ traceId, (((run jvm calls).session.traces.filter (fun row => row.1.1 == traceId)).length : Int) <
      maxTraceCols) :
    NoPartLost ord jvm reader maxTraceCols calls ↔ ∀ traceId id,
      Covers (partsOf (keptParts jvm (partsOfTrace traceId (storedParts jvm calls))) id)
        (partsOf (partsOfTrace traceId (storedParts jvm calls)) id) := by
  constructor
  · intro hall traceId id
    by_cases hnil : partsOf (partsOfTrace traceId (storedParts jvm calls)) id = []
    · exact covers_of_partsOf_eq_nil hnil
    · obtain ⟨traces, hread, hcarries⟩ := hall traceId
      obtain ⟨traces', hread', hflat⟩ := getSpansByTraceIds_singleton hround (hfew traceId)
      obtain rfl := Except.ok.inj (hread.symm.trans hread')
      obtain ⟨s, hs, rfl⟩ := exists_span_of_partsOf ord hnil
      obtain ⟨s', hs', hid, hc⟩ := hcarries s hs
      rw [hflat] at hs'
      have hmerge' := (Trace.mem_spans ord).1 hs'
      rw [hid] at hmerge'
      exact (carries_iff_covers ((Trace.mem_spans ord).1 hs) hmerge').1 hc
  · intro hcovers traceId
    obtain ⟨traces, hread, hflat⟩ := getSpansByTraceIds_singleton hround (hfew traceId)
    refine ⟨traces, hread, fun s hs => ?_⟩
    rw [hflat]
    have hmerge := (Trace.mem_spans ord).1 hs
    have hne : partsOf (partsOfTrace traceId (storedParts jvm calls)) s.id ≠ [] := fun hnil => by
      rw [partsOf] at hnil
      rw [hnil] at hmerge
      cases hmerge
    obtain ⟨s', hs', hid⟩ := exists_span_of_partsOf ord (partsOf_keptParts_ne_nil jvm hne)
    have hmerge' := (Trace.mem_spans ord).1 hs'
    rw [hid] at hmerge'
    exact ⟨s', hs', hid, (carries_iff_covers hmerge hmerge').2 (hcovers traceId s.id)⟩

/-! ## When no part is lost -/

def InSpan (traceId id : Int64) (p : Span (List UInt8)) : Bool := p.traceId == traceId && p.id == id

/-- No later part has the same key. -/
def Stays (jvm : Jvm) (parts : List (Span (List UInt8))) (p : Span (List UInt8)) : Prop :=
  LastWith (fun q => traceKey jvm q = traceKey jvm p) parts p

/-- Of the parts of a kind that stay, the one whose columns come first. -/
def ReadFirst (jvm : Jvm) (parts : List (Span (List UInt8))) (kind : Span (List UInt8) → Bool)
    (p : Span (List UInt8)) : Prop :=
  Stays jvm parts p ∧ kind p = true ∧
    ∀ q, Stays jvm parts q → kind q = true → (compareColumns (traceKey jvm p).2 (traceKey jvm q).2).isLE = true

/-- What a part of the span has, a part that stays has too; the first to be stored with a name, and the first with a
parent, agrees with the first to be read. -/
structure PartsStay (jvm : Jvm) (parts : List (Span (List UInt8))) (traceId id : Int64) : Prop where
  annotations : ∀ p ∈ parts, InSpan traceId id p = true → ∀ a ∈ p.annotations,
    ∃ q, Stays jvm parts q ∧ InSpan traceId id q = true ∧ a ∈ q.annotations
  binaryAnnotations : ∀ p ∈ parts, InSpan traceId id p = true → ∀ b ∈ p.binaryAnnotations,
    ∃ q, Stays jvm parts q ∧ InSpan traceId id q = true ∧ b ∈ q.binaryAnnotations
  name : ∀ p, parts.find? (fun p => InSpan traceId id p && named p) = some p →
    ∃ q, ReadFirst jvm parts (fun p => InSpan traceId id p && named p) q ∧ q.name = p.name
  parentId : ∀ p, parts.find? (InSpan traceId id) = some p → ∀ parent, p.parentId = some parent →
    ∃ q, ReadFirst jvm parts (InSpan traceId id) q ∧ q.parentId = some parent
  debug : ∀ p ∈ parts, InSpan traceId id p = true → p.debug = true →
    ∃ q, Stays jvm parts q ∧ InSpan traceId id q = true ∧ q.debug = true

section Parts
variable {parts : List (Span (List UInt8))} {traceId id : Int64}

theorem partsOf_partsOfTrace : partsOf (partsOfTrace traceId parts) id = parts.filter (InSpan traceId id) := by
  rw [partsOf, partsOfTrace, List.filter_filter]
  refine List.filter_congr (fun p _ => ?_)
  rw [InSpan, Bool.and_comm]
  rfl

theorem mem_partsOf_keptParts {p : Span (List UInt8)} :
    p ∈ partsOf (keptParts jvm (partsOfTrace traceId parts)) id ↔ Stays jvm parts p ∧ InSpan traceId id p = true := by
  rw [mem_partsOf, mem_keptParts, partsOfTrace, ← filter_lasts (fun b c hbc => by
    have hid : b.traceId = c.traceId := congrArg Prod.fst hbc
    rw [hid]), List.mem_filter, mem_lasts, InSpan, Bool.and_eq_true, beq_iff_eq, beq_iff_eq, and_assoc]
  rfl

variable (jvm parts traceId id) in
theorem find?_partsOf_keptParts (kind : Span (List UInt8) → Bool) {p : Span (List UInt8)} :
    (partsOf (keptParts jvm (partsOfTrace traceId parts)) id).find? kind = some p ↔
      ReadFirst jvm parts (fun p => InSpan traceId id p && kind p) p := by
  have hsorted : (partsOf (keptParts jvm (partsOfTrace traceId parts)) id).Pairwise
      (le (fun a b => compareColumns (traceKey jvm a).2 (traceKey jvm b).2)) := (pairwise_sorted _ _).filter _
  rw [find?_eq_some_iff _ hsorted (fun a ha b hb hab hba => ?_)]
  · simp only [mem_partsOf_keptParts, ReadFirst, Bool.and_eq_true]
    exact ⟨fun ⟨hp, hk, hall⟩ => ⟨hp.1, ⟨hp.2, hk⟩, fun q hq hqk => hall q ⟨hq, hqk.1⟩ hqk.2⟩,
      fun ⟨hp, hk, hall⟩ => ⟨⟨hp, hk.1⟩, hk.2, fun q hq hqk => hall q hq.1 ⟨hq.2, hqk⟩⟩⟩
  · have hmem : ∀ {c}, c ∈ partsOf (keptParts jvm (partsOfTrace traceId parts)) id →
        c ∈ lasts (traceKey jvm) (partsOfTrace traceId parts) ∧ c.traceId = traceId := fun {c} hc => by
      have hc := mem_keptParts.1 (mem_partsOf.1 hc).1
      exact ⟨hc, by simpa using (List.mem_filter.1 (mem_of_mem_lasts hc)).2⟩
    exact List.inj_on_of_nodup_map (nodup_keys_lasts (traceKey jvm) _) (hmem ha).1 (hmem hb).1
      (Prod.ext ((hmem ha).2.trans (hmem hb).2.symm) (eq_of_compareColumns hab hba))

theorem head?_partsOf_keptParts {p : Span (List UInt8)} :
    (partsOf (keptParts jvm (partsOfTrace traceId parts)) id).head? = some p ↔
      ReadFirst jvm parts (InSpan traceId id) p := by
  have hfind := find?_partsOf_keptParts jvm parts traceId id (fun _ => true) (p := p)
  simp only [Bool.and_true] at hfind
  rw [← hfind]
  cases partsOf (keptParts jvm (partsOfTrace traceId parts)) id <;> rfl

theorem covers_iff_partsStay :
    Covers (partsOf (keptParts jvm (partsOfTrace traceId parts)) id) (partsOf (partsOfTrace traceId parts) id) ↔
      PartsStay jvm parts traceId id := by
  have hfind : (parts.filter (InSpan traceId id)).find? named = parts.find? (fun p => InSpan traceId id p && named p) := by
    rw [List.find?_filter]
    simp only [Bool.decide_and, Bool.decide_eq_true]
  rw [partsOf_partsOfTrace]
  constructor
  · intro h
    refine ⟨fun p hp hin a ha => ?_, fun p hp hin b hb => ?_, fun p hp => ?_, fun p hp parent hpp => ?_,
      fun p hp hin hpd => ?_⟩
    · obtain ⟨q, hq, hqa⟩ := h.annotations p (List.mem_filter.2 ⟨hp, hin⟩) a ha
      exact ⟨q, (mem_partsOf_keptParts.1 hq).1, (mem_partsOf_keptParts.1 hq).2, hqa⟩
    · obtain ⟨q, hq, hqb⟩ := h.binaryAnnotations p (List.mem_filter.2 ⟨hp, hin⟩) b hb
      exact ⟨q, (mem_partsOf_keptParts.1 hq).1, (mem_partsOf_keptParts.1 hq).2, hqb⟩
    · obtain ⟨q, hq, hqn⟩ := h.name p (hfind.trans hp)
      exact ⟨q, (find?_partsOf_keptParts jvm parts traceId id named).1 hq, hqn⟩
    · obtain ⟨q, hq, hqp⟩ := h.parentId p (by rw [List.head?_filter]; exact hp) parent hpp
      exact ⟨q, head?_partsOf_keptParts.1 hq, hqp⟩
    · obtain ⟨q, hq, hqd⟩ := h.debug p (List.mem_filter.2 ⟨hp, hin⟩) hpd
      exact ⟨q, (mem_partsOf_keptParts.1 hq).1, (mem_partsOf_keptParts.1 hq).2, hqd⟩
  · intro h
    refine ⟨fun p hp a ha => ?_, fun p hp b hb => ?_, fun p hp => ?_, fun p hp parent hpp => ?_,
      fun p hp hpd => ?_⟩
    · obtain ⟨hp, hin⟩ := List.mem_filter.1 hp
      obtain ⟨q, hq, hqin, hqa⟩ := h.annotations p hp hin a ha
      exact ⟨q, mem_partsOf_keptParts.2 ⟨hq, hqin⟩, hqa⟩
    · obtain ⟨hp, hin⟩ := List.mem_filter.1 hp
      obtain ⟨q, hq, hqin, hqb⟩ := h.binaryAnnotations p hp hin b hb
      exact ⟨q, mem_partsOf_keptParts.2 ⟨hq, hqin⟩, hqb⟩
    · obtain ⟨q, hq, hqn⟩ := h.name p (hfind.symm.trans hp)
      exact ⟨q, (find?_partsOf_keptParts jvm parts traceId id named).2 hq, hqn⟩
    · rw [List.head?_filter] at hp
      obtain ⟨q, hq, hqp⟩ := h.parentId p hp parent hpp
      exact ⟨q, head?_partsOf_keptParts.2 hq, hqp⟩
    · obtain ⟨hp, hin⟩ := List.mem_filter.1 hp
      obtain ⟨q, hq, hqin, hqd⟩ := h.debug p hp hin hpd
      exact ⟨q, mem_partsOf_keptParts.2 ⟨hq, hqin⟩, hqd⟩

end Parts

/-- **When no part is lost**: what each part of a span has, one that no later part with its key replaces has too, and the
first to be stored agrees with the first to be read on the name and on the parent. -/
theorem noPartLost_iff {ord : HashOrder (List UInt8)} {maxTraceCols : Int}
    (hround : ∀ p ∈ storedParts jvm calls, RoundTrips jvm reader p)
    (hfew : ∀ traceId, (((run jvm calls).session.traces.filter (fun row => row.1.1 == traceId)).length : Int) <
      maxTraceCols) :
    NoPartLost ord jvm reader maxTraceCols calls ↔ ∀ traceId id, PartsStay jvm (storedParts jvm calls) traceId id := by
  rw [noPartLost_iff_covers hround hfew]
  exact forall_congr' fun traceId => forall_congr' fun id => covers_iff_partsStay

def fullPart : Span (List UInt8) := .apply 1 "get" 2 (some 1) [⟨10, "sr", none⟩] [] true

/-- The same annotations, without the name, the parent and `debug`. -/
def barePart : Span (List UInt8) := .apply 1 "" 2 none [⟨10, "sr", none⟩] []

/-- What comes later of the same span. -/
def latePart : Span (List UInt8) := .apply 1 "put" 2 none [⟨20, "ss", none⟩] []

/-- The codec tells the parts apart by the bytes of the name. -/
def sampleReader : TraceReader where
  annotationTypeName _ := ""
  annotationToString _ := ""
  decode bytes := .ok (
    if bytes = [103, 101, 116] then ⟨1, some "get", 2, some 1, some [⟨10, "sr", none⟩], some [], true⟩
    else if bytes = [] then ⟨1, some "", 2, none, some [⟨10, "sr", none⟩], some [], false⟩
    else ⟨1, some "put", 2, none, some [⟨20, "ss", none⟩], some [], false⟩)
  partitions ids := ids.dedup
  partitions_perm _ := .refl _

theorem roundTrips_fullPart : RoundTrips sampleJvm sampleReader fullPart :=
  ⟨_, rfl, by decide +kernel, by decide +kernel⟩

theorem roundTrips_barePart : RoundTrips sampleJvm sampleReader barePart :=
  ⟨_, rfl, by decide +kernel, by decide +kernel⟩

theorem rows_lt {calls : List (Nat × List (Span (List UInt8)))} {n : Nat}
    (h : (run sampleJvm calls).session.traces.length < n) (traceId : Int64) :
    (((run sampleJvm calls).session.traces.filter (fun row => row.1.1 == traceId)).length : Int) < n := by
  have hle := List.length_filter_le (fun row : (Int64 × Int × String) × List UInt8 => row.1.1 == traceId)
    (run sampleJvm calls).session.traces
  omega

theorem roundTrips_latePart : RoundTrips sampleJvm sampleReader latePart :=
  ⟨_, rfl, by decide +kernel, by decide +kernel⟩

/-- Two parts with two keys are merged when they are read. -/
theorem noPartLost_latePart :
    NoPartLost (HashOrder.insertion _) sampleJvm sampleReader 10 [(0, [fullPart]), (1, [latePart])] := by
  have hparts : storedParts sampleJvm [(0, [fullPart]), (1, [latePart])] = [fullPart, latePart] := by decide +kernel
  refine (noPartLost_iff (fun p hp => ?_) (rows_lt (n := 10) (by decide +kernel))).2 (fun traceId id => ?_)
  · rw [hparts] at hp
    rcases List.mem_pair.1 hp with rfl | rfl
    · exact roundTrips_fullPart
    · exact roundTrips_latePart
  · rw [hparts]
    have hfull : Stays sampleJvm [fullPart, latePart] fullPart := ⟨[], [latePart], rfl, rfl, by decide +kernel⟩
    have hlate : Stays sampleJvm [fullPart, latePart] latePart := ⟨[fullPart], [], rfl, rfl, nofun⟩
    have hstays : ∀ p ∈ [fullPart, latePart], Stays sampleJvm [fullPart, latePart] p := fun p hp => by
      rcases List.mem_pair.1 hp with rfl | rfl
      · exact hfull
      · exact hlate
    -- the order in which they were stored is that of their columns
    have hcolumns : [fullPart, latePart].Pairwise
        (le fun p q => compareColumns (traceKey sampleJvm p).2 (traceKey sampleJvm q).2) := by decide +kernel
    have hfirst : ∀ (kind : Span (List UInt8) → Bool) (p : Span (List UInt8)), [fullPart, latePart].find? kind = some p →
        ReadFirst sampleJvm [fullPart, latePart] kind p := fun kind p hp => by
      obtain ⟨hmem, hkind, hleast⟩ := (find?_eq_some_iff _ hcolumns (by decide +kernel)).1 hp
      exact ⟨hstays p hmem, hkind, fun q hq => hleast q hq.mem⟩
    exact ⟨fun p hp hin a ha => ⟨p, hstays p hp, hin, ha⟩, fun p hp hin b hb => ⟨p, hstays p hp, hin, hb⟩,
      fun p hp => ⟨p, hfirst _ p hp, rfl⟩, fun p hp parent hpp => ⟨p, hfirst _ p hp, hpp⟩,
      fun p hp hin hpd => ⟨p, hstays p hp, hin, hpd⟩⟩

/-- Two parts with one key: the later one, which is bare, is all that is left. -/
theorem not_noPartLost_barePart :
    (∀ p ∈ storedParts sampleJvm [(0, [fullPart]), (1, [barePart])], RoundTrips sampleJvm sampleReader p) ∧
      (∀ traceId, (((run sampleJvm [(0, [fullPart]), (1, [barePart])]).session.traces.filter
        (fun row => row.1.1 == traceId)).length : Int) < 10) ∧
      ¬ NoPartLost (HashOrder.insertion _) sampleJvm sampleReader 10 [(0, [fullPart]), (1, [barePart])] := by
  have hparts : storedParts sampleJvm [(0, [fullPart]), (1, [barePart])] = [fullPart, barePart] := by decide +kernel
  refine ⟨fun p hp => ?_, rows_lt (n := 10) (by decide +kernel), fun h => ?_⟩
  · rw [hparts] at hp
    rcases List.mem_pair.1 hp with rfl | rfl
    · exact roundTrips_fullPart
    · exact roundTrips_barePart
  · obtain ⟨traces, hread, hcarries⟩ := h 1
    have hbare : getSpansByTraceIds sampleReader (run sampleJvm [(0, [fullPart]), (1, [barePart])]) 10 [1] =
        .ok [[barePart]] := by decide +kernel
    obtain rfl := Except.ok.inj (hread.symm.trans hbare)
    have hmerged : (⟨partsOfTrace 1 (storedParts sampleJvm [(0, [fullPart]), (1, [barePart])])⟩ : Trace _).spans
        (HashOrder.insertion _) = [fullPart.merged barePart] := by decide +kernel
    have hspans : (⟨[[barePart]].flatten⟩ : Trace _).spans (HashOrder.insertion _) = [barePart] := by decide +kernel
    rw [hmerged, hspans] at hcarries
    obtain ⟨s', hs', -, hc⟩ := hcarries _ List.mem_cons_self
    rw [List.mem_singleton] at hs'
    have hparent := hc.parentId 1 rfl
    rw [hs'] at hparent
    cases hparent

end CassandraSpanStore
end Zipkin
