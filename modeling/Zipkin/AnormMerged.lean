import Zipkin.AnormSpanStore
import Zipkin.Base.Join
import Zipkin.TraceMerge
/-!
# AnormMerged — the annotations of a span that came in parts

The distinct rows of a span have its parent and `debug`, and its annotations are joined to them by the name alone.  Parts
with one name that differ in the parent or in `debug` have two rows, and what is stored under the name is joined to both.
`mergesExactly_iff` says for which parts each annotation and each binary annotation comes back once.
-/
namespace Zipkin
namespace AnormSpanStore

open Effect Transaction AssocMap StableSort

variable {order : RowOrder} {stored : List (Span (List UInt8))} {traceId : Int64}

/-! ## What is stored -/

def tablesOf (stored : List (Span (List UInt8))) : SpanTables where
  zipkin_spans := stored.map spanRow
  zipkin_annotations := stored.flatMap fun x => x.annotations.map (annotationRow x)
  zipkin_binary_annotations := stored.flatMap fun x => x.binaryAnnotations.map (binaryAnnotationRow x)

theorem exec_inserts (x : Span (List UInt8)) :
    exec (inserts x).run (tablesOf stored) = (.ok (), tablesOf (stored ++ [x])) := by
  have hspan : exec (insertSpan (spanRow x)) (tablesOf stored) =
      (.ok (), { tablesOf stored with zipkin_spans := (tablesOf stored).zipkin_spans ++ [spanRow x] }) := rfl
  rw [inserts, Program.run, exec_bind_ok hspan,
    exec_run_each (x := fun a => insertAnnotation (annotationRow x a)) (g := annotationRow x)
      (u := fun t rows => { t with zipkin_annotations := t.zipkin_annotations ++ rows }) (fun _ _ => rfl)
      (fun _ => by simp) (fun _ _ _ => by simp),
    exec_run_each (x := fun b => insertBinaryAnnotation (binaryAnnotationRow x b)) (g := binaryAnnotationRow x)
      (u := fun t rows => { t with zipkin_binary_annotations := t.zipkin_binary_annotations ++ rows }) (fun _ _ => rfl)
      (fun _ => by simp) (fun _ _ _ => by simp)]
  simp only [Program.run, exec_pure, tablesOf, List.map_append, List.flatMap_append, List.flatMap_singleton,
    List.map_cons, List.map_nil]

/-- **Stored spans are in the tables**, in the order in which they came. -/
theorem exec_apply {isSQLRecoverableException : Throwable → Bool} (stored : List (Span (List UInt8))) :
    exec (apply (fun _ => none) isSQLRecoverableException stored) {} = (.ok (), tablesOf stored) := by
  have hstore : ∀ before x, exec (storeSpan (fun _ => none) isSQLRecoverableException x) (tablesOf before) =
      (.ok (), tablesOf (before ++ [x])) := fun before x => by
    rw [storeSpan, exec_map, DB.exec_pooled_none (exec_inserts x)]
    rfl
  have hall := exec_mapM_snoc hstore stored []
  rw [List.nil_append] at hall
  rw [apply, exec_map]
  exact congrArg (fun p => (p.1.map fun _ => (), p.2)) hall

/-! ## The rows of a result -/

section Select
variable {ρ ν : Type} [DecidableEq ν] {table : List ρ} {found : ρ → Bool} {columns : ρ → ν}

theorem mem_selectDistinct {v : ν} :
    v ∈ selectDistinct order table found columns ↔ ∃ r ∈ table, found r = true ∧ columns r = v := by
  rw [selectDistinct, (order.rows_perm _).mem_iff, List.mem_dedup, List.mem_map]
  simp only [List.mem_filter, and_assoc]

theorem nodup_selectDistinct : (selectDistinct order table found columns).Nodup := by
  rw [selectDistinct, (order.rows_perm _).nodup_iff]
  exact List.nodup_dedup _

theorem mem_selectDistinct_items {α : Type} {items : Span (List UInt8) → List α} {g : Span (List UInt8) → α → ρ}
    {p : ρ → Bool} (hp : ∀ x a, p (g x a) = true ↔ x.traceId = traceId) {v : ν} :
    v ∈ selectDistinct order (stored.flatMap fun x => (items x).map (g x)) p columns ↔
      ∃ x ∈ stored, x.traceId = traceId ∧ ∃ a ∈ items x, columns (g x a) = v := by
  simp only [mem_selectDistinct, List.mem_flatMap, List.mem_map]
  constructor
  · rintro ⟨_, ⟨x, hx, a, ha, rfl⟩, htrace, rfl⟩
    exact ⟨x, hx, (hp x a).1 htrace, a, ha, rfl⟩
  · rintro ⟨x, hx, htrace, a, ha, rfl⟩
    exact ⟨_, ⟨x, hx, a, ha, rfl⟩, (hp x a).2 htrace, rfl⟩

end Select

/-- The rows of a span, an annotation and a binary annotation as they are read. -/
def dbSpan (x : Span (List UInt8)) : DBSpan := ⟨x.id, x.parentId, x.traceId, x.name, x.debug⟩

def dbAnnotation (x : Span (List UInt8)) (a : Annotation) : DBAnnotation :=
  ⟨x.id, x.traceId, x.name, a.serviceName, a.value, a.host.map Endpoint.ipv4, a.host.map (fun h => h.port.toInt),
    a.timestamp⟩

def dbBinaryAnnotation (x : Span (List UInt8)) (b : BinaryAnnotation (List UInt8)) : DBBinaryAnnotation :=
  ⟨x.id, x.traceId, x.name, (b.host.map Endpoint.serviceName).getD "Unknown service name", b.key, b.value,
    b.annotationType.value, b.host.map Endpoint.ipv4, b.host.map (fun h => h.port.toInt)⟩

theorem host_map (h : Option Endpoint) (unknown : String) :
    host (h.map Endpoint.ipv4) (h.map (fun h => h.port.toInt)) ((h.map Endpoint.serviceName).getD unknown) = h := by
  cases h with
  | none => rfl
  | some h => simp [host]

/-- **An annotation is read as it was stored.** -/
theorem annotation_dbAnnotation (x : Span (List UInt8)) (a : Annotation) :
    annotation (AnormSpanStore.dbAnnotation x a) = a := by
  unfold annotation dbAnnotation Annotation.serviceName
  dsimp only
  rw [host_map]

/-- The type that the value of a type stands for. -/
def Standard (t : AnnotationType) : Prop := AnnotationType.fromInt t.value = t

instance (t : AnnotationType) : Decidable (Standard t) := inferInstanceAs (Decidable (_ = _))

theorem standard_fromInt (v : Int32) : Standard (AnnotationType.fromInt v) := by
  unfold AnnotationType.fromInt
  cases hfind : [AnnotationType.bool, .bytes, .i16, .i32, .i64, .double, .string].find? (fun t => t.value == v) with
  | none => exact (by decide : Standard .string)
  | some t =>
    have hall : ∀ t ∈ [AnnotationType.bool, .bytes, .i16, .i32, .i64, .double, .string], Standard t := by decide
    exact hall t (List.mem_of_find?_eq_some hfind)

theorem binaryAnnotation_dbBinaryAnnotation (x : Span (List UInt8)) (b : BinaryAnnotation (List UInt8)) :
    binaryAnnotation (AnormSpanStore.dbBinaryAnnotation x b) =
      { b with annotationType := .fromInt b.annotationType.value } := by
  unfold binaryAnnotation dbBinaryAnnotation
  dsimp only
  rw [host_map]

theorem contains_singleton {id : Int64} : [traceId].contains id = true ↔ id = traceId := by
  rw [List.contains_iff_mem, List.mem_singleton]

theorem debug_pos (debug : Bool) : decide ((if debug then 1 else 0 : Int) > 0) = debug := by
  cases debug <;> rfl

theorem mem_spans {r : DBSpan} :
    r ∈ spans order (tablesOf stored) [traceId] ↔ ∃ x ∈ stored, x.traceId = traceId ∧ dbSpan x = r := by
  simp only [spans, List.mem_map, mem_selectDistinct, contains_singleton, tablesOf]
  constructor
  · rintro ⟨_, ⟨_, ⟨x, hx, rfl⟩, htrace, rfl⟩, rfl⟩
    exact ⟨x, hx, htrace, congrArg (DBSpan.mk _ _ _ _) (debug_pos x.debug).symm⟩
  · rintro ⟨x, hx, htrace, rfl⟩
    exact ⟨_, ⟨_, ⟨x, hx, rfl⟩, htrace, rfl⟩, congrArg (DBSpan.mk _ _ _ _) (debug_pos x.debug)⟩

theorem nodup_spans : (spans order (tablesOf stored) [traceId]).Nodup := by
  refine List.Nodup.map_on (fun r hr r' hr' heq => ?_) nodup_selectDistinct
  obtain ⟨_, hx, -, rfl⟩ := mem_selectDistinct.1 hr
  obtain ⟨_, hx', -, rfl⟩ := mem_selectDistinct.1 hr'
  obtain ⟨x, -, rfl⟩ := List.mem_map.1 hx
  obtain ⟨x', -, rfl⟩ := List.mem_map.1 hx'
  simp only [spanRow, DBSpan.mk.injEq] at heq
  obtain ⟨hid, hparent, htrace, hname, hdebug⟩ := heq
  have hsame : x.debug = x'.debug := (debug_pos x.debug).symm.trans (hdebug.trans (debug_pos x'.debug))
  simp only [spanRow, hid, hparent, htrace, hname, hsame]

theorem mem_annos {d : DBAnnotation} : d ∈ annos order (tablesOf stored) [traceId] ↔
    ∃ x ∈ stored, x.traceId = traceId ∧ ∃ a ∈ x.annotations, dbAnnotation x a = d := by
  rw [annos, (sorted_perm _ _).mem_iff]
  exact mem_selectDistinct_items (g := annotationRow) (p := fun r => [traceId].contains r.trace_id)
    (fun _ _ => contains_singleton)

theorem nodup_annos : (annos order (tablesOf stored) [traceId]).Nodup :=
  (sorted_perm _ _).nodup_iff.2 nodup_selectDistinct

theorem mem_binAnnos {d : DBBinaryAnnotation} : d ∈ binAnnos order (tablesOf stored) [traceId] ↔
    ∃ x ∈ stored, x.traceId = traceId ∧ ∃ b ∈ x.binaryAnnotations, dbBinaryAnnotation x b = d :=
  mem_selectDistinct_items (g := binaryAnnotationRow) (p := fun r => [traceId].contains r.trace_id)
    (fun _ _ => contains_singleton)

theorem nodup_binAnnos : (binAnnos order (tablesOf stored) [traceId]).Nodup := nodup_selectDistinct

/-! ## The join -/

/-- The parts of a span that were stored. -/
def parts (stored : List (Span (List UInt8))) (traceId id : Int64) : List (Span (List UInt8)) :=
  stored.filter fun x => x.traceId == traceId && x.id == id

theorem mem_parts {id : Int64} {x : Span (List UInt8)} : x ∈ parts stored traceId id ↔
    x ∈ stored ∧ x.traceId = traceId ∧ x.id = id := by
  simp only [parts, List.mem_filter, Bool.and_eq_true, beq_iff_eq]

def rowsOf (order : RowOrder) (stored : List (Span (List UInt8))) (traceId id : Int64) : List DBSpan :=
  (spans order (tablesOf stored) [traceId]).filter fun r => r.spanId == id

/-- What is joined to a row. -/
def readAnnotations (order : RowOrder) (stored : List (Span (List UInt8))) (traceId : Int64) (r : DBSpan) : List Annotation :=
  ((annos order (tablesOf stored) [traceId]).filter
    (fun a => a.traceId == r.traceId && a.spanId == r.spanId && a.spanName == r.spanName)).map annotation

def readBinaryAnnotations (order : RowOrder) (stored : List (Span (List UInt8))) (traceId : Int64) (r : DBSpan) :
    List (Zipkin.BinaryAnnotation (List UInt8)) :=
  ((binAnnos order (tablesOf stored) [traceId]).filter
    (fun a => a.traceId == r.traceId && a.spanId == r.spanId && a.spanName == r.spanName)).map binaryAnnotation

theorem mem_rowsOf {id : Int64} {r : DBSpan} :
    r ∈ rowsOf order stored traceId id ↔ ∃ x ∈ parts stored traceId id, dbSpan x = r := by
  simp only [rowsOf, List.mem_filter, mem_spans, beq_iff_eq, mem_parts]
  constructor
  · rintro ⟨⟨x, hx, htrace, rfl⟩, hid⟩
    exact ⟨x, ⟨hx, htrace, hid⟩, rfl⟩
  · rintro ⟨x, ⟨hx, htrace, hid⟩, rfl⟩
    exact ⟨⟨x, hx, htrace, rfl⟩, hid⟩

def annotationFound (r : DBSpan) (a : DBAnnotation) : Bool :=
  a.traceId == r.traceId && a.spanId == r.spanId && a.spanName == r.spanName

def binaryAnnotationFound (r : DBSpan) (b : DBBinaryAnnotation) : Bool :=
  b.traceId == r.traceId && b.spanId == r.spanId && b.spanName == r.spanName

/-! Annotations and binary annotations are read in one way: entries of a table that have the ids and the name of a row. -/

section Joined
variable {δ α : Type} {table : List δ} {entry : Span (List UInt8) → α → δ} {items : Span (List UInt8) → List α}
  {found : DBSpan → δ → Bool} {f : δ → α}
  (htable : ∀ d, d ∈ table ↔ ∃ x ∈ stored, x.traceId = traceId ∧ ∃ a ∈ items x, entry x a = d)
  (hfound : ∀ r x a, found r (entry x a) = true ↔ (x.traceId = r.traceId ∧ x.id = r.spanId) ∧ x.name = r.spanName)
include htable hfound

theorem mem_joined {id : Int64} {r : DBSpan} (hr : r ∈ rowsOf order stored traceId id) {a : α} :
    a ∈ (table.filter (found r)).map f ↔
      ∃ x ∈ parts stored traceId id, (dbSpan x).spanName = r.spanName ∧ a ∈ (items x).map fun a => f (entry x a) := by
  obtain ⟨y, hy, rfl⟩ := mem_rowsOf.1 hr
  obtain ⟨-, hytrace, hyid⟩ := mem_parts.1 hy
  simp only [List.mem_map, List.mem_filter, htable, mem_parts]
  constructor
  · rintro ⟨_, ⟨⟨x, hx, htrace, a, ha, rfl⟩, hjoined⟩, rfl⟩
    obtain ⟨⟨-, hid⟩, hname⟩ := (hfound _ x a).1 hjoined
    exact ⟨x, ⟨hx, htrace, hid.trans hyid⟩, hname, a, ha, rfl⟩
  · rintro ⟨x, ⟨hx, htrace, hid⟩, hname, a, ha, rfl⟩
    have hjoined := (hfound (dbSpan y) x a).2 ⟨⟨htrace.trans hytrace.symm, hid.trans hyid.symm⟩, hname⟩
    exact ⟨entry x a, ⟨⟨x, hx, htrace, a, ha, rfl⟩, hjoined⟩, rfl⟩

theorem nodup_joined (hnodup : table.Nodup)
    (hitem : ∀ x ∈ stored, x.traceId = traceId → ∀ a ∈ items x, f (entry x a) = a)
    (hentry : ∀ x y a, x.id = y.id → x.traceId = y.traceId → x.name = y.name → entry x a = entry y a) (r : DBSpan) :
    ((table.filter (found r)).map f).Nodup := by
  refine List.Nodup.map_on (fun d hd d' hd' heq => ?_) (hnodup.filter _)
  rw [List.mem_filter, htable] at hd hd'
  obtain ⟨⟨x, hx, hxtrace, a, ha, rfl⟩, hjoined⟩ := hd
  obtain ⟨⟨y, hy, hytrace, b, hb, rfl⟩, hjoined'⟩ := hd'
  obtain ⟨⟨-, hid⟩, hname⟩ := (hfound r x a).1 hjoined
  obtain ⟨⟨-, hid'⟩, hname'⟩ := (hfound r y b).1 hjoined'
  rw [hitem x hx hxtrace a ha, hitem y hy hytrace b hb] at heq
  rw [heq]
  exact hentry x y b (hid.trans hid'.symm) (hxtrace.trans hytrace.symm) (hname.trans hname'.symm)

end Joined

theorem dbAnnotation_found (r : DBSpan) (x : Span (List UInt8)) (a : Annotation) :
    annotationFound r (AnormSpanStore.dbAnnotation x a) = true ↔
      (x.traceId = r.traceId ∧ x.id = r.spanId) ∧ x.name = r.spanName := by
  rw [annotationFound, Bool.and_eq_true, Bool.and_eq_true, beq_iff_eq, beq_iff_eq, beq_iff_eq]
  rfl

theorem mem_readAnnotations {id : Int64} {r : DBSpan} (hr : r ∈ rowsOf order stored traceId id) {a : Annotation} :
    a ∈ readAnnotations order stored traceId r ↔
      ∃ x ∈ parts stored traceId id, (dbSpan x).spanName = r.spanName ∧ a ∈ x.annotations := by
  refine (mem_joined (f := annotation) (fun _ => mem_annos) dbAnnotation_found hr).trans ?_
  simp only [AnormSpanStore.annotation_dbAnnotation, List.map_id']

theorem nodup_readAnnotations (r : DBSpan) : (readAnnotations order stored traceId r).Nodup :=
  nodup_joined (fun _ => mem_annos) dbAnnotation_found nodup_annos (fun x _ _ a _ => annotation_dbAnnotation x a)
    (fun x y a hid htrace hname => by rw [AnormSpanStore.dbAnnotation, dbAnnotation, hid, htrace, hname]) r

/-- The binary annotation as it is read. -/
def again (b : BinaryAnnotation (List UInt8)) : BinaryAnnotation (List UInt8) :=
  { b with annotationType := .fromInt b.annotationType.value }

theorem dbBinaryAnnotation_found (r : DBSpan) (x : Span (List UInt8)) (b : BinaryAnnotation (List UInt8)) :
    binaryAnnotationFound r (AnormSpanStore.dbBinaryAnnotation x b) = true ↔
      (x.traceId = r.traceId ∧ x.id = r.spanId) ∧ x.name = r.spanName := by
  rw [binaryAnnotationFound, Bool.and_eq_true, Bool.and_eq_true, beq_iff_eq, beq_iff_eq, beq_iff_eq]
  rfl

theorem mem_readBinaryAnnotations {id : Int64} {r : DBSpan} (hr : r ∈ rowsOf order stored traceId id)
    {b : BinaryAnnotation (List UInt8)} : b ∈ readBinaryAnnotations order stored traceId r ↔
      ∃ x ∈ parts stored traceId id, (dbSpan x).spanName = r.spanName ∧ b ∈ x.binaryAnnotations.map again := by
  refine (mem_joined (f := binaryAnnotation) (fun _ => mem_binAnnos) dbBinaryAnnotation_found hr).trans ?_
  simp only [AnormSpanStore.binaryAnnotation_dbBinaryAnnotation]
  rfl

/-- All binary annotations of the trace have types that are read as they were stored. -/
def AllStandard (stored : List (Span (List UInt8))) (traceId : Int64) : Prop :=
  ∀ x ∈ stored, x.traceId = traceId → ∀ b ∈ x.binaryAnnotations, Standard b.annotationType

theorem map_again {x : Span (List UInt8)} (h : ∀ b ∈ x.binaryAnnotations, Standard b.annotationType) :
    x.binaryAnnotations.map again = x.binaryAnnotations := by
  refine (List.map_congr_left (fun b hb => ?_)).trans (List.map_id _)
  rw [again, h b hb]
  rfl

theorem nodup_readBinaryAnnotations (hstandard : AllStandard stored traceId) (r : DBSpan) :
    (readBinaryAnnotations order stored traceId r).Nodup := by
  refine nodup_joined (fun _ => mem_binAnnos) dbBinaryAnnotation_found nodup_binAnnos (fun x hx htrace b hb => ?_)
    (fun x y b hid htrace hname => by rw [AnormSpanStore.dbBinaryAnnotation, dbBinaryAnnotation, hid, htrace, hname]) r
  rw [AnormSpanStore.binaryAnnotation_dbBinaryAnnotation, hstandard x hx htrace b hb]

/-- **The annotations are joined to the distinct rows by the name.** -/
theorem isJoin_annotations (order : RowOrder) (stored : List (Span (List UInt8))) (traceId id : Int64) :
    Join.IsJoin dbSpan DBSpan.spanName Span.annotations (parts stored traceId id) (rowsOf order stored traceId id)
      (readAnnotations order stored traceId) where
  nodup_rows := nodup_spans.filter _
  mem_rows _ := mem_rowsOf
  nodup_under r _ := nodup_readAnnotations r
  mem_under _ hr _ := mem_readAnnotations hr

theorem isJoin_binaryAnnotations (order : RowOrder) (hstandard : AllStandard stored traceId) (id : Int64) :
    Join.IsJoin dbSpan DBSpan.spanName Span.binaryAnnotations (parts stored traceId id) (rowsOf order stored traceId id)
      (readBinaryAnnotations order stored traceId) where
  nodup_rows := nodup_spans.filter _
  mem_rows _ := mem_rowsOf
  nodup_under r _ := nodup_readBinaryAnnotations hstandard r
  mem_under _ hr b := by
    rw [mem_readBinaryAnnotations hr]
    refine exists_congr (fun x => and_congr_right (fun hx => ?_))
    obtain ⟨hx, htrace, -⟩ := mem_parts.1 hx
    rw [map_again (hstandard x hx htrace)]

/-! ## The merged span -/

/-- Each annotation and each binary annotation that was stored for a span of the trace occurs in it once, and no other. -/
def MergesExactly (ord : HashOrder (List UInt8)) (order : RowOrder) (t : SpanTables) (stored : List (Span (List UInt8)))
    (traceId : Int64) : Prop :=
  ∀ x ∈ stored, x.traceId = traceId →
    ∃ s ∈ (⟨(getSpansByTraceIds order t [traceId]).flatten⟩ : Trace (List UInt8)).spans ord, s.id = x.id ∧
      s.annotations.Nodup ∧ (∀ a, a ∈ s.annotations ↔ ∃ y ∈ parts stored traceId x.id, a ∈ y.annotations) ∧
      s.binaryAnnotations.Nodup ∧
      ∀ b, b ∈ s.binaryAnnotations ↔ ∃ y ∈ parts stored traceId x.id, b ∈ y.binaryAnnotations

theorem flatten_getSpansByTraceIds_perm (t : SpanTables) (traceIds : List Int64) :
    (getSpansByTraceIds order t traceIds).flatten.Perm (results order t traceIds) := by
  rw [getSpansByTraceIds]
  refine ((sorted_perm _ _).trans (order.values_perm _)).flatten.trans ?_
  rw [List.flatten_eq_flatMap, List.flatMap_map]
  exact flatMap_addBindings_perm Span.traceId _

/-- **A merged span has what is joined to its rows.** -/
theorem of_mem_spans {ord : HashOrder (List UInt8)} {s : Span (List UInt8)}
    (hs : s ∈ (⟨(getSpansByTraceIds order (tablesOf stored) [traceId]).flatten⟩ : Trace (List UInt8)).spans ord) :
    s.annotations.Perm ((rowsOf order stored traceId s.id).flatMap (readAnnotations order stored traceId)) ∧
      s.binaryAnnotations.Perm
        ((rowsOf order stored traceId s.id).flatMap (readBinaryAnnotations order stored traceId)) := by
  have hmerge := mergeOf_spans ord hs
  have hparts : (partsOf (getSpansByTraceIds order (tablesOf stored) [traceId]).flatten s.id).Perm
      ((rowsOf order stored traceId s.id).map
        (result (annos order (tablesOf stored) [traceId]) (binAnnos order (tablesOf stored) [traceId]))) := by
    refine ((flatten_getSpansByTraceIds_perm _ _).filter _).trans (.of_eq ?_)
    rw [results, List.filter_map]
    rfl
  refine ⟨hmerge.annotations.trans ((hparts.flatMap_right _).trans ?_), ?_⟩
  · rw [List.flatMap_map]
    exact List.Perm.flatMap_left _ (fun r _ => sorted_perm _ _)
  · rw [hmerge.binaryAnnotations]
    refine (hparts.flatMap_right _).trans (.of_eq ?_)
    rw [List.flatMap_map]
    rfl

variable (order) in
theorem exists_mem_spans (ord : HashOrder (List UInt8)) {x : Span (List UInt8)} (hx : x ∈ stored)
    (htrace : x.traceId = traceId) :
    ∃ s ∈ (⟨(getSpansByTraceIds order (tablesOf stored) [traceId]).flatten⟩ : Trace (List UInt8)).spans ord, s.id = x.id := by
  have hresult : result (annos order (tablesOf stored) [traceId]) (binAnnos order (tablesOf stored) [traceId]) (dbSpan x) ∈
      (getSpansByTraceIds order (tablesOf stored) [traceId]).flatten := by
    rw [(flatten_getSpansByTraceIds_perm _ _).mem_iff, results]
    exact List.mem_map_of_mem (mem_spans.2 ⟨x, hx, htrace, rfl⟩)
  obtain ⟨s, hs, hid⟩ := exists_span_of_part ord hresult
  exact ⟨s, hs, hid⟩

/-- Parts with one name, of which one has something to join, agree in the parent and in `debug`; and parts with different
names have nothing in common. -/
structure Separate (x y : Span (List UInt8)) : Prop where
  row : x.annotations ≠ [] ∨ x.binaryAnnotations ≠ [] → x.name = y.name → x.parentId = y.parentId ∧ x.debug = y.debug
  annotations : ∀ a ∈ x.annotations, a ∈ y.annotations → x.name = y.name
  binaryAnnotations : ∀ b ∈ x.binaryAnnotations, b ∈ y.binaryAnnotations → x.name = y.name

theorem dbSpan_eq_iff {x y : Span (List UInt8)} (hid : x.id = y.id) (htrace : x.traceId = y.traceId)
    (hname : x.name = y.name) : dbSpan x = dbSpan y ↔ x.parentId = y.parentId ∧ x.debug = y.debug := by
  simp only [dbSpan, DBSpan.mk.injEq, hid, htrace, hname, true_and]

variable (order) in
/-- Nothing is joined twice to the rows of a span exactly when its parts are separate. -/
theorem nodup_joined_iff (hstandard : AllStandard stored traceId) (id : Int64) :
    (((rowsOf order stored traceId id).flatMap (readAnnotations order stored traceId)).Nodup ∧
      ((rowsOf order stored traceId id).flatMap (readBinaryAnnotations order stored traceId)).Nodup) ↔
      ∀ x ∈ parts stored traceId id, ∀ y ∈ parts stored traceId id, Separate x y := by
  rw [(isJoin_annotations order stored traceId id).nodup_flatMap_iff,
    (isJoin_binaryAnnotations order hstandard id).nodup_flatMap_iff]
  have hrow : ∀ x ∈ parts stored traceId id, ∀ y ∈ parts stored traceId id, x.name = y.name →
      (dbSpan x = dbSpan y ↔ x.parentId = y.parentId ∧ x.debug = y.debug) := fun x hx y hy hname => by
    obtain ⟨-, htrace, hid⟩ := mem_parts.1 hx
    obtain ⟨-, htrace', hid'⟩ := mem_parts.1 hy
    exact dbSpan_eq_iff (hid.trans hid'.symm) (htrace.trans htrace'.symm) hname
  constructor
  · rintro ⟨ha, hb⟩ x hx y hy
    refine ⟨?_, (ha x hx y hy).2, (hb x hx y hy).2⟩
    rintro (hne | hne) hname
    · exact (hrow x hx y hy hname).1 ((ha x hx y hy).1 hne hname)
    · exact (hrow x hx y hy hname).1 ((hb x hx y hy).1 hne hname)
  · intro hseparate
    refine ⟨fun x hx y hy => ⟨fun hne hname => ?_, (hseparate x hx y hy).annotations⟩,
      fun x hx y hy => ⟨fun hne hname => ?_, (hseparate x hx y hy).binaryAnnotations⟩⟩
    · exact (hrow x hx y hy hname).2 ((hseparate x hx y hy).row (Or.inl hne) hname)
    · exact (hrow x hx y hy hname).2 ((hseparate x hx y hy).row (Or.inr hne) hname)

theorem standard_of_mem_readBinaryAnnotations {r : DBSpan} {b : BinaryAnnotation (List UInt8)}
    (hb : b ∈ readBinaryAnnotations order stored traceId r) : Standard b.annotationType := by
  obtain ⟨d, -, rfl⟩ := List.mem_map.1 hb
  exact standard_fromInt _

/-- **When nothing is lost and nothing is multiplied**: the types of binary annotations are known ones, and the parts of
each span are separate. -/
theorem mergesExactly_iff (ord : HashOrder (List UInt8)) (order : RowOrder) (isSQLRecoverableException : Throwable → Bool)
    (stored : List (Span (List UInt8))) (traceId : Int64) :
    ∃ t, exec (apply (fun _ => none) isSQLRecoverableException stored) {} = (.ok (), t) ∧
      (MergesExactly ord order t stored traceId ↔ AllStandard stored traceId ∧
        ∀ id, ∀ x ∈ parts stored traceId id, ∀ y ∈ parts stored traceId id, Separate x y) := by
  refine ⟨_, exec_apply stored, ?_, ?_⟩
  · intro hexact
    have hstandard : AllStandard stored traceId := fun x hx htrace b hb => by
      obtain ⟨s, hs, hid, -, -, -, hmem⟩ := hexact x hx htrace
      have hbs := (hmem b).2 ⟨x, mem_parts.2 ⟨hx, htrace, rfl⟩, hb⟩
      obtain ⟨r, -, hr⟩ := List.mem_flatMap.1 ((of_mem_spans hs).2.mem_iff.1 hbs)
      exact standard_of_mem_readBinaryAnnotations hr
    refine ⟨hstandard, fun id x hx => ?_⟩
    obtain ⟨hstored, htrace, rfl⟩ := mem_parts.1 hx
    obtain ⟨s, hs, hid, hnodup, -, hnodup', -⟩ := hexact x hstored htrace
    obtain ⟨hperm, hperm'⟩ := of_mem_spans hs
    rw [hid] at hperm hperm'
    exact (nodup_joined_iff order hstandard x.id).1 ⟨hperm.nodup_iff.1 hnodup, hperm'.nodup_iff.1 hnodup'⟩ x hx
  · rintro ⟨hstandard, hseparate⟩ x hx htrace
    obtain ⟨s, hs, hid⟩ := exists_mem_spans order ord hx htrace
    obtain ⟨hperm, hperm'⟩ := of_mem_spans hs
    rw [hid] at hperm hperm'
    obtain ⟨hnodup, hnodup'⟩ := (nodup_joined_iff order hstandard x.id).2 (hseparate x.id)
    refine ⟨s, hs, hid, hperm.nodup_iff.2 hnodup, fun a => ?_, hperm'.nodup_iff.2 hnodup', fun b => ?_⟩
    · rw [hperm.mem_iff]
      exact (isJoin_annotations order stored traceId x.id).mem_flatMap
    · rw [hperm'.mem_iff]
      exact (isJoin_binaryAnnotations order hstandard x.id).mem_flatMap

/-- The client's part of a call knows the parent, and the server's part does not. -/
def clientAndServer : List (Span (List UInt8)) :=
  [.apply 1 "get" 2 (some 1) [⟨10, "cs", some ⟨0, 80, "web"⟩⟩] [], .apply 1 "get" 2 none [⟨12, "sr", some ⟨0, 80, "db"⟩⟩] []]

/-- Each annotation comes back twice. -/
theorem not_mergesExactly_clientAndServer :
    ∃ t, exec (apply (fun _ => none) (fun _ => false) clientAndServer) {} = (.ok (), t) ∧
      ¬ MergesExactly (HashOrder.insertion _) .insertion t clientAndServer 1 := by
  refine ⟨_, exec_apply clientAndServer, fun h => ?_⟩
  obtain ⟨s, hs, -, hnodup, -⟩ := h _ List.mem_cons_self rfl
  have hspans : (⟨(getSpansByTraceIds .insertion (tablesOf clientAndServer) [1]).flatten⟩ : Trace _).spans
      (HashOrder.insertion _) = [.apply 1 "get" 2 (some 1) [⟨10, "cs", some ⟨0, 80, "web"⟩⟩,
        ⟨10, "cs", some ⟨0, 80, "web"⟩⟩, ⟨12, "sr", some ⟨0, 80, "db"⟩⟩, ⟨12, "sr", some ⟨0, 80, "db"⟩⟩] []] := by
    decide +kernel
  rw [hspans, List.mem_singleton] at hs
  rw [hs] at hnodup
  revert hnodup
  decide +kernel

end AnormSpanStore
end Zipkin
