import Zipkin.AnormQueries
/-!
# AnormFound — traces that are looked for and read, whatever was stored

`getTraceIds_answers_iff`: when a query is answered whatever order the rows come in.  A trace that is found is there to be
read, with all that was stored of it.
-/
namespace Zipkin
namespace AnormSpanStore

open Effect Transaction AssocMap StableSort Groups SpanBuffer

variable {isSQLRecoverableException : Throwable → Bool} {stored : List (Span (List UInt8))}

/-! ## When a query is answered -/

/-- The query reads `created_ts`. -/
def ReadsCreatedTs : IdQuery → Prop
  | .byAnnotated _ _ (some _) => True
  | _ => False

/-- A query fails for a null in `created_ts` only, and else each trace that it finds is in the answer once, as many as the
limit allows. -/
theorem getTraceIds_cases (order : RowOrder) (nullFound : Throwable) (endTs limit : Int) (q : IdQuery) :
    (getTraceIds order nullFound (tablesOf stored) endTs limit q = .error nullFound ∧ ReadsCreatedTs q ∧
      ¬ NoneUntimed stored endTs q) ∨ ∃ answer,
        getTraceIds order nullFound (tablesOf stored) endTs limit q = .ok answer ∧ Answers stored endTs limit q answer := by
  rcases q with ⟨serviceName, spanName⟩ | ⟨serviceName, annotation, _ | bytes⟩
  · exact Or.inr (getTraceIdsByName_answers order nullFound stored endTs limit serviceName spanName)
  · exact Or.inr (getTraceIdsByAnnotation_answers order nullFound stored endTs limit serviceName annotation)
  · exact (getTraceIdsByAnnotation_cases order nullFound stored endTs limit serviceName annotation bytes).imp_left
      fun ⟨herror, huntimed⟩ => ⟨herror, trivial, huntimed⟩

theorem run_eq (isSQLRecoverableException : Throwable → Bool) (calls : List StoreCall) :
    (runCalls isSQLRecoverableException calls {}).2 = tablesOf (runCalls isSQLRecoverableException calls {}).1 := by
  have htables := tablesOf_run isSQLRecoverableException calls []
  rwa [List.nil_append] at htables

theorem ne_spanRow : Int64 ≠ SpanRow := fun heq => by
  have hinfinite : Infinite SpanRow := .of_injective (fun n : Int => (⟨0, none, 0, "", n, none⟩ : SpanRow))
    fun a b h => congrArg SpanRow.debug h
  have hfinite : Finite Int64 := .of_injective (fun n : Int64 => n.toBitVec.toFin)
    fun a b h => Int64.toBitVec_inj.1 (BitVec.eq_of_toFin_eq h)
  exact hinfinite.not_finite (heq ▸ hfinite)

theorem head?_append_of_eq {ρ : Type} {r : ρ} {l l' : List ρ} (hmem : r ∈ l) (h : ∀ r' ∈ l, r' = r) :
    (l ++ l').head? = some r := by
  cases l with
  | nil => exact (List.not_mem_nil hmem).elim
  | cons a l => exact congrArg some (h a List.mem_cons_self)

def IsFirst (id : Int64) (row : SpanRow) {ρ : Type} (r : ρ) : Prop :=
  (∃ h : Int64 = ρ, h ▸ id = r) ∨ ∃ h : SpanRow = ρ, h ▸ row = r

/-- An order in which an id and a row come first. -/
theorem exists_order (id : Int64) (row : SpanRow) : ∃ order : RowOrder,
    (∀ ids, id ∈ ids → (order.rows ids).head? = some id) ∧ ∀ rows, row ∈ rows → (order.rows rows).head? = some row := by
  classical
  refine ⟨{ RowOrder.insertion with
    rows := fun l => l.filter (fun r => decide (IsFirst id row r)) ++ l.filter (fun r => !decide (IsFirst id row r))
    rows_perm := fun l => List.filter_append_perm _ l }, fun ids hid => ?_, fun rows hrow => ?_⟩
  · refine head?_append_of_eq (List.mem_filter.2 ⟨hid, decide_eq_true (Or.inl ⟨rfl, rfl⟩)⟩) fun id' hid' => ?_
    rcases of_decide_eq_true (List.mem_filter.1 hid').2 with ⟨_, heq⟩ | ⟨heq, -⟩
    · exact heq.symm
    · exact absurd heq.symm ne_spanRow
  · refine head?_append_of_eq (List.mem_filter.2 ⟨hrow, decide_eq_true (Or.inr ⟨rfl, rfl⟩)⟩) fun row' hrow' => ?_
    rcases of_decide_eq_true (List.mem_filter.1 hrow').2 with ⟨heq, -⟩ | ⟨_, heq⟩
    · exact absurd heq ne_spanRow
    · exact heq.symm

/-- **A span without annotations** can make a query fail that finds its trace. -/
theorem exists_order_error (nullFound : Throwable) {endTs limit : Int} {serviceName annotation : String} {bytes : List UInt8}
    {x y : Span (List UInt8)} (hx : x ∈ stored)
    (hy : y ∈ matching stored endTs (.byAnnotated serviceName annotation (some bytes)))
    (htrace : y.traceId = x.traceId) (hnone : x.annotations = []) (hlimit : 0 < limit) : ∃ order : RowOrder,
      getTraceIds order nullFound (tablesOf stored) endTs limit (.byAnnotated serviceName annotation (some bytes)) =
        .error nullFound := by
  obtain ⟨order, hids, hrows⟩ := exists_order x.traceId (spanRow x)
  refine ⟨order, ?_⟩
  obtain ⟨-, hmatches⟩ := List.mem_filter.1 hy
  rw [matchesQuery, Bool.and_eq_true, Bool.and_eq_true, Bool.and_eq_true, decide_eq_true_iff, Bool.not_eq_true'] at hmatches
  obtain ⟨⟨⟨hend, hcore⟩, -⟩, -⟩ := hmatches
  have hperm := selectDistinct_foundByKey order stored endTs serviceName bytes hend hcore
  have hfound : x.traceId ∈ selectDistinct order (tablesOf stored).zipkin_binary_annotations
      (foundByKey serviceName annotation bytes endTs) BinaryAnnotationRow.trace_id :=
    hperm.mem_iff.2 (List.mem_dedup.2 (htrace ▸ List.mem_map_of_mem hy))
  -- the id is taken, since it comes first
  have htaken : x.traceId ∈ (selectDistinct order (tablesOf stored).zipkin_binary_annotations
      (foundByKey serviceName annotation bytes endTs) BinaryAnnotationRow.trace_id).take limit.toNat := by
    have hhead := hids _ ((order.rows_perm _).mem_iff.1 hfound)
    obtain ⟨rest, hrest⟩ := List.head?_eq_some_iff.1 hhead
    rw [selectDistinct, hrest]
    obtain ⟨n, hn⟩ := Nat.exists_eq_succ_of_ne_zero (Int.lt_toNat.2 hlimit).ne'
    rw [hn, List.take_succ_cons]
    exact List.mem_cons_self
  have hasked : ¬ (Constants.CoreAnnotations.contains annotation = true ∨ endTs ≤ 0 ∨ limit ≤ 0) := by
    rw [hcore]
    exact not_or.2 ⟨Bool.false_ne_true, not_or.2 ⟨not_le.2 hend, not_le.2 hlimit⟩⟩
  unfold getTraceIds getTraceIdsByAnnotation
  dsimp only
  rw [if_neg hasked]
  refine mapM_indexedTraceId_none ?_
  -- and so does its row in the group
  have hjoined : spanRow x ∈ innerJoin SpanRow.trace_id (tablesOf stored).zipkin_spans
      ((selectDistinct order (tablesOf stored).zipkin_binary_annotations (foundByKey serviceName annotation bytes endTs)
        BinaryAnnotationRow.trace_id).take limit.toNat) :=
    mem_innerJoin.2 ⟨mem_zipkin_spans.2 ⟨x, hx, rfl⟩, htaken⟩
  refine ⟨(x.traceId, anyCreatedTs order ((innerJoin SpanRow.trace_id (tablesOf stored).zipkin_spans
    ((selectDistinct order (tablesOf stored).zipkin_binary_annotations (foundByKey serviceName annotation bytes endTs)
      BinaryAnnotationRow.trace_id).take limit.toNat)).filter fun r => decide (r.trace_id = x.traceId))), ?_, ?_⟩
  · refine List.mem_map.2 ⟨(x.traceId, _), (order.rows_perm _).mem_iff.2 (List.mem_map.2 ⟨x.traceId, ?_, rfl⟩), rfl⟩
    exact List.mem_dedup.2 (List.mem_map.2 ⟨spanRow x, hjoined, rfl⟩)
  · dsimp only
    rw [anyCreatedTs, hrows _ (List.mem_filter.2 ⟨hjoined, decide_eq_true rfl⟩), Option.bind_some]
    exact firstTimestamp_eq_none_iff.2 hnone

/-- **When a query is answered**, in whatever order the rows come, after whatever calls: exactly if it does not read
`created_ts`, or no trace that it finds has a span without annotations, or nothing is asked for.  Each trace is then in the
answer once, as many as the limit allows. -/
theorem getTraceIds_answers_iff (isSQLRecoverableException : Throwable → Bool) (calls : List StoreCall)
    (nullFound : Throwable)
    (endTs limit : Int) (q : IdQuery) :
    (∀ order, ∃ answer,
      getTraceIds order nullFound (runCalls isSQLRecoverableException calls {}).2 endTs limit q = .ok answer ∧
        Answers (runCalls isSQLRecoverableException calls {}).1 endTs limit q answer) ↔
      (ReadsCreatedTs q → 0 < limit → NoneUntimed (runCalls isSQLRecoverableException calls {}).1 endTs q) := by
  rw [run_eq]
  constructor
  · intro hall hreads hlimit x hx y hy htrace hnone
    rcases q with ⟨_, _⟩ | ⟨serviceName, annotation, _ | bytes⟩
    · exact hreads
    · exact hreads
    · obtain ⟨order, herror⟩ := exists_order_error nullFound hx hy htrace hnone hlimit
      obtain ⟨answer, hok, -⟩ := hall order
      cases herror.symm.trans hok
  · intro h order
    rcases lt_or_ge 0 limit with hlimit | hlimit
    · exact (getTraceIds_cases order nullFound endTs limit q).resolve_left fun ⟨_, hreads, huntimed⟩ =>
        huntimed (h hreads hlimit)
    · refine ⟨[], ?_, answers_nil (Or.inl hlimit)⟩
      cases q with
      | byName serviceName spanName => exact if_pos (Or.inr hlimit)
      | byAnnotated serviceName annotation value => exact if_pos (Or.inr (Or.inr hlimit))

/-! ## Reading what is found -/

/-- The span of a row: what a part has and its annotations. -/
structure IsPart (x s : Span (List UInt8)) : Prop where
  id_eq : s.id = x.id
  traceId_eq : s.traceId = x.traceId
  name_eq : s.name = x.name
  parentId_eq : s.parentId = x.parentId
  debug_eq : s.debug = x.debug
  annotations : ∀ a ∈ x.annotations, a ∈ s.annotations
  binaryAnnotations : ∀ b ∈ x.binaryAnnotations, again b ∈ s.binaryAnnotations

/-- The spans of a trace: all that was stored for it, and nothing else. -/
structure IsTrace (stored : List (Span (List UInt8))) (trace : List (Span (List UInt8))) (id : Int64) : Prop where
  parts : ∀ x ∈ stored, x.traceId = id → ∃ s ∈ trace, IsPart x s
  of_stored : ∀ s ∈ trace, s.traceId = id ∧ (∃ x ∈ stored, IsPart x s) ∧
    (∀ a ∈ s.annotations, ∃ x ∈ stored, (x.traceId = s.traceId ∧ x.id = s.id ∧ x.name = s.name) ∧ a ∈ x.annotations) ∧
    ∀ b ∈ s.binaryAnnotations, ∃ x ∈ stored, (x.traceId = s.traceId ∧ x.id = s.id ∧ x.name = s.name) ∧
      b ∈ x.binaryAnnotations.map again

section Traces
variable {order : RowOrder} {traceIds : List Int64} {id : Int64}

theorem mem_spans_of_ids {r : DBSpan} : r ∈ spans order (tablesOf stored) traceIds ↔
    ∃ x ∈ stored, x.traceId ∈ traceIds ∧ dbSpan x = r := by
  simp only [spans, List.mem_map, mem_selectDistinct, List.contains_iff_mem, tablesOf]
  constructor
  · rintro ⟨_, ⟨_, ⟨x, hx, rfl⟩, htrace, rfl⟩, rfl⟩
    exact ⟨x, hx, htrace, congrArg (DBSpan.mk _ _ _ _) (debug_pos x.debug).symm⟩
  · rintro ⟨x, hx, htrace, rfl⟩
    exact ⟨_, ⟨_, ⟨x, hx, rfl⟩, htrace, rfl⟩, congrArg (DBSpan.mk _ _ _ _) (debug_pos x.debug)⟩

theorem mem_annos_of_ids {d : DBAnnotation} : d ∈ annos order (tablesOf stored) traceIds ↔
    ∃ x ∈ stored, x.traceId ∈ traceIds ∧ ∃ a ∈ x.annotations, dbAnnotation x a = d := by
  rw [annos, (sorted_perm _ _).mem_iff, mem_selectDistinct]
  simp only [mem_zipkin_annotations, List.contains_iff_mem]
  constructor
  · rintro ⟨_, ⟨x, hx, a, ha, rfl⟩, htrace, rfl⟩
    exact ⟨x, hx, htrace, a, ha, rfl⟩
  · rintro ⟨x, hx, htrace, a, ha, rfl⟩
    exact ⟨_, ⟨x, hx, a, ha, rfl⟩, htrace, rfl⟩

theorem mem_binAnnos_of_ids {d : DBBinaryAnnotation} : d ∈ binAnnos order (tablesOf stored) traceIds ↔
    ∃ x ∈ stored, x.traceId ∈ traceIds ∧ ∃ b ∈ x.binaryAnnotations, dbBinaryAnnotation x b = d := by
  rw [binAnnos, mem_selectDistinct]
  simp only [mem_zipkin_binary_annotations, List.contains_iff_mem]
  constructor
  · rintro ⟨_, ⟨x, hx, b, hb, rfl⟩, htrace, rfl⟩
    exact ⟨x, hx, htrace, b, hb, rfl⟩
  · rintro ⟨x, hx, htrace, b, hb, rfl⟩
    exact ⟨_, ⟨x, hx, b, hb, rfl⟩, htrace, rfl⟩

/-- The span of a row, as it is read. -/
abbrev resultOf (order : RowOrder) (stored : List (Span (List UInt8))) (traceIds : List Int64) (x : Span (List UInt8)) :
    Span (List UInt8) :=
  result (annos order (tablesOf stored) traceIds) (binAnnos order (tablesOf stored) traceIds) (dbSpan x)

theorem mem_results {s : Span (List UInt8)} : s ∈ results order (tablesOf stored) traceIds ↔
    ∃ x ∈ stored, x.traceId ∈ traceIds ∧ resultOf order stored traceIds x = s := by
  simp only [results, List.mem_map, mem_spans_of_ids]
  constructor
  · rintro ⟨_, ⟨x, hx, htrace, rfl⟩, rfl⟩
    exact ⟨x, hx, htrace, rfl⟩
  · rintro ⟨x, hx, htrace, rfl⟩
    exact ⟨_, ⟨x, hx, htrace, rfl⟩, rfl⟩

theorem isPart_resultOf {x : Span (List UInt8)} (hx : x ∈ stored) (htrace : x.traceId ∈ traceIds) :
    IsPart x (resultOf order stored traceIds x) where
  id_eq := rfl
  traceId_eq := rfl
  name_eq := rfl
  parentId_eq := rfl
  debug_eq := rfl
  annotations a ha := by
    refine (sorted_perm _ _).mem_iff.2 (List.mem_map.2 ⟨AnormSpanStore.dbAnnotation x a, List.mem_filter.2 ⟨?_, ?_⟩, ?_⟩)
    · exact mem_annos_of_ids.2 ⟨x, hx, htrace, a, ha, rfl⟩
    · exact (dbAnnotation_found (dbSpan x) x a).2 ⟨⟨rfl, rfl⟩, rfl⟩
    · exact annotation_dbAnnotation x a
  binaryAnnotations b hb := by
    refine List.mem_map.2 ⟨AnormSpanStore.dbBinaryAnnotation x b, List.mem_filter.2 ⟨?_, ?_⟩, ?_⟩
    · exact mem_binAnnos_of_ids.2 ⟨x, hx, htrace, b, hb, rfl⟩
    · exact (dbBinaryAnnotation_found (dbSpan x) x b).2 ⟨⟨rfl, rfl⟩, rfl⟩
    · exact binaryAnnotation_dbBinaryAnnotation x b

/-- Nothing is joined to a row that was not stored under its ids and its name. -/
theorem of_mem_annotations_resultOf {x : Span (List UInt8)} {a : Annotation}
    (ha : a ∈ (resultOf order stored traceIds x).annotations) :
    ∃ y ∈ stored, (y.traceId = x.traceId ∧ y.id = x.id ∧ y.name = x.name) ∧ a ∈ y.annotations := by
  obtain ⟨d, hd, rfl⟩ := List.mem_map.1 ((sorted_perm _ _).mem_iff.1 ha)
  obtain ⟨hd, hjoined⟩ := List.mem_filter.1 hd
  obtain ⟨y, hy, -, a, hmem, rfl⟩ := mem_annos_of_ids.1 hd
  obtain ⟨⟨htrace, hid⟩, hname⟩ := (dbAnnotation_found (dbSpan x) y a).1 hjoined
  refine ⟨y, hy, ⟨htrace, hid, hname⟩, ?_⟩
  rw [AnormSpanStore.annotation_dbAnnotation]
  exact hmem

theorem of_mem_binaryAnnotations_resultOf {x : Span (List UInt8)} {b : Zipkin.BinaryAnnotation (List UInt8)}
    (hb : b ∈ (resultOf order stored traceIds x).binaryAnnotations) :
    ∃ y ∈ stored, (y.traceId = x.traceId ∧ y.id = x.id ∧ y.name = x.name) ∧ b ∈ y.binaryAnnotations.map again := by
  obtain ⟨d, hd, rfl⟩ := List.mem_map.1 hb
  obtain ⟨hd, hjoined⟩ := List.mem_filter.1 hd
  obtain ⟨y, hy, -, b, hmem, rfl⟩ := mem_binAnnos_of_ids.1 hd
  obtain ⟨⟨htrace, hid⟩, hname⟩ := (dbBinaryAnnotation_found (dbSpan x) y b).1 hjoined
  refine ⟨y, hy, ⟨htrace, hid, hname⟩, List.mem_map.2 ⟨b, hmem, ?_⟩⟩
  rw [AnormSpanStore.binaryAnnotation_dbBinaryAnnotation]
  rfl

/-- **The spans of one id** are its trace. -/
theorem isTrace_filter (hid : id ∈ traceIds) :
    IsTrace stored ((results order (tablesOf stored) traceIds).filter fun s => decide (s.traceId = id)) id where
  parts x hx htrace := ⟨_, List.mem_filter.2 ⟨mem_results.2 ⟨x, hx, htrace ▸ hid, rfl⟩, decide_eq_true htrace⟩,
    isPart_resultOf hx (htrace ▸ hid)⟩
  of_stored s hs := by
    obtain ⟨hs, htrace⟩ := List.mem_filter.1 hs
    obtain ⟨x, hx, hmem, rfl⟩ := mem_results.1 hs
    exact ⟨of_decide_eq_true htrace, ⟨x, hx, isPart_resultOf hx hmem⟩, fun a ha => of_mem_annotations_resultOf ha,
      fun b hb => of_mem_binaryAnnotations_resultOf hb⟩

/-- **One list for each id** that has spans, with the spans of its trace. -/
theorem forall₂_getSpansByTraceIds (hnodup : traceIds.Nodup) (hstored : ∀ id ∈ traceIds, ∃ x ∈ stored, x.traceId = id) :
    ∃ ids, ids.Perm traceIds ∧ List.Forall₂ (IsTrace stored) (getSpansByTraceIds order (tablesOf stored) traceIds) ids := by
  let bindings := addBindings (fun s => some (Span.traceId s)) (results order (tablesOf stored) traceIds)
  have hbinding : ∀ e ∈ bindings, e.1 ∈ traceIds ∧ IsTrace stored e.2 e.1 := fun e he => by
    obtain ⟨hne, heq⟩ := mem_addBindings.1 he
    obtain ⟨s, hs⟩ := List.exists_mem_of_ne_nil _ hne
    obtain ⟨hs, htrace⟩ := List.mem_filter.1 (heq ▸ hs)
    obtain ⟨x, -, hmem, rfl⟩ := mem_results.1 hs
    have hid : e.1 ∈ traceIds := of_decide_eq_true htrace ▸ hmem
    exact ⟨hid, heq ▸ isTrace_filter hid⟩
  have hids : (bindings.map Prod.fst).Perm traceIds := by
    refine (List.perm_ext_iff_of_nodup (nodup_keys_addBindings _ _) hnodup).2 fun id => ⟨fun hid => ?_, fun hid => ?_⟩
    · obtain ⟨e, he, rfl⟩ := List.mem_map.1 hid
      exact (hbinding e he).1
    · obtain ⟨x, hx, rfl⟩ := hstored id hid
      have htrace : IsTrace stored ((results order (tablesOf stored) traceIds).filter fun s => decide (s.traceId = x.traceId))
          x.traceId := isTrace_filter hid
      obtain ⟨s, hs, -⟩ := htrace.parts x hx rfl
      exact List.mem_map_of_mem (mem_addBindings.2 ⟨List.ne_nil_of_mem hs, rfl⟩)
  have hforall : List.Forall₂ (IsTrace stored) (bindings.map Prod.snd) (bindings.map Prod.fst) := by
    rw [List.forall₂_map_left_iff, List.forall₂_map_right_iff]
    exact List.forall₂_same.2 fun e he => (hbinding e he).2
  obtain ⟨ids, hforall, hperm⟩ := List.perm_comp_forall₂
    ((sorted_perm Span.compareHeads _).trans (order.values_perm _)) hforall
  exact ⟨ids, hperm.trans hids, hforall⟩

end Traces

/-- **What is found can be read**: in every run, an answer has each trace that is found once, as many as the limit allows,
and its ids have one trace each, with all that was stored of it and nothing else. -/
theorem read_answer (isSQLRecoverableException : Throwable → Bool) (calls : List StoreCall) (order : RowOrder)
    (nullFound : Throwable) (endTs limit : Int) (q : IdQuery) (answer : List IndexedTraceId)
    (hanswer : getTraceIds order nullFound (runCalls isSQLRecoverableException calls {}).2 endTs limit q = .ok answer) :
    Answers (runCalls isSQLRecoverableException calls {}).1 endTs limit q answer ∧
      ∃ ids, ids.Perm (answer.map IndexedTraceId.traceId) ∧
        List.Forall₂ (IsTrace (runCalls isSQLRecoverableException calls {}).1) (getSpansByTraceIds order
          (runCalls isSQLRecoverableException calls {}).2 (answer.map IndexedTraceId.traceId)) ids := by
  rw [run_eq] at hanswer ⊢
  rcases getTraceIds_cases order nullFound endTs limit q with ⟨herror, -⟩ | ⟨answer', hok, hanswers⟩
  · cases herror.symm.trans hanswer
  · obtain rfl := Except.ok.inj (hok.symm.trans hanswer)
    refine ⟨hanswers, forall₂_getSpansByTraceIds hanswers.counts.1 fun id hid => ?_⟩
    obtain ⟨e, he, rfl⟩ := List.mem_map.1 hid
    obtain ⟨x, hx, htrace⟩ := hanswers.found e he
    exact ⟨x, List.mem_of_mem_filter hx, htrace⟩

/-- The span of a web server, and that of its database in another trace. -/
def webSpans : List (Span (List UInt8)) :=
  [.apply 1 "get" 1 none [⟨10, "sr", some ⟨0, 80, "web"⟩⟩, ⟨20, "ss", some ⟨0, 80, "web"⟩⟩] [],
    .apply 2 "query" 2 (some 1) [⟨12, "cs", some ⟨0, 80, "web"⟩⟩, ⟨14, "sr", some ⟨1, 80, "db"⟩⟩]
      [⟨"rows", [3], .bytes, some ⟨1, 80, "db"⟩⟩]]

/-- They are stored one after the other. -/
def storeWebSpans : List StoreCall := webSpans.map fun x => ⟨fun _ => none, x⟩

theorem runCalls_storeWebSpans : runCalls (fun _ => false) storeWebSpans {} = (webSpans, tablesOf webSpans) := by
  decide +kernel

/-- Both are found by the name of the web server. -/
theorem read_answer_web : ∃ ids, ids.Perm [1, 2] ∧ List.Forall₂ (IsTrace webSpans)
    (getSpansByTraceIds .insertion (tablesOf webSpans) [1, 2]) ids := by
  have h := read_answer (fun _ => false) storeWebSpans .insertion ⟨"RuntimeException", "UnexpectedNullableFound"⟩ 100 10
    (.byName "web" none) [⟨1, 20⟩, ⟨2, 14⟩] (by
      rw [runCalls_storeWebSpans]
      decide +kernel)
  rw [runCalls_storeWebSpans] at h
  exact h.2

/-! ## Names -/

section Names
variable (isSQLRecoverableException : Throwable → Bool) (calls : List StoreCall) (order : RowOrder) (nullFound : Throwable)

/-- Some query with a long as its end and an int as its limit finds a trace. -/
def Found (t : SpanTables) (q : IdQuery) : Prop := ∃ endTs limit answer, endTs < 2 ^ 63 ∧ limit < 2 ^ 31 ∧
  getTraceIds order nullFound t endTs limit q = .ok answer ∧ answer ≠ []

/-- An answer is empty if nothing is found, or nothing is asked for. -/
theorem Answers.ne_nil_iff {endTs limit : Int} {q : IdQuery} {answer : List IndexedTraceId}
    (h : Answers stored endTs limit q answer) : answer ≠ [] ↔ 0 < limit ∧ ∃ x ∈ stored, matchesQuery endTs x q = true := by
  have hlength := h.counts.2
  have hmatching : (∃ x ∈ stored, matchesQuery endTs x q = true) ↔
      0 < ((matching stored endTs q).map Span.traceId).dedup.length := by
    rw [List.length_pos_iff_exists_mem]
    simp only [List.mem_dedup, mem_map_matching]
    constructor
    · rintro ⟨x, hx, hmatches⟩
      exact ⟨_, x, hx, hmatches, rfl⟩
    · rintro ⟨-, x, hx, hmatches, -⟩
      exact ⟨x, hx, hmatches⟩
  rw [hmatching, ← List.length_pos_iff, hlength]
  omega

theorem found_byName_iff {serviceName : String} {spanName : Option String} :
    Found order nullFound (tablesOf stored) (.byName serviceName spanName) ↔
      ∃ endTs < 2 ^ 63, ∃ x ∈ stored, matchesQuery endTs x (.byName serviceName spanName) = true := by
  constructor
  · rintro ⟨endTs, limit, answer, hend, -, hok, hne⟩
    obtain ⟨answer', hok', hanswers⟩ := getTraceIdsByName_answers order nullFound stored endTs limit serviceName spanName
    obtain rfl := Except.ok.inj (hok.symm.trans hok')
    exact ⟨endTs, hend, (hanswers.ne_nil_iff.1 hne).2⟩
  · rintro ⟨endTs, hend, hmatches⟩
    obtain ⟨answer, hok, hanswers⟩ := getTraceIdsByName_answers order nullFound stored endTs 1 serviceName spanName
    exact ⟨endTs, 1, answer, hend, by decide, hok, hanswers.ne_nil_iff.2 ⟨by decide, hmatches⟩⟩

/-- With an end that is late enough, a span is found by its name and the service of any of its annotations. -/
theorem exists_matchesQuery_iff (hlong : ∀ x ∈ stored, ∀ a ∈ x.annotations, a.timestamp < 2 ^ 63 - 1) {serviceName : String}
    {spanName : Option String} :
    (∃ endTs < 2 ^ 63, ∃ x ∈ stored, matchesQuery endTs x (.byName serviceName spanName) = true) ↔ ∃ x ∈ stored,
      (x.name = spanName.getD "" ∨ spanName.getD "" = "") ∧ ∃ a ∈ x.annotations, a.serviceName = serviceName := by
  simp only [matchesQuery, Bool.and_eq_true, Bool.or_eq_true, decide_eq_true_eq, beq_iff_eq, List.any_eq_true]
  constructor
  · rintro ⟨-, -, x, hx, ⟨-, hname⟩, a, ha, hservice, -⟩
    exact ⟨x, hx, hname, a, ha, hservice⟩
  · rintro ⟨x, hx, hname, a, ha, hservice⟩
    exact ⟨2 ^ 63 - 1, by decide, x, hx, ⟨by decide, hname⟩, a, ha, hservice, hlong x hx a ha⟩

/-- **The names that are listed are those that find traces**: in every run, the services are those for which some query by
name finds a trace, and the span names of a service those, but for the empty one, with which some query does. -/
theorem listed_iff_found (hlong : ∀ x ∈ (runCalls isSQLRecoverableException calls {}).1, ∀ a ∈ x.annotations,
    a.timestamp < 2 ^ 63 - 1) : (∀ s, s ∈ getAllServiceNames order (runCalls isSQLRecoverableException calls {}).2 ↔
      Found order nullFound (runCalls isSQLRecoverableException calls {}).2 (.byName s none)) ∧
    ∀ s name, name ∈ getSpanNames order (runCalls isSQLRecoverableException calls {}).2 s ↔
      name ≠ "" ∧ Found order nullFound (runCalls isSQLRecoverableException calls {}).2 (.byName s (some name)) := by
  rw [run_eq]
  refine ⟨fun s => ?_, fun s name => ?_⟩
  · rw [found_byName_iff, exists_matchesQuery_iff hlong, getAllServiceNames, mem_selectDistinct]
    simp only [mem_zipkin_annotations, Option.getD_none, or_true, true_and]
    constructor
    · rintro ⟨_, ⟨x, hx, a, ha, rfl⟩, rfl⟩
      exact ⟨x, hx, a, ha, rfl⟩
    · rintro ⟨x, hx, a, ha, hservice⟩
      exact ⟨_, ⟨x, hx, a, ha, rfl⟩, hservice⟩
  · rw [found_byName_iff, exists_matchesQuery_iff hlong, getSpanNames, mem_selectDistinct]
    simp only [mem_zipkin_annotations, Option.getD_some, Bool.and_eq_true, beq_iff_eq, bne_iff_ne]
    constructor
    · rintro ⟨_, ⟨x, hx, a, ha, rfl⟩, ⟨hservice, hne⟩, rfl⟩
      exact ⟨hne, x, hx, Or.inl rfl, a, ha, hservice⟩
    · rintro ⟨hne, x, hx, hname, a, ha, hservice⟩
      obtain rfl := hname.resolve_right hne
      exact ⟨_, ⟨x, hx, a, ha, rfl⟩, ⟨hservice, hne⟩, rfl⟩

theorem listed_iff_found_web :
    (∀ s, s ∈ getAllServiceNames .insertion (tablesOf webSpans) ↔
      Found .insertion ⟨"RuntimeException", "UnexpectedNullableFound"⟩ (tablesOf webSpans) (.byName s none)) ∧
    ∀ s name, name ∈ getSpanNames .insertion (tablesOf webSpans) s ↔ name ≠ "" ∧
      Found .insertion ⟨"RuntimeException", "UnexpectedNullableFound"⟩ (tablesOf webSpans) (.byName s (some name)) := by
  have h := listed_iff_found (fun _ => false) storeWebSpans .insertion ⟨"RuntimeException", "UnexpectedNullableFound"⟩ (by
    rw [runCalls_storeWebSpans]
    decide +kernel)
  rwa [runCalls_storeWebSpans] at h

end Names

/-! ## The store in memory -/

section InMemory
variable (toLowerCase : String → String)

/-- The names of the span and of its services are as `toLowerCase` has them. -/
def IsLower (x : Span (List UInt8)) : Prop :=
  toLowerCase x.name = x.name ∧ ∀ a ∈ x.annotations, ∀ h ∈ a.host, toLowerCase h.serviceName = h.serviceName

/-- What the store in memory has of the same spans. -/
def inMemory (stored : List (Span (List UInt8))) : SpanBuffer (List UInt8) := SpanBuffer.apply [] stored

theorem inMemory_eq (stored : List (Span (List UInt8))) : inMemory stored = stored := by
  have hsame : ∀ x : Span (List UInt8), x.copyAnnotations (sorted Ord.compare x.annotations) = x := fun x => by
    rw [sorted_eq_self _ x.sorted]
    exact Span.ext rfl rfl rfl rfl (sorted_eq_self _ x.sorted) rfl rfl
  rw [inMemory, SpanBuffer.apply, List.nil_append, List.map_congr_left fun x _ => hsame x, List.map_id']

variable {toLowerCase} {x : Span (List UInt8)} {serviceName : String}

theorem hasService_iff (hlower : IsLower toLowerCase x) (hservice : toLowerCase serviceName = serviceName)
    (hknown : serviceName ≠ "Unknown service name") :
    hasService toLowerCase serviceName x = true ↔ ∃ a ∈ x.annotations, a.serviceName = serviceName := by
  rw [hasService, List.any_eq_true]
  simp only [Span.serviceNames, List.mem_filterMap, beq_iff_eq, Annotation.serviceName]
  constructor
  · rintro ⟨_, ⟨a, ha, hmap⟩, heq⟩
    obtain ⟨h, hhost, rfl⟩ := Option.map_eq_some_iff.1 hmap
    rw [hlower.2 a ha h hhost, hlower.2 a ha h hhost, hservice] at heq
    exact ⟨a, ha, by rw [hhost]; exact heq⟩
  · rintro ⟨a, ha, heq⟩
    cases hhost : a.host with
    | none =>
      rw [hhost] at heq
      exact absurd heq.symm hknown
    | some h =>
      rw [hhost] at heq
      have heq : h.serviceName = serviceName := heq
      refine ⟨toLowerCase h.serviceName, ⟨a, ha, by rw [hhost]; rfl⟩, ?_⟩
      rw [hlower.2 a ha h hhost, hlower.2 a ha h hhost, hservice, heq]

/-- After the end of a span both stores find it by the same names. -/
theorem matchesQuery_eq {spanName : Option String} {endTs : Int} (hlower : IsLower toLowerCase x)
    (hservice : toLowerCase serviceName = serviceName) (hknown : serviceName ≠ "Unknown service name")
    (hname : ∀ name ∈ spanName, toLowerCase name = name ∧ name ≠ "") (hpos : 0 < endTs)
    (hend : ∀ a ∈ x.annotations, a.timestamp < endTs) :
    matchesQuery endTs x (.byName serviceName spanName) = matchesName toLowerCase serviceName spanName endTs x := by
  have hnames : (x.name == spanName.getD "" || spanName.getD "" == "") =
      spanName.all (fun name => toLowerCase x.name == toLowerCase name) := by
    cases spanName with
    | none => exact Bool.or_true _
    | some name =>
      obtain ⟨hlow, hne⟩ := hname name rfl
      rw [Option.getD_some, Option.all_some, hlower.1, hlow, beq_false_of_ne hne, Bool.or_false]
  have hlast : x.annotations ≠ [] → x.lastTimestamp.any (fun ts => decide (ts ≤ endTs)) = true := fun hne => by
    rw [Span.lastTimestamp, Span.lastAnnotation, List.getLast?_eq_some_getLast hne, Option.map_some, Option.any_some]
    exact decide_eq_true (hend _ (List.getLast_mem hne)).le
  rw [Bool.eq_iff_iff, matchesQuery, matchesName, hnames, decide_eq_true hpos, Bool.true_and]
  simp only [Bool.and_eq_true, List.any_eq_true, beq_iff_eq, decide_eq_true_eq, hasService_iff hlower hservice hknown]
  constructor
  · rintro ⟨hall, a, ha, heq, -⟩
    exact ⟨⟨⟨a, ha, heq⟩, hall⟩, hlast (List.ne_nil_of_mem ha)⟩
  · rintro ⟨⟨⟨a, ha, heq⟩, hall⟩, -⟩
    exact ⟨hall, a, ha, heq, hend a ha⟩

/-- **Both stores find the same traces by name**: where the names are in lower case and known, an end after all that was
stored and a limit that leaves nothing out. -/
theorem getTraceIdsByName_inMemory (isSQLRecoverableException : Throwable → Bool) (calls : List StoreCall)
    (order : RowOrder) (nullFound : Throwable) (toLowerCase : String → String) (serviceName : String)
    (spanName : Option String) (endTs limit : Int)
    (hlower : ∀ x ∈ (runCalls isSQLRecoverableException calls {}).1, IsLower toLowerCase x)
    (hservice : toLowerCase serviceName = serviceName) (hknown : serviceName ≠ "Unknown service name")
    (hname : ∀ name ∈ spanName, toLowerCase name = name ∧ name ≠ "") (hpos : 0 < endTs)
    (hend : ∀ x ∈ (runCalls isSQLRecoverableException calls {}).1, ∀ a ∈ x.annotations, a.timestamp < endTs)
    (hlimit : (runCalls isSQLRecoverableException calls {}).1.length ≤ limit) : ∃ answer,
      getTraceIds order nullFound (runCalls isSQLRecoverableException calls {}).2 endTs limit (.byName serviceName spanName) =
        .ok answer ∧ (answer.map IndexedTraceId.traceId).Perm ((SpanBuffer.getTraceIdsByName toLowerCase
          (inMemory (runCalls isSQLRecoverableException calls {}).1) serviceName spanName endTs limit).map
            IndexedTraceId.traceId).dedup := by
  rw [run_eq]
  generalize (runCalls isSQLRecoverableException calls {}).1 = stored at hlower hend hlimit ⊢
  obtain ⟨answer, hok, hanswers⟩ := getTraceIdsByName_answers order nullFound stored endTs limit serviceName spanName
  refine ⟨answer, hok, ?_⟩
  have hmatching : matching stored endTs (.byName serviceName spanName) =
      stored.filter (matchesName toLowerCase serviceName spanName endTs) :=
    List.filter_congr fun x hx => matchesQuery_eq (hlower x hx) hservice hknown hname hpos (hend x hx)
  have hle : (stored.filter (matchesName toLowerCase serviceName spanName endTs)).length ≤ limit.toNat := by
    have := List.length_filter_le (matchesName toLowerCase serviceName spanName endTs) stored
    omega
  rw [inMemory_eq, SpanBuffer.getTraceIdsByName_eq, map_traceId_indexed, List.take_of_length_le hle, ← hmatching]
  -- there are no more traces than spans, so that the limit leaves none out
  refine (hanswers.counts.1.subperm fun id hid => ?_).perm_of_length_le ?_
  · obtain ⟨e, he, rfl⟩ := List.mem_map.1 hid
    obtain ⟨x, hx, htrace⟩ := hanswers.found e he
    exact List.mem_dedup.2 (htrace ▸ List.mem_map_of_mem hx)
  · have htraces := (List.dedup_sublist ((matching stored endTs (.byName serviceName spanName)).map Span.traceId)).length_le
    rw [List.length_map, hmatching] at htraces
    rw [List.length_map, hanswers.counts.2, hmatching]
    omega

theorem getTraceIdsByName_inMemory_web : ∃ answer, getTraceIds .insertion ⟨"RuntimeException", "UnexpectedNullableFound"⟩
    (tablesOf webSpans) 100 10 (.byName "web" none) = .ok answer ∧ (answer.map IndexedTraceId.traceId).Perm [1, 2] := by
  have hlower : ∀ x ∈ webSpans, IsLower id x := fun _ _ => ⟨rfl, fun _ _ _ _ => rfl⟩
  have hend : ∀ x ∈ webSpans, ∀ a ∈ x.annotations, a.timestamp < 100 := by decide +kernel
  have hlimit : webSpans.length ≤ (10 : Int) := by decide
  have h := getTraceIdsByName_inMemory (fun _ => false) storeWebSpans .insertion
    ⟨"RuntimeException", "UnexpectedNullableFound"⟩ id "web" none 100 10
  rw [runCalls_storeWebSpans] at h
  obtain ⟨answer, hok, hperm⟩ := h hlower rfl (by decide) (fun _ hname => nomatch hname) (by decide) hend hlimit
  refine ⟨answer, hok, hperm.trans (.of_eq ?_)⟩
  decide +kernel

end InMemory

end AnormSpanStore
end Zipkin
