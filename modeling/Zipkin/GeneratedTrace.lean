import Zipkin.TraceGen
/-!
# GeneratedTrace — the traces that are made up are whole and need no adjustment

The halves of a call are merged to one span, if no two calls have drawn the same id.  Its parent is the span of the caller,
whose time on the server is around it, and the clock-skew adjustment leaves every annotation where it is.
-/
namespace Zipkin

open Constants Effect Relation

namespace TraceGen

/-! ## Below a call -/

section Below
variable {t : RoseTree Call}

theorem Nested.served (h : Nested t) : ∀ c ∈ t.labels, c.Served := by
  induction h with
  | node hserved _ _ ih =>
    intro c hc
    rw [RoseTree.labels_node] at hc
    rcases List.mem_cons.1 hc with rfl | hc
    · exact hserved
    · obtain ⟨d, hd, hc⟩ := List.mem_flatMap.1 hc
      exact ih d hd c hc

/-- A call of the tree, and one that it calls. -/
def Below (t : RoseTree Call) (a b : Call) : Prop := a ∈ t.labels ∧ b ∈ t.labels ∧ a.Calls b

theorem label_mem (t : RoseTree Call) : t.label ∈ t.labels := by
  cases t with
  | node a cs => exact RoseTree.labels_node a cs ▸ List.mem_cons_self

/-- **Every call is called from the first one**, over others of the tree. -/
theorem Nested.reaches (h : Nested t) : ∀ c ∈ t.labels, ReflTransGen (Below t) t.label c := by
  induction h with
  | @node a cs _ hcalls _ ih =>
    intro c hc
    have hlabels := RoseTree.labels_node a cs
    rw [hlabels] at hc
    rcases List.mem_cons.1 hc with rfl | hc
    · exact .refl
    · obtain ⟨d, hd, hc⟩ := List.mem_flatMap.1 hc
      have hsub : ∀ b ∈ d.labels, b ∈ (RoseTree.node a cs).labels := fun b hb =>
        hlabels ▸ List.mem_cons_of_mem a (List.mem_flatMap.2 ⟨d, hd, hb⟩)
      have hbelow : ∀ b b', Below d b b' → Below (.node a cs) b b' := fun b b' ⟨hb, hb', hbb'⟩ =>
        ⟨hsub b hb, hsub b' hb', hbb'⟩
      exact .head ⟨label_mem _, hsub _ (label_mem d), hcalls d hd⟩ (ReflTransGen.mono hbelow _ _ (ih d hd c hc))

/-- It is the first call, or it is called. -/
theorem Nested.eq_or_calls (h : Nested t) {c : Call} (hc : c ∈ t.labels) : c = t.label ∨ ∃ a ∈ t.labels, a.Calls c := by
  rcases (h.reaches c hc).cases_tail with heq | ⟨a, -, ha, -, hcalls⟩
  · exact Or.inl heq
  · exact Or.inr ⟨a, ha, hcalls⟩

/-- **Every call is served while the first one is**, and asked for too. -/
theorem Nested.within (h : Nested t) {c : Call} (hc : c ∈ t.labels) : t.label.sr ≤ c.sr ∧ c.ss ≤ t.label.ss := by
  induction h.reaches c hc with
  | refl => exact ⟨Int.le_refl _, Int.le_refl _⟩
  | tail _ hbelow ih =>
    obtain ⟨ha, -, -, client, cs, cr, hasked, hcs, hcr⟩ := hbelow
    obtain ⟨hlow, hhigh⟩ := ih ha
    exact ⟨(hlow.trans hcs).trans hasked.cs_lt.le, (hasked.lt_cr.le.trans hcr).trans hhigh⟩

end Below

/-! ## The parts of a call -/

def isServer (p : Part) : Bool := p.annotations.any (·.value == ServerRecv)

/-- No two calls have drawn the same span id. -/
def DistinctIds (spans : List Part) : Prop := ((spans.filter isServer).map Span.id).Nodup

instance (spans : List Part) : Decidable (DistinctIds spans) := inferInstanceAs (Decidable (List.Nodup _))

theorem isServer_of_served {c : Call} (h : c.Served) : isServer c.server = true := by
  have hmem : (⟨c.sr, ServerRecv, some c.ep⟩ : Annotation) ∈ c.server.annotations :=
    (List.mem_filter.1 (h.serverRecv ▸ List.mem_singleton_self _)).1
  exact List.any_eq_true.2 ⟨_, hmem, beq_self_eq_true _⟩

theorem isServer_of_asked {c : Call} {client : Part} {cs cr : Int} (h : c.Asked client cs cr) : isServer client = false := by
  refine List.any_eq_false.2 fun a ha => ?_
  have hmem := h.annotations_perm.mem_iff.1 ha
  rw [List.mem_cons, List.mem_singleton] at hmem
  rcases hmem with rfl | rfl
  · show ¬ (ClientSend == ServerRecv) = true
    decide
  · show ¬ (ClientRecv == ServerRecv) = true
    decide

/-- Calls with both halves, but for the first, which has no client. -/
structure Whole (t : RoseTree Call) : Prop where
  nested : Nested t
  client_eq : t.label.client = none
  parentId_eq : t.label.server.parentId = none

section Parts
variable {t : RoseTree Call} (h : Whole t)
include h

theorem Whole.client_cases {c : Call} (hc : c ∈ t.labels) : c = t.label ∨
    ∃ a ∈ t.labels, c.server.parentId = some a.server.id ∧ ∃ client cs cr, c.Asked client cs cr ∧ a.sr ≤ cs ∧ cr ≤ a.ss :=
  h.nested.eq_or_calls hc

theorem Whole.asked_of_client {c : Call} (hc : c ∈ t.labels) {client : Part} (hclient : c.client = some client) :
    ∃ cs cr, c.Asked client cs cr := by
  rcases h.client_cases hc with rfl | ⟨-, -, -, client', cs, cr, hasked, -⟩
  · rw [h.client_eq] at hclient
    cases hclient
  · obtain rfl := Option.some.inj (hasked.client_eq.symm.trans hclient)
    exact ⟨cs, cr, hasked⟩

theorem Whole.of_mem_parts {c : Call} (hc : c ∈ t.labels) {p : Part} (hp : p ∈ c.parts) :
    p.id = c.server.id ∧ p.parentId = c.server.parentId ∧ p.debug = false := by
  rcases List.mem_cons.1 hp with rfl | hp
  · exact ⟨rfl, rfl, (h.nested.served c hc).debug_eq⟩
  · obtain ⟨cs, cr, hasked⟩ := h.asked_of_client hc (Option.mem_toList.1 hp)
    exact ⟨hasked.id_eq, hasked.parentId_eq, hasked.debug_eq⟩

theorem Whole.filter_isServer : (recorded t).filter isServer = t.labels.map Call.server := by
  rw [recorded, List.filter_flatMap, ← List.flatMap_singleton' (t.labels.map Call.server), List.flatMap_map]
  refine List.flatMap_congr fun c hc => ?_
  have hserver := isServer_of_served (h.nested.served c hc)
  rw [Call.parts, List.filter_cons_of_pos hserver]
  cases hclient : c.client with
  | none => rfl
  | some client =>
    obtain ⟨cs, cr, hasked⟩ := h.asked_of_client hc hclient
    rw [Option.toList_some, List.filter_cons_of_neg (Bool.eq_false_iff.1 (isServer_of_asked hasked))]
    rfl

theorem Whole.nodup_ids {spans : List Part} (hperm : spans.Perm (recorded t)) (hdistinct : DistinctIds spans) :
    (t.labels.map fun c => c.server.id).Nodup := by
  have hids := ((hperm.filter isServer).map Span.id).nodup_iff.1 hdistinct
  rwa [h.filter_isServer, List.map_map] at hids

end Parts

/-! ## The spans of the trace -/

theorem filter_flatMap_key {α β κ : Type*} [DecidableEq κ] {key : α → κ} {f : α → List β} {g : β → κ} : ∀ {l : List α},
    (l.map key).Nodup → (∀ a ∈ l, ∀ b ∈ f a, g b = key a) → ∀ a ∈ l,
    (l.flatMap f).filter (fun b => decide (g b = key a)) = f a
  | [], _, _, _, ha => (List.not_mem_nil ha).elim
  | a :: l, hnodup, hkey, a', ha' => by
    obtain ⟨hnotin, hnodup⟩ := List.nodup_cons.1 hnodup
    have hkeys : ∀ c ∈ l, ∀ b ∈ f c, g b = key c := fun c hc => hkey c (List.mem_cons_of_mem a hc)
    rw [List.flatMap_cons, List.filter_append]
    rcases List.mem_cons.1 ha' with rfl | ha'
    · have hrest : (l.flatMap f).filter (fun b => decide (g b = key a')) = [] := by
        refine List.filter_eq_nil_iff.2 fun b hb => ?_
        obtain ⟨c, hc, hb⟩ := List.mem_flatMap.1 hb
        rw [decide_eq_true_iff, hkeys c hc b hb]
        exact fun heq => hnotin (heq ▸ List.mem_map_of_mem hc)
      rw [hrest, List.append_nil, List.filter_eq_self]
      exact fun b hb => decide_eq_true (hkey a' List.mem_cons_self b hb)
    · have hfirst : (f a).filter (fun b => decide (g b = key a')) = [] := by
        refine List.filter_eq_nil_iff.2 fun b hb => ?_
        rw [decide_eq_true_iff, hkey a List.mem_cons_self b hb]
        exact fun heq => hnotin (heq ▸ List.mem_map_of_mem ha')
      rw [hfirst, List.nil_append]
      exact filter_flatMap_key hnodup hkeys a' ha'

/-- The span of a call: its parts are merged. -/
structure IsSpan (c : Call) (s : Part) : Prop where
  id_eq : s.id = c.server.id
  parentId_eq : s.parentId = c.server.parentId
  annotations_perm : s.annotations.Perm (c.parts.flatMap Span.annotations)

section Spans
variable (ord : HashOrder (List UInt8)) {t : RoseTree Call} {spans : List Part} (hperm : spans.Perm (recorded t))
  (h : Whole t) (hdistinct : DistinctIds spans)
include hperm

/-- Every call has a span. -/
theorem exists_span {c : Call} (hc : c ∈ t.labels) : ∃ s ∈ (⟨spans⟩ : Trace _).spans ord, s.id = c.server.id := by
  have hmem : c.server ∈ spans := hperm.mem_iff.2 (List.mem_flatMap.2 ⟨c, hc, List.mem_cons_self⟩)
  exact exists_span_of_part ord hmem

include h

theorem debug_eq_false {s : Part} (hs : s ∈ (⟨spans⟩ : Trace _).spans ord) : s.debug = false := by
  rw [(mergeOf_spans ord hs).debug, List.any_eq_false]
  intro p hp
  obtain ⟨c, hc, hpc⟩ := List.mem_flatMap.1 (hperm.mem_iff.1 (mem_partsOf.1 hp).1)
  rw [(h.of_mem_parts hc hpc).2.2]
  exact Bool.false_ne_true

include hdistinct

/-- **Every span is the span of a call.** -/
theorem exists_call {s : Part} (hs : s ∈ (⟨spans⟩ : Trace _).spans ord) : ∃ c ∈ t.labels, IsSpan c s := by
  have hmerge := mergeOf_spans ord hs
  obtain ⟨p, hp, hparent, -⟩ := hmerge.exists_parentId
  obtain ⟨hp, hid⟩ := mem_partsOf.1 hp
  obtain ⟨c, hc, hpc⟩ := List.mem_flatMap.1 (hperm.mem_iff.1 hp)
  obtain ⟨hpid, hpparent, -⟩ := h.of_mem_parts hc hpc
  have hparts : (partsOf spans s.id).Perm c.parts := by
    have hfilter : (recorded t).filter (fun p => decide (p.id = c.server.id)) = c.parts :=
      filter_flatMap_key (h.nodup_ids hperm hdistinct) (fun a ha p hp => (h.of_mem_parts ha hp).1) c hc
    rw [← hid, hpid, ← hfilter]
    exact hperm.filter _
  exact ⟨c, hc, hid.symm.trans hpid, hparent.symm.trans hpparent, hmerge.annotations.trans (hparts.flatMap_right _)⟩

/-- The span of the first call is the only one without a parent. -/
theorem getRootSpan_eq : ∃ r, (⟨spans⟩ : Trace _).getRootSpan ord = some r ∧ IsSpan t.label r := by
  have hroot : ∀ s ∈ (⟨spans⟩ : Trace _).spans ord, s.parentId = none → IsSpan t.label s := fun s hs hnone => by
    obtain ⟨c, hc, hspan⟩ := exists_call ord hperm h hdistinct hs
    rcases h.client_cases hc with rfl | ⟨a, -, hsome, -⟩
    · exact hspan
    · have hparent := hspan.parentId_eq
      rw [hnone, hsome] at hparent
      cases hparent
  obtain ⟨s, hs, hid⟩ := exists_span ord hperm (label_mem t)
  have hsome : ((⟨spans⟩ : Trace _).getRootSpan ord).isSome := by
    obtain ⟨c, hc, hspan⟩ := exists_call ord hperm h hdistinct hs
    have heq : c = t.label := List.inj_on_of_nodup_map (h.nodup_ids hperm hdistinct) hc (label_mem t)
      (hspan.id_eq.symm.trans hid)
    refine List.find?_isSome.2 ⟨s, hs, ?_⟩
    rw [hspan.parentId_eq, heq, h.parentId_eq]
    rfl
  obtain ⟨r, hr⟩ := Option.isSome_iff_exists.1 hsome
  obtain ⟨hmem, hnone⟩ := Trace.getRootSpan_eq_some ord _ hr
  exact ⟨r, hr, hroot r hmem hnone⟩

/-- **The spans hang together as the calls do.** -/
theorem reachable {r : Part} (hr : r ∈ (⟨spans⟩ : Trace _).spans ord) (hroot : IsSpan t.label r) {c : Call}
    (hc : c ∈ t.labels) : ∀ s ∈ (⟨spans⟩ : Trace _).spans ord, s.id = c.server.id → Trace.Reachable ord ⟨spans⟩ r s := by
  induction h.nested.reaches c hc with
  | refl =>
    intro s hs hid
    rw [Trace.eq_of_id_eq ord hs hr (hid.trans hroot.id_eq.symm)]
    exact .refl
  | @tail a b _ hbelow ih =>
    intro s hs hid
    obtain ⟨ha, hb, hparent, -⟩ := hbelow
    obtain ⟨p, hp, hpid⟩ := exists_span ord hperm ha
    obtain ⟨b', hb', hspan⟩ := exists_call ord hperm h hdistinct hs
    have heq : b' = b := List.inj_on_of_nodup_map (h.nodup_ids hperm hdistinct) hb' hb (hspan.id_eq.symm.trans hid)
    refine (ih ha p hp hpid).tail ⟨hp, hs, ?_⟩
    rw [hspan.parentId_eq, heq, hparent, hpid]

end Spans

/-! ## Times -/

open TimeSkewAdjuster

section Times
variable {c : Call} {s : Part} {client : Part} {cs cr : Int}

theorem IsSpan.filter_perm (hspan : IsSpan c s) (hasked : c.Asked client cs cr) {value : String} {l : List Annotation}
    (hl : c.server.annotations.filter (·.value == value) = l) : (s.annotations.filter (·.value == value)).Perm
      (l ++ [(⟨cs, ClientSend, some c.ep⟩ : Annotation), ⟨cr, ClientRecv, some c.ep⟩].filter (·.value == value)) := by
  refine (hspan.annotations_perm.filter _).trans ?_
  rw [Call.parts, hasked.client_eq, Option.toList_some, List.flatMap_cons, List.flatMap_singleton, List.filter_append, hl]
  exact (hasked.annotations_perm.filter _).append_left _

/-- **A call that is asked for** has one of each core annotation, in order. -/
theorem IsSpan.inOrder (hspan : IsSpan c s) (hserved : c.Served) (hasked : c.Asked client cs cr) :
    InOrder s ⟨cs, ClientSend, some c.ep⟩ ⟨c.sr, ServerRecv, some c.ep⟩ ⟨c.ss, ServerSend, some c.ep⟩
      ⟨cr, ClientRecv, some c.ep⟩ where
  clientSend := List.perm_singleton.1 (hspan.filter_perm hasked hserved.clientSend)
  serverRecv := List.perm_singleton.1 (hspan.filter_perm hasked hserved.serverRecv)
  serverSend := List.perm_singleton.1 (hspan.filter_perm hasked hserved.serverSend)
  clientRecv := List.perm_singleton.1 (hspan.filter_perm hasked hserved.clientRecv)
  cs_le_sr := hasked.cs_lt.le
  sr_le_ss := hserved.sr_le_ss
  ss_le_cr := hasked.lt_cr.le

/-- Its annotations are between the client's two. -/
theorem IsSpan.between (hspan : IsSpan c s) (hserved : c.Served) (hasked : c.Asked client cs cr) :
    ∀ a ∈ s.annotations, cs ≤ a.timestamp ∧ a.timestamp ≤ cr := fun a ha => by
  have hmem := hspan.annotations_perm.mem_iff.1 ha
  have hcs := hasked.cs_lt
  have hcr := hasked.lt_cr
  have hle := hserved.sr_le_ss
  rw [Call.parts, hasked.client_eq, Option.toList_some, List.flatMap_cons, List.flatMap_singleton, List.mem_append] at hmem
  rcases hmem with hmem | hmem
  · obtain ⟨hlow, hhigh⟩ := hserved.within a hmem
    omega
  · have hcore := hasked.annotations_perm.mem_iff.1 hmem
    rw [List.mem_cons, List.mem_singleton] at hcore
    rcases hcore with rfl | rfl
    · dsimp only
      omega
    · dsimp only
      omega

/-- The first call has no client. -/
theorem IsSpan.annotations_perm_server (hspan : IsSpan c s) (hclient : c.client = none) :
    s.annotations.Perm c.server.annotations := by
  have hperm := hspan.annotations_perm
  rwa [Call.parts, hclient, Option.toList_none, List.flatMap_singleton] at hperm

end Times

section Adjusted
variable (ord : HashOrder (List UInt8)) {t : RoseTree Call} {spans : List Part} (hperm : spans.Perm (recorded t))
  (h : Whole t) (hdistinct : DistinctIds spans)
include hperm h hdistinct

/-- **A span below the first** is asked for by a call of the tree, and is in order. -/
theorem span_cases {s : Part} (hs : s ∈ (⟨spans⟩ : Trace _).spans ord) :
    (IsSpan t.label s ∧ s.parentId = none) ∨ ∃ a ∈ t.labels, s.parentId = some a.server.id ∧ ∃ c ∈ t.labels, IsSpan c s ∧
      ∃ client cs cr, c.Asked client cs cr ∧ a.sr ≤ cs ∧ cr ≤ a.ss := by
  obtain ⟨c, hc, hspan⟩ := exists_call ord hperm h hdistinct hs
  rcases h.client_cases hc with rfl | ⟨a, ha, hparent, hasked⟩
  · exact Or.inl ⟨hspan, hspan.parentId_eq.trans h.parentId_eq⟩
  · exact Or.inr ⟨a, ha, hspan.parentId_eq.trans hparent, c, hc, hspan, hasked⟩

theorem nothingToAdjust (hlow : 0 ≤ t.label.sr) (hhigh : t.label.ss < 2 ^ 63) : NothingToAdjust ord ⟨spans⟩ := by
  obtain ⟨r, hr, hroot⟩ := getRootSpan_eq ord hperm h hdistinct
  have hrmem := (Trace.getRootSpan_eq_some ord _ hr).1
  -- the first call has nothing of a client
  have hclient : ∀ s, IsSpan t.label s → s.getAnnotationsAsMap ClientSend = none := fun s hspan => by
    have hnone := (hspan.annotations_perm_server h.client_eq).filter (·.value == ClientSend)
    rw [(h.nested.served _ (label_mem t)).clientSend] at hnone
    rw [Span.getAnnotationsAsMap, List.perm_nil.1 hnone]
    rfl
  refine ⟨⟨r, hr, fun s hs => ?_⟩, fun s hs hall => ?_, fun s hs hclients hservers => ?_, fun s hs a ha => ?_⟩
  · obtain ⟨c, hc, hspan⟩ := exists_call ord hperm h hdistinct hs
    exact reachable ord hperm h hdistinct hrmem hroot hc s hs hspan.id_eq
  · rcases span_cases ord hperm h hdistinct hs with ⟨hspan, -⟩ | ⟨a, -, -, c, hc, hspan, client, cs, cr, hasked, -⟩
    · rw [containsAllCoreAnnotations, containsClientCoreAnnotations, hclient s hspan] at hall
      cases hall
    · exact ⟨_, _, _, _, hspan.inOrder (h.nested.served c hc) hasked⟩
  · rcases span_cases ord hperm h hdistinct hs with ⟨hspan, -⟩ | ⟨a, -, -, c, hc, hspan, client, cs, cr, hasked, -⟩
    · rw [containsClientCoreAnnotations, hclient s hspan] at hclients
      cases hclients
    · have hall := (hspan.inOrder (h.nested.served c hc) hasked).all
      rw [containsAllCoreAnnotations, hservers, Bool.and_false] at hall
      cases hall
  · rcases span_cases ord hperm h hdistinct hs with ⟨hspan, -⟩ | ⟨b, hb, -, c, hc, hspan, client, cs, cr, hasked, hcs, hcr⟩
    · obtain ⟨hle, hge⟩ := (h.nested.served _ (label_mem t)).within a
        ((hspan.annotations_perm_server h.client_eq).mem_iff.1 ha)
      omega
    · obtain ⟨hle, hge⟩ := hspan.between (h.nested.served c hc) hasked a ha
      obtain ⟨hlow', hhigh'⟩ := h.nested.within hb
      omega

theorem untied {s : Part} (hs : s ∈ (⟨spans⟩ : Trace _).spans ord) : UntiedSpan s := fun cs' sr' ss' cr' horder _ => by
  rcases span_cases ord hperm h hdistinct hs with ⟨hspan, -⟩ | ⟨a, -, -, c, hc, hspan, client, cs, cr, hasked, -⟩
  · have hnone := (hspan.annotations_perm_server h.client_eq).filter (·.value == ClientSend)
    rw [(h.nested.served _ (label_mem t)).clientSend, horder.clientSend] at hnone
    exact absurd hnone.length_eq nofun
  · obtain ⟨rfl, rfl, rfl, rfl⟩ := (hspan.inOrder (h.nested.served c hc) hasked).unique horder
    exact Or.inl ⟨hasked.cs_lt, hasked.lt_cr⟩

end Adjusted

/-- **A trace that is made up is left as it is** by the clock-skew adjustment, whatever is drawn, if no two of its calls have
drawn the same span id. -/
theorem spans_adjust_genTrace_perm (ord : HashOrder (List UInt8)) (maxDepth now : Int) (hdepth : 0 < maxDepth)
    (hmax : maxDepth < 2 ^ 31) (hpast : 8 * 3600000000000 ≤ now) (hfuture : now < 2 ^ 63) (s s' : State) (spans : List Part)
    (hexec : exec (genTrace maxDepth now) s = (.ok spans, s')) (hdistinct : DistinctIds spans) :
    ((adjust wrap64 ord ⟨spans⟩).spans ord).Perm ((⟨spans⟩ : Trace _).spans ord) := by
  obtain ⟨spans', s'', hexec', t, hnested, hclient, hparent, hlow, hhigh, hperm⟩ := yields_genTrace hdepth hpast s
  obtain rfl : spans = spans' := Except.ok.inj (Prod.mk.inj (hexec.symm.trans hexec')).1
  have h : Whole t := ⟨hnested, hclient, hparent⟩
  have hlong : t.label.ss < 2 ^ 63 := by
    refine hhigh.trans_lt ?_
    unfold inMicroseconds milliseconds
    rw [Int.tdiv_eq_ediv_of_nonneg (by omega)]
    omega
  have hnothing := nothingToAdjust ord hperm h hdistinct hlow hlong
  obtain ⟨r, hroot, hreach⟩ := hnothing.belowRoot
  refine spans_adjust_perm_self wrap64 ord ⟨spans⟩ hroot hreach (fun p hp => debug_eq_false ord hperm h hp) ?_
  refine (sameTimes_adjust_iff wrap64 ord ⟨spans⟩ hroot hreach (fun p hp => hnothing.complete hp)
    (fun p hp => hnothing.moves hp)).2 fun p hp => ?_
  exact (hnothing.getClockSkewOf_eq_none_iff hp).2 (untied ord hperm h hdistinct hp)

/-- Nine hours after the epoch. -/
def nineHours : Int := 9 * 3600000000000

/-- The numbers are drawn in turn. -/
def inTurn : State := ⟨fun n => n, 0, [], []⟩

/-- The first call makes two more then. -/
theorem exec_inTurn : ∃ spans s', exec (genTrace 2 nineHours) inTurn = (.ok spans, s') ∧ DistinctIds spans ∧
    spans.map (fun p => (p.id, p.parentId)) = [(27, some 7), (27, some 7), (48, some 7), (48, some 7), (7, none)] := by
  obtain ⟨spans, s', hexec, -⟩ :=
    yields_genTrace (show (0 : Int) < 2 by decide) (show (8 * 3600000000000 : Int) ≤ nineHours by decide) inTurn
  have hmade : (exec (genTrace 2 nineHours) inTurn).1.toOption.any (fun spans => DistinctIds spans ∧
      spans.map (fun p => (p.id, p.parentId)) = [(27, some 7), (27, some 7), (48, some 7), (48, some 7), (7, none)]) := by
    decide +kernel
  rw [hexec] at hmade
  exact ⟨spans, s', hexec, of_decide_eq_true hmade⟩

theorem spans_adjust_genTrace_perm_inTurn : ∃ spans s', exec (genTrace 2 nineHours) inTurn = (.ok spans, s') ∧
    spans.map (fun p => (p.id, p.parentId)) = [(27, some 7), (27, some 7), (48, some 7), (48, some 7), (7, none)] ∧
    ((adjust wrap64 (.insertion _) ⟨spans⟩).spans (.insertion _)).Perm ((⟨spans⟩ : Trace _).spans (.insertion _)) := by
  obtain ⟨spans, s', hexec, hdistinct, hids⟩ := exec_inTurn
  exact ⟨spans, s', hexec, hids, spans_adjust_genTrace_perm (.insertion _) 2 nineHours (by decide) (by decide) (by decide)
    (by decide) inTurn s' spans hexec hdistinct⟩

/-! ## Intervals -/

section Intervals
variable {t : RoseTree Call} (h : Whole t)
include h

theorem serverTimes {c : Call} {s : Part} (hc : c ∈ t.labels) (hspan : IsSpan c s) :
    s.annotations.filter (·.value == ServerRecv) = [⟨c.sr, ServerRecv, some c.ep⟩] ∧
      s.annotations.filter (·.value == ServerSend) = [⟨c.ss, ServerSend, some c.ep⟩] := by
  have hserved := h.nested.served c hc
  rcases h.client_cases hc with rfl | ⟨-, -, -, client, cs, cr, hasked, -⟩
  · have hperm := hspan.annotations_perm_server h.client_eq
    exact ⟨List.perm_singleton.1 (hserved.serverRecv ▸ hperm.filter _),
      List.perm_singleton.1 (hserved.serverSend ▸ hperm.filter _)⟩
  · have horder := hspan.inOrder hserved hasked
    exact ⟨horder.serverRecv, horder.serverSend⟩

end Intervals

/-- **A trace that is made up is one tree**, and all that happens in a call happens while its caller is served. -/
theorem nested_genTrace (ord : HashOrder (List UInt8)) (maxDepth now : Int) (hdepth : 0 < maxDepth)
    (hpast : 8 * 3600000000000 ≤ now) (s s' : State) (spans : List Part)
    (hexec : exec (genTrace maxDepth now) s = (.ok spans, s'))
    (hdistinct : DistinctIds spans) : ∃ r, (⟨spans⟩ : Trace _).getRootSpan ord = some r ∧
      (∀ p ∈ (⟨spans⟩ : Trace _).spans ord, Trace.Reachable ord ⟨spans⟩ r p) ∧ ∀ p c, Trace.ChildOf ord ⟨spans⟩ p c →
        ∃ sr ss ep, p.annotations.filter (·.value == ServerRecv) = [⟨sr, ServerRecv, ep⟩] ∧
          p.annotations.filter (·.value == ServerSend) = [⟨ss, ServerSend, ep⟩] ∧
            ∀ a ∈ c.annotations, sr ≤ a.timestamp ∧ a.timestamp ≤ ss := by
  obtain ⟨spans', s'', hexec', t, hnested, hclient, hparent, -, -, hperm⟩ := yields_genTrace hdepth hpast s
  obtain rfl : spans = spans' := Except.ok.inj (Prod.mk.inj (hexec.symm.trans hexec')).1
  have h : Whole t := ⟨hnested, hclient, hparent⟩
  obtain ⟨r, hr, hroot⟩ := getRootSpan_eq ord hperm h hdistinct
  have hrmem := (Trace.getRootSpan_eq_some ord _ hr).1
  refine ⟨r, hr, fun p hp => ?_, fun p c hchild => ?_⟩
  · obtain ⟨a, ha, hspan⟩ := exists_call ord hperm h hdistinct hp
    exact reachable ord hperm h hdistinct hrmem hroot ha p hp hspan.id_eq
  · obtain ⟨hp, hc, hpc⟩ := hchild
    rcases span_cases ord hperm h hdistinct hc with ⟨-, hnone⟩ |
      ⟨a, ha, hcaller, b, hb, hspan, client, cs, cr, hasked, hcs, hcr⟩
    · rw [hpc] at hnone
      cases hnone
    · -- the span of the caller is the parent
      obtain ⟨a', ha', hpspan⟩ := exists_call ord hperm h hdistinct hp
      have hids : a'.server.id = a.server.id := hpspan.id_eq.symm.trans (Option.some.inj (hpc.symm.trans hcaller))
      obtain rfl : a' = a := List.inj_on_of_nodup_map (h.nodup_ids hperm hdistinct) ha' ha hids
      obtain ⟨hrecv, hsend⟩ := serverTimes h ha' hpspan
      refine ⟨a'.sr, a'.ss, some a'.ep, hrecv, hsend, fun x hx => ?_⟩
      obtain ⟨hle, hge⟩ := hspan.between (h.nested.served b hb) hasked x hx
      exact ⟨hcs.trans hle, hge.trans hcr⟩

/-- The span of the first call has two children. -/
theorem nested_genTrace_inTurn : ∃ spans s' r, exec (genTrace 2 nineHours) inTurn = (.ok spans, s') ∧
    spans.map (fun p => (p.id, p.parentId)) = [(27, some 7), (27, some 7), (48, some 7), (48, some 7), (7, none)] ∧
    (⟨spans⟩ : Trace _).getRootSpan (.insertion _) = some r ∧
    (∀ p ∈ (⟨spans⟩ : Trace _).spans (.insertion (List UInt8)), Trace.Reachable (.insertion _) ⟨spans⟩ r p) ∧
    ∀ p c, Trace.ChildOf (.insertion _) ⟨spans⟩ p c →
      ∃ sr ss ep, p.annotations.filter (·.value == ServerRecv) = [⟨sr, ServerRecv, ep⟩] ∧
        p.annotations.filter (·.value == ServerSend) = [⟨ss, ServerSend, ep⟩] ∧
          ∀ a ∈ c.annotations, sr ≤ a.timestamp ∧ a.timestamp ≤ ss := by
  obtain ⟨spans, s', hexec, hdistinct, hids⟩ := exec_inTurn
  obtain ⟨r, hr, hreach, hwithin⟩ := nested_genTrace (.insertion _) 2 nineHours (by decide) (by decide) inTurn s' spans hexec
    hdistinct
  exact ⟨spans, s', r, hexec, hids, hr, hreach, hwithin⟩

end TraceGen
end Zipkin
