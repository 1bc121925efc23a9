import Zipkin.Trace
/-!
# TraceMerge — what merging keeps of the parts

`MergeOf parts s` says what a merged span has of each part.  Each rule of `mergeSpan` keeps it (`MergeOf.merged`), so it
holds of every merge of any number of parts, and of each span of a trace for the parts with its id (`mergeOf_spans`).

Merging in another order gives the same span in all but one rule: the parent is the first part's, also when that part
has none.  `orderIndependent_iff` says exactly when the order of arrival is not seen.
-/
namespace Zipkin

open StableSort AssocMap

variable {β : Type}

/-- The names that `mergeSpan` passes over. -/
def Blank (name : String) : Prop := name = "" ∨ name = "Unknown"

instance (name : String) : Decidable (Blank name) := inferInstanceAs (Decidable (_ ∨ _))

/-- What a merged span has of its parts, in the order in which they were merged. -/
structure MergeOf (parts : List (Span β)) (s : Span β) : Prop where
  traceId : (parts.map Span.traceId).head? = some s.traceId
  parentId : (parts.map Span.parentId).head? = some s.parentId
  annotations : s.annotations.Perm (parts.flatMap Span.annotations)
  binaryAnnotations : s.binaryAnnotations = parts.flatMap Span.binaryAnnotations
  debug : s.debug = parts.any Span.debug
  name_mem : s.name ∈ parts.map Span.name
  name_of_named : (∃ p ∈ parts, ¬ Blank p.name) → ¬ Blank s.name

theorem MergeOf.single (s : Span β) : MergeOf [s] s where
  traceId := rfl
  parentId := rfl
  annotations := by simp
  binaryAnnotations := by simp
  debug := by simp
  name_mem := by simp
  name_of_named := by rintro ⟨p, hp, hn⟩; rwa [List.mem_singleton.1 hp] at hn

theorem name_merged (s m : Span β) : (s.merged m).name = if Blank s.name then m.name else s.name := by
  unfold Span.merged Blank
  by_cases h1 : s.name = "" <;> by_cases h2 : s.name = "Unknown" <;> simp [h1, h2]

/-- **Merging one more part keeps what the span has of the parts.** -/
theorem MergeOf.merged {parts : List (Span β)} {s : Span β} (h : MergeOf parts s) (m : Span β) :
    MergeOf (parts ++ [m]) (s.merged m) where
  traceId := by rw [List.map_append, List.head?_append, h.traceId]; rfl
  parentId := by rw [List.map_append, List.head?_append, h.parentId]; rfl
  annotations := by
    rw [List.flatMap_append, List.flatMap_singleton]
    exact (sorted_perm _ _).trans (h.annotations.append_right _)
  binaryAnnotations := by
    rw [List.flatMap_append, List.flatMap_singleton, ← h.binaryAnnotations]; rfl
  debug := by
    rw [List.any_append, ← h.debug]; simp [Span.merged]
  name_mem := by
    rw [name_merged, List.map_append, List.mem_append]
    split
    · exact Or.inr (by simp)
    · exact Or.inl h.name_mem
  name_of_named := by
    rintro ⟨p, hp, hn⟩
    rw [name_merged]
    split
    · -- the name so far is blank, so no earlier part has a name
      rename_i hblank
      rcases List.mem_append.1 hp with hp | hp
      · exact absurd hblank (h.name_of_named ⟨p, hp, hn⟩)
      · rwa [List.mem_singleton.1 hp] at hn
    · assumption

theorem mergeOf_of_mergeAll {parts : List (Span β)} {s : Span β} (h : mergeAll Span.merged parts = some s) :
    MergeOf parts s :=
  mergeAll_induction Span.merged MergeOf.single (fun _ _ m hm => hm.merged m) h

variable (ord : HashOrder β)

def partsOf (parts : List (Span β)) (k : Int64) : List (Span β) := parts.filter (fun p => decide (p.id = k))

theorem mem_partsOf {parts : List (Span β)} {k : Int64} {p : Span β} : p ∈ partsOf parts k ↔ p ∈ parts ∧ p.id = k := by
  rw [partsOf, List.mem_filter, decide_eq_true_eq]

theorem mergeOf_spans {t : Trace β} {s : Span β} (h : s ∈ t.spans ord) : MergeOf (partsOf t.s s.id) s :=
  mergeOf_of_mergeAll ((Trace.mem_spans ord).1 h)

/-- **The binary annotations of the merged spans** are those of the parts. -/
theorem binaryAnnotations_spans_perm (t : Trace β) :
    ((t.spans ord).flatMap Span.binaryAnnotations).Perm (t.s.flatMap Span.binaryAnnotations) := by
  have heq : (t.spans ord).flatMap Span.binaryAnnotations =
      (((t.spans ord).map Span.id).flatMap (partsOf t.s)).flatMap Span.binaryAnnotations := by
    rw [List.flatMap_map, List.flatMap_assoc]
    exact List.flatMap_congr (fun s hs => (mergeOf_spans ord hs).binaryAnnotations)
  rw [heq]
  exact (flatMap_filter_perm Span.id (Trace.nodup_ids ord t)
    (fun p hp => (Trace.mem_ids ord).2 (List.mem_map_of_mem hp))).flatMap_right _

/-- **Merging by span id**: one span for each id of the parts, with everything its parts have, nothing twice; the spans
in ascending order of their first timestamp. -/
theorem spans_merge_parts (parts : List (Span β)) :
    (((⟨parts⟩ : Trace β).spans ord).map Span.id).Nodup ∧
    (∀ k, k ∈ ((⟨parts⟩ : Trace β).spans ord).map Span.id ↔ k ∈ parts.map Span.id) ∧
    (∀ s ∈ (⟨parts⟩ : Trace β).spans ord,
      s.annotations.Pairwise (fun a b => (compare a b).isLE = true) ∧
      s.annotations.Perm ((partsOf parts s.id).flatMap Span.annotations) ∧
      s.binaryAnnotations.Perm ((partsOf parts s.id).flatMap Span.binaryAnnotations) ∧
      s.debug = (partsOf parts s.id).any Span.debug ∧
      s.name ∈ (partsOf parts s.id).map Span.name ∧
      ((∃ p ∈ partsOf parts s.id, ¬ Blank p.name) → ¬ Blank s.name)) ∧
    ((⟨parts⟩ : Trace β).spans ord).Pairwise
      (fun a b => a.firstTimestamp.getD 0 ≤ b.firstTimestamp.getD 0) := by
  refine ⟨Trace.nodup_ids ord _, fun k => Trace.mem_ids ord, fun s hs => ?_, ?_⟩
  · have hm := mergeOf_spans ord hs
    exact ⟨s.sorted, hm.annotations, hm.binaryAnnotations ▸ .refl _, hm.debug, hm.name_mem, hm.name_of_named⟩
  · exact (Trace.pairwise_spans ord _).imp Span.firstTimestamp_le_of_le

/-! ## A merge of some of the parts -/

/-- Whatever `s` has, `s'` has too. -/
structure Carries (s' s : Span β) : Prop where
  annotations : s.annotations ⊆ s'.annotations
  binaryAnnotations : s.binaryAnnotations ⊆ s'.binaryAnnotations
  name : ¬ Blank s.name → s'.name = s.name
  parentId : ∀ parent, s.parentId = some parent → s'.parentId = some parent
  debug : s.debug = true → s'.debug = true

def named (p : Span β) : Bool := !decide (Blank p.name)

/-- Whatever the parts have, some of `kept` have too: of the names the first of both, and the parent of the first part. -/
structure Covers (kept parts : List (Span β)) : Prop where
  annotations : ∀ p ∈ parts, ∀ a ∈ p.annotations, ∃ q ∈ kept, a ∈ q.annotations
  binaryAnnotations : ∀ p ∈ parts, ∀ b ∈ p.binaryAnnotations, ∃ q ∈ kept, b ∈ q.binaryAnnotations
  name : ∀ p, parts.find? named = some p → ∃ q, kept.find? named = some q ∧ q.name = p.name
  parentId : ∀ p, parts.head? = some p → ∀ parent, p.parentId = some parent →
    ∃ q, kept.head? = some q ∧ q.parentId = some parent
  debug : ∀ p ∈ parts, p.debug = true → ∃ q ∈ kept, q.debug = true

/-- **The name of a merge** is the first that is not blank. -/
theorem name_of_mergeAll {parts : List (Span β)} {s : Span β} (h : mergeAll Span.merged parts = some s) :
    (parts.find? named).map Span.name = if Blank s.name then none else some s.name := by
  have hsingle (m : Span β) : ([m].find? named).map Span.name = if Blank m.name then none else some m.name := by
    by_cases hblank : Blank m.name <;> simp [named, hblank]
  refine mergeAll_induction Span.merged
    (P := fun parts s => (parts.find? named).map Span.name = if Blank s.name then none else some s.name) hsingle
    (fun parts old m hold => ?_) h
  rw [List.find?_append, name_merged]
  by_cases hblank : Blank old.name
  · rw [if_pos hblank, Option.map_eq_none_iff] at hold
    rw [hold, Option.none_or, if_pos hblank]
    exact hsingle m
  · rw [if_neg hblank] at hold
    obtain ⟨p, hp, hname⟩ := Option.map_eq_some_iff.1 hold
    rw [hp, Option.some_or, Option.map_some, hname, if_neg hblank, if_neg hblank]

/-- **What a merge of `kept` carries**: all of the merge of the parts exactly when `kept` covers the parts. -/
theorem carries_iff_covers {parts kept : List (Span β)} {s s' : Span β} (h : mergeAll Span.merged parts = some s)
    (h' : mergeAll Span.merged kept = some s') : Carries s' s ↔ Covers kept parts := by
  have hs := mergeOf_of_mergeAll h
  have hs' := mergeOf_of_mergeAll h'
  have hparent : ∀ {l : List (Span β)} {t : Span β}, MergeOf l t → l.head?.map Span.parentId = some t.parentId :=
    fun {l t} ht => by rw [← List.head?_map]; exact ht.parentId
  have hdebug : ∀ {l : List (Span β)} {t : Span β}, MergeOf l t → (t.debug = true ↔ ∃ q ∈ l, q.debug = true) :=
    fun {l t} ht => by rw [ht.debug, List.any_eq_true]
  have hname : ∀ {l : List (Span β)} {t : Span β}, mergeAll Span.merged l = some t → ∀ n,
      (∃ q, l.find? named = some q ∧ q.name = n) ↔ ¬ Blank t.name ∧ t.name = n := fun {l t} ht n => by
    rw [← Option.map_eq_some_iff, name_of_mergeAll ht]
    by_cases hblank : Blank t.name <;> simp [hblank]
  constructor
  · intro hc
    refine ⟨fun p hp a ha => ?_, fun p hp b hb => ?_, fun p hp => ?_, fun p hp parent hpp => ?_, fun p hp hpd => ?_⟩
    · have hmem := hc.annotations (hs.annotations.mem_iff.2 (List.mem_flatMap.2 ⟨p, hp, ha⟩))
      exact List.mem_flatMap.1 (hs'.annotations.mem_iff.1 hmem)
    · have hmem := hc.binaryAnnotations (hs.binaryAnnotations ▸ List.mem_flatMap.2 ⟨p, hp, hb⟩)
      exact List.mem_flatMap.1 (hs'.binaryAnnotations ▸ hmem)
    · obtain ⟨hblank, hpname⟩ := (hname h p.name).1 ⟨p, hp, rfl⟩
      refine (hname h' p.name).2 ⟨?_, (hc.name hblank).trans hpname⟩
      rw [hc.name hblank]
      exact hblank
    · have hsp : s.parentId = some parent := by
        have hhead := hparent hs
        rw [hp, Option.map_some] at hhead
        rw [← Option.some.inj hhead, hpp]
      obtain ⟨q, hq, hqp⟩ := Option.map_eq_some_iff.1 (hparent hs')
      exact ⟨q, hq, hqp.trans (hc.parentId parent hsp)⟩
    · exact (hdebug hs').1 (hc.debug ((hdebug hs).2 ⟨p, hp, hpd⟩))
  · intro hc
    refine ⟨fun a ha => ?_, fun b hb => ?_, fun hblank => ?_, fun parent hsp => ?_, fun hsd => ?_⟩
    · obtain ⟨p, hp, ha⟩ := List.mem_flatMap.1 (hs.annotations.mem_iff.1 ha)
      exact hs'.annotations.mem_iff.2 (List.mem_flatMap.2 (hc.annotations p hp a ha))
    · obtain ⟨p, hp, hb⟩ := List.mem_flatMap.1 (hs.binaryAnnotations ▸ hb)
      rw [hs'.binaryAnnotations]
      exact List.mem_flatMap.2 (hc.binaryAnnotations p hp b hb)
    · obtain ⟨p, hp, hpname⟩ := (hname h s.name).2 ⟨hblank, rfl⟩
      exact hpname ▸ ((hname h' p.name).1 (hc.name p hp)).2
    · obtain ⟨p, hp, hpp⟩ := Option.map_eq_some_iff.1 (hparent hs)
      obtain ⟨q, hq, hqp⟩ := hc.parentId p hp parent (hpp.trans hsp)
      have hhead := hparent hs'
      rw [hq, Option.map_some] at hhead
      rw [← Option.some.inj hhead, hqp]
    · obtain ⟨p, hp, hpd⟩ := (hdebug hs).1 hsd
      exact (hdebug hs').2 (hc.debug p hp hpd)

/-! ## The order of arrival -/

/-- Parts that can belong together: those of one span id agree on the trace id, on the parent where both have one, and
on the name where both have one. -/
structure Compatible (parts : List (Span β)) : Prop where
  traceId : ∀ p ∈ parts, ∀ q ∈ parts, p.id = q.id → p.traceId = q.traceId
  parentId : ∀ p ∈ parts, ∀ q ∈ parts, p.id = q.id → ∀ a b, p.parentId = some a → q.parentId = some b → a = b
  name : ∀ p ∈ parts, ∀ q ∈ parts, p.id = q.id → ¬ Blank p.name → ¬ Blank q.name → p.name = q.name

/-- Two spans are the same but for the order of binary annotations, and for the name if no part has one. -/
structure SameSpan (parts : List (Span β)) (s s' : Span β) : Prop where
  traceId : s.traceId = s'.traceId
  parentId : s.parentId = s'.parentId
  annotations : s.annotations = s'.annotations
  binaryAnnotations : s.binaryAnnotations.Perm s'.binaryAnnotations
  debug : s.debug = s'.debug
  name : (∃ p ∈ parts, p.id = s.id ∧ ¬ Blank p.name) → s.name = s'.name

/-- The same spans, in an order that differs at most among equal timestamps. -/
def SameSpans (parts : List (Span β)) (l l' : List (Span β)) : Prop :=
  (l.map Span.id).Perm (l'.map Span.id) ∧
  l.map (fun s => s.firstTimestamp.getD 0) = l'.map (fun s => s.firstTimestamp.getD 0) ∧
  ∀ s ∈ l, ∀ s' ∈ l', s.id = s'.id → SameSpan parts s s'

/-- The merged trace does not depend on the order of the parts, and keeps every parent that a part has. -/
def OrderIndependent (parts : List (Span β)) : Prop :=
  (∀ parts', parts.Perm parts' →
    SameSpans parts ((⟨parts⟩ : Trace β).spans ord) ((⟨parts'⟩ : Trace β).spans ord)) ∧
  ∀ p ∈ parts, ∀ a, p.parentId = some a → ∀ s ∈ (⟨parts⟩ : Trace β).spans ord, s.id = p.id → s.parentId = some a

theorem MergeOf.exists_parentId {parts : List (Span β)} {s : Span β} (h : MergeOf parts s) :
    ∃ p ∈ parts, p.parentId = s.parentId ∧ p.traceId = s.traceId := by
  cases parts with
  | nil => cases h.parentId
  | cons p ps => exact ⟨p, List.mem_cons_self, Option.some.inj h.parentId, Option.some.inj h.traceId⟩

/-- **Two merges of the same parts in two orders** differ at most in the parent, the trace id and the name. -/
theorem sameSpan_of_mergeOf {parts ps ps' : List (Span β)} {s s' : Span β} (hc : Compatible parts)
    (hparent : ∀ p ∈ parts, ∀ q ∈ parts, p.id = q.id → p.parentId = q.parentId)
    (hps : ∀ p, p ∈ ps ↔ p ∈ parts ∧ p.id = s.id) (hperm : ps.Perm ps') (h : MergeOf ps s) (h' : MergeOf ps' s') :
    SameSpan parts s s' := by
  have hps' : ∀ p, p ∈ ps' ↔ p ∈ parts ∧ p.id = s.id := fun p => hperm.mem_iff.symm.trans (hps p)
  obtain ⟨p, hp, hpp, hpt⟩ := h.exists_parentId
  obtain ⟨q, hq, hqp, hqt⟩ := h'.exists_parentId
  obtain ⟨hp, hpid⟩ := (hps p).1 hp
  obtain ⟨hq, hqid⟩ := (hps' q).1 hq
  have hid : p.id = q.id := hpid.trans hqid.symm
  refine ⟨?_, ?_, ?_, ?_, ?_, ?_⟩
  · rw [← hpt, ← hqt]; exact hc.traceId p hp q hq hid
  · rw [← hpp, ← hqp]; exact hparent p hp q hq hid
  · have hann : s.annotations.Perm s'.annotations :=
      h.annotations.trans ((hperm.flatMap_right _).trans h'.annotations.symm)
    rw [← sorted_eq_self _ s.sorted, ← sorted_eq_self _ s'.sorted]
    exact sorted_eq_of_perm _ hann
  · rw [h.binaryAnnotations, h'.binaryAnnotations]
    exact hperm.flatMap_right _
  · rw [h.debug, h'.debug]
    exact hperm.any_eq
  · rintro ⟨r, hr, hrid, hrn⟩
    have hn := h.name_of_named ⟨r, (hps r).2 ⟨hr, hrid⟩, hrn⟩
    have hn' := h'.name_of_named ⟨r, (hps' r).2 ⟨hr, hrid⟩, hrn⟩
    obtain ⟨u, hu, hun⟩ := List.mem_map.1 h.name_mem
    obtain ⟨v, hv, hvn⟩ := List.mem_map.1 h'.name_mem
    obtain ⟨hu, huid⟩ := (hps u).1 hu
    obtain ⟨hv, hvid⟩ := (hps' v).1 hv
    rw [← hun, ← hvn]
    exact hc.name u hu v hv (huid.trans hvid.symm) (hun ▸ hn) (hvn ▸ hn')

theorem map_perm_of_ids {l l' : List (Span β)} (f : Span β → Int) (hl : (l.map Span.id).Nodup)
    (hp : (l.map Span.id).Perm (l'.map Span.id)) (hf : ∀ s ∈ l, ∀ s' ∈ l', s.id = s'.id → f s = f s') :
    (l.map f).Perm (l'.map f) := by
  let g : Int64 → Int := fun k => ((l.find? (fun s => s.id == k)).map f).getD 0
  have hfind : ∀ s ∈ l, l.find? (fun r => r.id == s.id) = some s := by
    intro s hs
    obtain ⟨r, hr⟩ := Option.isSome_iff_exists.1
      (List.find?_isSome.2 ⟨s, hs, beq_self_eq_true s.id⟩ : (l.find? (fun r => r.id == s.id)).isSome)
    have hid : r.id = s.id := by simpa using List.find?_some hr
    rw [hr, List.inj_on_of_nodup_map hl (List.mem_of_find?_eq_some hr) hs hid]
  have h1 : l.map f = (l.map Span.id).map g := by
    rw [List.map_map]
    exact List.map_congr_left (fun s hs => by simp [g, hfind s hs])
  have h2 : l'.map f = (l'.map Span.id).map g := by
    rw [List.map_map]
    refine List.map_congr_left (fun s' hs' => ?_)
    obtain ⟨s, hs, hid⟩ := List.mem_map.1 (hp.mem_iff.2 (List.mem_map_of_mem hs'))
    have hg : g s'.id = f s := by simp only [g]; rw [← hid, hfind s hs]; rfl
    rw [Function.comp_apply, hg]
    exact (hf s hs s' hs' hid).symm
  rw [h1, h2]
  exact hp.map g

theorem sameSpans_of_perm {parts parts' : List (Span β)} (hc : Compatible parts)
    (hparent : ∀ p ∈ parts, ∀ q ∈ parts, p.id = q.id → p.parentId = q.parentId) (hperm : parts.Perm parts') :
    SameSpans parts ((⟨parts⟩ : Trace β).spans ord) ((⟨parts'⟩ : Trace β).spans ord) := by
  have hids : (((⟨parts⟩ : Trace β).spans ord).map Span.id).Perm (((⟨parts'⟩ : Trace β).spans ord).map Span.id) := by
    rw [List.perm_ext_iff_of_nodup (Trace.nodup_ids ord _) (Trace.nodup_ids ord _)]
    intro k
    rw [Trace.mem_ids, Trace.mem_ids]
    exact (hperm.map Span.id).mem_iff
  have hsame : ∀ s ∈ (⟨parts⟩ : Trace β).spans ord, ∀ s' ∈ (⟨parts'⟩ : Trace β).spans ord, s.id = s'.id →
      SameSpan parts s s' := by
    intro s hs s' hs' hid
    have hm' := mergeOf_spans ord hs'
    rw [← hid] at hm'
    exact sameSpan_of_mergeOf hc hparent (fun p => mem_partsOf) (hperm.filter _) (mergeOf_spans ord hs) hm'
  refine ⟨hids, ?_, hsame⟩
  have hts := map_perm_of_ids (fun s => s.firstTimestamp.getD 0) (Trace.nodup_ids ord _) hids
    (fun s hs s' hs' hid => by
      simp only [Span.firstTimestamp, Span.firstAnnotation, (hsame s hs s' hs' hid).annotations])
  refine List.Perm.eq_of_pairwise (fun a b _ _ => Int.le_antisymm) ?_ ?_ hts
  · exact List.pairwise_map.2 ((Trace.pairwise_spans ord _).imp Span.firstTimestamp_le_of_le)
  · exact List.pairwise_map.2 ((Trace.pairwise_spans ord _).imp Span.firstTimestamp_le_of_le)

theorem exists_span_of_part {parts : List (Span β)} {p : Span β} (hp : p ∈ parts) :
    ∃ s ∈ (⟨parts⟩ : Trace β).spans ord, s.id = p.id :=
  List.mem_map.1 ((Trace.mem_ids ord).2 (List.mem_map_of_mem hp))

theorem parentId_of_head {p : Span β} {parts : List (Span β)} {s : Span β}
    (hs : s ∈ (⟨p :: parts⟩ : Trace β).spans ord) (hid : s.id = p.id) : s.parentId = p.parentId := by
  have hm := (mergeOf_spans ord hs).parentId
  rw [partsOf, List.filter_cons_of_pos (by simp [hid]), List.map_cons, List.head?_cons] at hm
  exact (Option.some.inj hm).symm

/-- **When the order of arrival is not seen**: exactly when the parts of each span id all carry the same parent, or all
none. -/
theorem orderIndependent_iff (parts : List (Span β)) (hc : Compatible parts) :
    OrderIndependent ord parts ↔ ∀ p ∈ parts, ∀ q ∈ parts, p.id = q.id → p.parentId = q.parentId := by
  constructor
  · rintro ⟨hperm, -⟩ p hp q hq hid
    classical
    -- bring each of the two parts to the front: the span then has its parent
    have hfront : ∀ r ∈ parts, r.id = p.id → ∀ s ∈ (⟨parts⟩ : Trace β).spans ord, s.id = p.id →
        s.parentId = r.parentId := by
      intro r hr hrid s hs hsid
      have hpr := List.perm_cons_erase hr
      obtain ⟨s', hs', hsid'⟩ := exists_span_of_part ord (hpr.mem_iff.1 hr)
      have hsame := (hperm _ hpr).2.2 s hs s' hs' (by rw [hsid, hsid', hrid])
      rw [hsame.parentId]
      exact parentId_of_head ord hs' hsid'
    obtain ⟨s, hs, hsid⟩ := exists_span_of_part ord hp
    rw [← hfront p hp rfl s hs hsid, ← hfront q hq hid.symm s hs hsid]
  · intro hparent
    refine ⟨fun parts' hperm => sameSpans_of_perm ord hc hparent hperm, fun p hp a ha s hs hid => ?_⟩
    obtain ⟨q, hq, hqp, -⟩ := (mergeOf_spans ord hs).exists_parentId
    obtain ⟨hq, hqid⟩ := mem_partsOf.1 hq
    rw [← hqp, hparent q hq p hp (hqid.trans hid), ha]

/-- The two halves of a call that agree on its parent. -/
theorem orderIndependent_two_halves :
    OrderIndependent (HashOrder.insertion Unit)
      [Span.apply 1 "get" 2 (some 1) [⟨10, "cs", none⟩] [], Span.apply 1 "" 2 (some 1) [⟨12, "sr", none⟩] []] :=
  (orderIndependent_iff (HashOrder.insertion Unit) _ ⟨by decide, by simp [Span.apply], by decide⟩).2 (by decide)

/-- The server's half, which does not know the parent, and the client's half, which does. -/
def halvesWithoutParent : List (Span Unit) :=
  [Span.apply 1 "get" 2 none [⟨12, "sr", none⟩] [], Span.apply 1 "get" 2 (some 1) [⟨10, "cs", none⟩] []]

/-- The server's half came first: the parent that the client's half has is lost. -/
theorem not_orderIndependent_of_missing_parent :
    Compatible halvesWithoutParent ∧ ¬ OrderIndependent (HashOrder.insertion Unit) halvesWithoutParent := by
  refine ⟨⟨by decide, by simp [halvesWithoutParent, Span.apply], by decide⟩, fun h => ?_⟩
  have hparent := h.2 _ (List.mem_cons_of_mem _ List.mem_cons_self) 1 rfl
  revert hparent
  decide

end Zipkin
