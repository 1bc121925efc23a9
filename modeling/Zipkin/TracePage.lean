import Mathlib.Data.Finset.Basic
import Zipkin.Base.Transition
import Zipkin.Base.Visit
/-!
# TracePage — the spans that the trace page shows

`trace.js`: `setupSpan` reads the span elements of the page, in the order of the document, and the events then show and hide
spans by three counters.  `inFilters` counts what a span is open for, `openParents` its open parents and `openChildren` its
open descendants.  Closing an expander takes back what its opening did to the children, but not what it did to the ancestors.
-/
namespace Zipkin
namespace TracePage

variable {ι σ : Type} [DecidableEq ι]

/-- What `setupSpan` reads of a span element; `shown` is how the style sheet draws it. -/
structure Element (ι σ : Type) where
  id : ι
  children : List ι
  parentId : Option ι
  serviceNames : List σ
  shown : Bool
deriving DecidableEq

/-- The span elements of the trace container.  Every id that one of them mentions is that of one of them, so that no lookup
in `self.spans` is `undefined`. -/
structure Container (ι σ : Type) where
  elements : List (Element ι σ)
  nodup : (elements.map Element.id).Nodup
  children_mem : ∀ e ∈ elements, ∀ child ∈ e.children, child ∈ elements.map Element.id
  parentId_mem : ∀ e ∈ elements, ∀ parent ∈ e.parentId, parent ∈ elements.map Element.id

/-- A `$span`, as far as the events change it. -/
structure Span where
  expanded : Bool
  inFilters : Int
  openChildren : Int
  openParents : Int
  shown : Bool
  highlight : Bool
deriving DecidableEq

/-- `this` -/
structure Component (ι σ : Type) where
  spans : ι → Span
  parents : ι → List ι
  children : ι → List ι
  spansByService : σ → List ι

def initial : Component ι σ where
  spans := fun _ => ⟨false, 0, 0, 0, false, false⟩
  parents := fun _ => []
  children := fun _ => []
  spansByService := fun _ => []

def setupSpan [DecidableEq σ] (self : Component ι σ) (e : Element ι σ) : Component ι σ :=
  let parents := Function.update self.parents e.id e.parentId.toList
  let merged := match e.parentId with
    | none => parents
    | some parentId => Function.update parents e.id (parents e.id ++ parents parentId)
  { spans := Function.update self.spans e.id ⟨false, 0, 0, 0, e.shown, false⟩
    parents := merged
    children := Function.update self.children e.id e.children
    spansByService := e.serviceNames.foldl (fun byService sn => Visit.entry (· ++ [e.id]) byService sn) self.spansByService }

def Container.setup [DecidableEq σ] (c : Container ι σ) : Component ι σ := c.elements.foldl setupSpan initial

/-- The ids of the span elements in the document: those of the trace container and those of its backup, which repeats it. -/
def Container.document (c : Container ι σ) : List ι := c.elements.map Element.id ++ c.elements.map Element.id

/-- The spans of the elements that `$('#a')` or `$('#a,#b,…')` finds.  The first is by `getElementById`, so it is one
element; the others are all elements with one of the ids, those of the backup too. -/
def getSpansByService (c : Container ι σ) (self : Component ι σ) (svc : σ) : List ι :=
  match self.spansByService svc with
  | [] => []
  | [id] => (c.document.find? (· = id)).toList
  | ids => c.document.filter (· ∈ ids)

/-- `$span.show()` -/
def display (span : Span) : Span := { span with shown := true }

def hideSpan (span : Span) : Span :=
  if span.inFilters > 0 ∨ span.openChildren > 0 ∨ span.openParents > 0 then span else { span with shown := false }

/-! ## Expanding and collapsing -/

def addOpenParents (n : Int) (span : Span) : Span := { span with openParents := span.openParents + n }

def addOpenChildren (n : Int) (span : Span) : Span := { span with openChildren := span.openChildren + n }

/-- The change of `expandSpans` to the span itself. -/
def expanding (span : Span) : Span :=
  let span := if span.inFilters = 0 then { span with shown := true, highlight := true } else span
  { span with expanded := true, inFilters := span.inFilters + 1 }

def expandSpan (self : Component ι σ) (spans : ι → Span) (id : ι) : ι → Span :=
  let spans := Visit.entry expanding spans id
  let spans := Visit.each (addOpenParents 1) (self.children id) spans
  Visit.each (addOpenChildren 1) (self.parents id) spans

def expandSpans (self : Component ι σ) (ids : List ι) : Component ι σ :=
  let toShow := (ids.flatMap fun id => self.children id ++ self.parents id).dedup
  { self with spans := Visit.each display toShow (ids.foldl (expandSpan self) self.spans) }

/-- The change of `collapseSpans` to the span itself. -/
def collapsing (childrenOnly : Bool) (span : Span) : Span :=
  let span := { span with inFilters := span.inFilters - 1 }
  let span := if !childrenOnly && decide (span.inFilters = 0) then hideSpan { span with highlight := false } else span
  { span with expanded := false }

def collapseSpan (self : Component ι σ) (childrenOnly : Bool) (spans : ι → Span) (id : ι) : ι → Span :=
  let spans := Visit.entry (collapsing childrenOnly) spans id
  let spans := Visit.each (addOpenParents (-1)) (self.children id) spans
  if childrenOnly then spans
  else Visit.each (addOpenChildren (-1)) (self.parents id) spans

def collapseSpans (self : Component ι σ) (ids : List ι) (childrenOnly : Bool) : Component ι σ :=
  let toHide := (ids.flatMap fun id => self.children id ++ if childrenOnly then [] else self.parents id).dedup
  { self with spans := Visit.each hideSpan toHide (ids.foldl (collapseSpan self childrenOnly) self.spans) }

/-! ## The events -/

def filterAdded (c : Container ι σ) (self : Component ι σ) (svc : σ) : Component ι σ :=
  expandSpans self (getSpansByService c self svc)

def filterRemoved (c : Container ι σ) (self : Component ι σ) (svc : σ) : Component ι σ :=
  collapseSpans self (getSpansByService c self svc) false

def toggleExpander (self : Component ι σ) (id : ι) : Component ι σ :=
  if (self.spans id).expanded then collapseSpans self [id] true else expandSpans self [id]

inductive Event (ι σ : Type) where
  | filterAdded (svc : σ)
  | filterRemoved (svc : σ)
  | toggleExpander (id : ι)

/-- An event; only the expander of a span of the page can be clicked. -/
def step (c : Container ι σ) (self : Component ι σ) : Event ι σ → Option (Component ι σ)
  | .filterAdded svc => some (filterAdded c self svc)
  | .filterRemoved svc => some (filterRemoved c self svc)
  | .toggleExpander id => if id ∈ c.elements.map Element.id then some (toggleExpander self id) else none

/-- The state after `initialize`: the filter of the page's address, or else the expansion of the first span. -/
def afterInitialize [DecidableEq σ] (c : Container ι σ) (serviceName : Option σ) : Option (Component ι σ) :=
  match serviceName with
  | some svc => some (filterAdded c c.setup svc)
  | none => c.elements.head?.map fun e => expandSpans c.setup [e.id]

/-! ## What the events add -/

/-- `inFilters`, `openChildren` and `openParents` -/
def Span.counts (span : Span) : Int × Int × Int := (span.inFilters, span.openChildren, span.openParents)

section
variable {self : Component ι σ} {ids : List ι} {childrenOnly : Bool}

theorem counts_expanding (span : Span) : (expanding span).counts = span.counts + (1, 0, 0) := by
  simp only [expanding, Span.counts, Prod.mk_add_mk, add_zero]
  split <;> rfl

theorem counts_hideSpan (span : Span) : (hideSpan span).counts = span.counts := by
  rw [hideSpan]
  split <;> rfl

theorem counts_collapsing (span : Span) : (collapsing childrenOnly span).counts = span.counts + (-1, 0, 0) := by
  simp only [collapsing]
  split
  · have h := counts_hideSpan { span with inFilters := span.inFilters - 1, highlight := false }
    exact h.trans (by simp only [Span.counts, Prod.mk_add_mk, add_zero, Int.sub_eq_add_neg])
  · simp only [Span.counts, Prod.mk_add_mk, add_zero, Int.sub_eq_add_neg]

theorem counts_display (span : Span) : (display span).counts = span.counts := rfl

theorem counts_addOpenParents (n : Int) (span : Span) : (addOpenParents n span).counts = span.counts + (0, 0, n) := by
  simp only [addOpenParents, Span.counts, Prod.mk_add_mk, add_zero]

theorem counts_addOpenChildren (n : Int) (span : Span) : (addOpenChildren n span).counts = span.counts + (0, n, 0) := by
  simp only [addOpenChildren, Span.counts, Prod.mk_add_mk, add_zero]

/-- **What expanding adds**: one to each span, to its children and to its ancestors. -/
theorem counts_expandSpans (self : Component ι σ) (ids : List ι) (id : ι) : ((expandSpans self ids).spans id).counts = (self.spans id).counts +
    ((ids.count id, (ids.flatMap self.parents).count id, (ids.flatMap self.children).count id) : Int × Int × Int) := by
  rw [expandSpans, Visit.each_of_forall counts_display]
  refine (Visit.foldl_around_add counts_expanding (counts_addOpenParents 1) (counts_addOpenChildren 1) id).trans ?_
  simp only [Prod.smul_mk, mul_zero, nsmul_eq_mul, mul_one, Prod.mk_add_mk, add_zero, zero_add]

/-- The ancestors that `collapseSpans` takes back from. -/
def closed (self : Component ι σ) (childrenOnly : Bool) (id : ι) : List ι := if childrenOnly then [] else self.parents id

theorem collapseSpan_eq : collapseSpan self childrenOnly = Visit.around (collapsing childrenOnly) (addOpenParents (-1))
    (addOpenChildren (-1)) self.children (closed self childrenOnly) := by
  funext spans id
  cases childrenOnly <;> rfl

/-- **What collapsing takes back**: what expanding adds, but from the ancestors only without `childrenOnly`. -/
theorem counts_collapseSpans (self : Component ι σ) (ids : List ι) (childrenOnly : Bool) (id : ι) : ((collapseSpans self ids childrenOnly).spans id).counts = (self.spans id).counts -
    ((ids.count id, (ids.flatMap (closed self childrenOnly)).count id, (ids.flatMap self.children).count id) :
      Int × Int × Int) := by
  rw [collapseSpans, Visit.each_of_forall counts_hideSpan, collapseSpan_eq]
  refine (Visit.foldl_around_add counts_collapsing (counts_addOpenParents (-1)) (counts_addOpenChildren (-1)) id).trans ?_
  simp only [Prod.smul_mk, mul_zero, nsmul_eq_mul, mul_neg, mul_one, Prod.mk_add_mk, add_zero, zero_add, sub_eq_add_neg,
    Prod.neg_mk]

/-! ## The expander, clicked twice -/

theorem expanded_expanding (span : Span) : (expanding span).expanded = true := rfl

theorem expanded_expandSpans (id : ι) : ((expandSpans self [id]).spans id).expanded = true := by
  rw [expandSpans, Visit.each_of_forall (f := display) (g := Span.expanded) fun _ => rfl, List.foldl_cons, List.foldl_nil,
    expandSpan, Visit.each_of_forall (f := addOpenChildren 1) (g := Span.expanded) fun _ => rfl,
    Visit.each_of_forall (f := addOpenParents 1) (g := Span.expanded) fun _ => rfl, Visit.entry_self, expanded_expanding]

/-- What is left over of opening and closing an expander: `openChildren` of the ancestors. -/
theorem counts_toggleExpander_twice {id : ι} (h : (self.spans id).expanded = false) (other : ι) :
    ((toggleExpander (toggleExpander self id) id).spans other).counts =
      (self.spans other).counts + ((0, (self.parents id).count other, 0) : Int × Int × Int) := by
  have hopen : toggleExpander self id = expandSpans self [id] := by
    rw [toggleExpander, h]
    rfl
  have hclose : toggleExpander (expandSpans self [id]) id = collapseSpans (expandSpans self [id]) [id] true := by
    rw [toggleExpander, if_pos (expanded_expandSpans id)]
  rw [hopen, hclose, counts_collapseSpans, counts_expandSpans, add_sub_assoc]
  congr 1
  simp [closed, expandSpans]

end

/-! ## Setting up the page -/

section
variable [DecidableEq σ] {c : Container ι σ} {self : Component ι σ}

theorem parents_setupSpan_of_ne {e : Element ι σ} {id : ι} (h : id ≠ e.id) : (setupSpan self e).parents id = self.parents id := by
  rw [setupSpan]
  cases e.parentId with
  | none => exact Function.update_of_ne h ..
  | some parentId => exact (Function.update_of_ne h ..).trans (Function.update_of_ne h ..)

theorem parents_foldl_of_not_mem {elements : List (Element ι σ)} {id : ι} (h : id ∉ elements.map Element.id) :
    (elements.foldl setupSpan self).parents id = self.parents id := by
  induction elements generalizing self with
  | nil => rfl
  | cons e elements ih =>
    rw [List.map_cons, List.mem_cons, not_or] at h
    rw [List.foldl_cons, ih h.2, parents_setupSpan_of_ne h.1]

theorem exists_parents_setup {e : Element ι σ} (he : e ∈ c.elements) :
    ∃ self : Component ι σ, c.setup.parents e.id = (setupSpan self e).parents e.id := by
  obtain ⟨before, after, hsplit⟩ := List.append_of_mem he
  refine ⟨before.foldl setupSpan initial, ?_⟩
  have hnodup := c.nodup
  rw [hsplit, List.map_append, List.map_cons] at hnodup
  have hafter : e.id ∉ after.map Element.id := (List.nodup_cons.1 (List.nodup_append.1 hnodup).2.1).1
  rw [Container.setup, hsplit, List.foldl_append, List.foldl_cons, parents_foldl_of_not_mem hafter]

theorem parents_setup_of_none {e : Element ι σ} (he : e ∈ c.elements) (h : e.parentId = none) :
    c.setup.parents e.id = [] := by
  obtain ⟨self, hself⟩ := exists_parents_setup he
  rw [hself, setupSpan, h]
  exact Function.update_self ..

theorem mem_parents_setup {e : Element ι σ} (he : e ∈ c.elements) {parentId : ι} (h : e.parentId = some parentId) :
    parentId ∈ c.setup.parents e.id := by
  obtain ⟨self, hself⟩ := exists_parents_setup he
  rw [hself, setupSpan, h]
  simp only [Function.update_self]
  exact List.mem_append_left _ List.mem_cons_self

end

/-! ## Runs of the page -/

section
variable {c : Container ι σ} {self self' : Component ι σ} {event : Event ι σ}

def Container.ids (c : Container ι σ) : Finset ι := (c.elements.map Element.id).toFinset

theorem mem_ids_of_mem_getSpansByService {svc : σ} {id : ι} (h : id ∈ getSpansByService c self svc) : id ∈ c.ids := by
  have hdocument : ∀ id ∈ c.document, id ∈ c.ids := fun id hid =>
    List.mem_toFinset.2 (or_self_iff.1 (List.mem_append.1 hid))
  rw [getSpansByService] at h
  split at h
  · cases h
  · exact hdocument id (List.mem_of_find?_eq_some (Option.mem_toList.1 h))
  · exact hdocument id (List.mem_filter.1 h).1

/-- **What an event can do**: it expands or collapses spans of the page. -/
theorem step_cases (h : step c self event = some self') : ∃ ids : List ι, (∀ id ∈ ids, id ∈ c.ids) ∧
    (self' = expandSpans self ids ∨ ∃ childrenOnly, self' = collapseSpans self ids childrenOnly) := by
  cases event with
  | filterAdded svc => exact ⟨_, fun _ => mem_ids_of_mem_getSpansByService, .inl (Option.some.inj h).symm⟩
  | filterRemoved svc => exact ⟨_, fun _ => mem_ids_of_mem_getSpansByService, .inr ⟨false, (Option.some.inj h).symm⟩⟩
  | toggleExpander id =>
    rw [step] at h
    by_cases hid : id ∈ c.elements.map Element.id
    · rw [if_pos hid] at h
      refine ⟨[id], fun other hother => ?_, ?_⟩
      · rw [List.mem_singleton.1 hother]
        exact List.mem_toFinset.2 hid
      · rw [← Option.some.inj h, toggleExpander]
        split
        · exact .inr ⟨true, rfl⟩
        · exact .inl rfl
    · rw [if_neg hid] at h
      cases h

/-- The counters of a page: a span's open parents are counted for all that its parents are open for, and its open
descendants are counted at least for all that these are open for. -/
structure Counted (c : Container ι σ) (page : Component ι σ) : Prop where
  openParents : ∀ id, (page.spans id).openParents =
    ∑ parent ∈ c.ids, ((page.children parent).count id : Int) * (page.spans parent).inFilters
  openChildren : ∀ id, ∑ descendant ∈ c.ids, ((page.parents descendant).count id : Int) * (page.spans descendant).inFilters ≤
    (page.spans id).openChildren

/-- Spans that are opened `n` times more, or closed as often, are counted still. -/
theorem counted_of_shift {ids : List ι} {n : Int} {spans : ι → Span} (h : Counted c self) (hids : ∀ id ∈ ids, id ∈ c.ids)
    (hin : ∀ id, (spans id).inFilters = (self.spans id).inFilters + n * ids.count id)
    (hparents : ∀ id, (spans id).openParents = (self.spans id).openParents + n * (ids.flatMap self.children).count id)
    (hchildren : ∀ id, (self.spans id).openChildren + n * (ids.flatMap self.parents).count id ≤ (spans id).openChildren) :
    Counted c { self with spans := spans } := by
  have hsum : ∀ (around : ι → List ι) (id : ι), ∑ other ∈ c.ids, ((around other).count id : Int) * (spans other).inFilters =
      ∑ other ∈ c.ids, ((around other).count id : Int) * (self.spans other).inFilters +
        n * (ids.flatMap around).count id := by
    intro around id
    rw [← Visit.sum_count_mul hids, Finset.mul_sum, ← Finset.sum_add_distrib]
    exact Finset.sum_congr rfl fun other _ => by rw [hin, mul_add, mul_left_comm]
  constructor
  · intro id
    rw [hparents, hsum, h.openParents id]
  · intro id
    rw [hsum]
    exact (Int.add_le_add_right (h.openChildren id) _).trans (hchildren id)

theorem counted_expandSpans {ids : List ι} (h : Counted c self) (hids : ∀ id ∈ ids, id ∈ c.ids) :
    Counted c (expandSpans self ids) := by
  refine counted_of_shift (n := 1) h hids (fun id => ?_) (fun id => ?_) (fun id => ?_)
  · rw [one_mul]
    exact congrArg (·.1) (counts_expandSpans self ids id)
  · rw [one_mul]
    exact congrArg (·.2.2) (counts_expandSpans self ids id)
  · rw [one_mul]
    exact (congrArg (·.2.1) (counts_expandSpans self ids id)).ge

theorem count_closed_le (self : Component ι σ) (ids : List ι) (childrenOnly : Bool) (id : ι) :
    (ids.flatMap (closed self childrenOnly)).count id ≤ (ids.flatMap self.parents).count id := by
  cases childrenOnly
  · exact le_rfl
  · have hclosed : ids.flatMap (closed self true) = [] := List.flatMap_eq_nil_iff.2 fun _ _ => rfl
    rw [hclosed, List.count_nil]
    exact Nat.zero_le _

theorem counted_collapseSpans {ids : List ι} {childrenOnly : Bool} (h : Counted c self) (hids : ∀ id ∈ ids, id ∈ c.ids) :
    Counted c (collapseSpans self ids childrenOnly) := by
  refine counted_of_shift (n := -1) h hids (fun id => ?_) (fun id => ?_) (fun id => ?_)
  · rw [neg_one_mul, ← sub_eq_add_neg]
    exact congrArg (·.1) (counts_collapseSpans self ids childrenOnly id)
  · rw [neg_one_mul, ← sub_eq_add_neg]
    exact congrArg (·.2.2) (counts_collapseSpans self ids childrenOnly id)
  · have hle := count_closed_le self ids childrenOnly id
    have hchildren : ((collapseSpans self ids childrenOnly).spans id).openChildren =
        (self.spans id).openChildren - (ids.flatMap (closed self childrenOnly)).count id :=
      congrArg (·.2.1) (counts_collapseSpans self ids childrenOnly id)
    refine le_trans ?_ hchildren.ge
    omega

end

section
variable [DecidableEq σ] {c : Container ι σ} {page : Component ι σ}

theorem spans_setup (id : ι) : (c.setup.spans id).counts = 0 ∧ (c.setup.spans id).expanded = false := by
  suffices h : ∀ (elements : List (Element ι σ)) (self : Component ι σ),
      (self.spans id).counts = 0 ∧ (self.spans id).expanded = false →
      ((elements.foldl setupSpan self).spans id).counts = 0 ∧ ((elements.foldl setupSpan self).spans id).expanded = false from
    h c.elements initial ⟨rfl, rfl⟩
  intro elements
  induction elements with
  | nil => exact fun _ h => h
  | cons e elements ih =>
    intro self h
    refine ih (setupSpan self e) ?_
    rcases eq_or_ne id e.id with rfl | hne
    · have hspan : (setupSpan self e).spans e.id = ⟨false, 0, 0, 0, e.shown, false⟩ := Function.update_self ..
      rw [hspan]
      exact ⟨rfl, rfl⟩
    · have hspan : (setupSpan self e).spans id = self.spans id := Function.update_of_ne hne ..
      rw [hspan]
      exact h

theorem counted_setup : Counted c c.setup := by
  have hin : ∀ id, (c.setup.spans id).inFilters = 0 := fun id => congrArg Prod.fst (spans_setup (c := c) id).1
  constructor
  · intro id
    simp only [hin, mul_zero, Finset.sum_const_zero]
    exact congrArg (·.2.2) (spans_setup (c := c) id).1
  · intro id
    simp only [hin, mul_zero, Finset.sum_const_zero]
    exact (congrArg (·.2.1) (spans_setup (c := c) id).1).ge

/-- **The counters in every state of the page.** -/
theorem counted_of_run {events : List (Event ι σ)} (hrun : Transition.run (step c) c.setup events = some page) :
    Counted c page := by
  refine Transition.run_invariant (fun self event self' h hstep => ?_) counted_setup hrun
  obtain ⟨ids, hids, rfl | ⟨childrenOnly, rfl⟩⟩ := step_cases hstep
  · exact counted_expandSpans h hids
  · exact counted_collapseSpans h hids

theorem parents_of_run {events : List (Event ι σ)} (hrun : Transition.run (step c) c.setup events = some page) :
    page.parents = c.setup.parents := by
  refine Transition.run_invariant (P := fun self => self.parents = c.setup.parents) (fun self event self' h hstep => ?_) rfl hrun
  obtain ⟨ids, -, rfl | ⟨childrenOnly, rfl⟩⟩ := step_cases hstep
  · exact h
  · exact h

/-- The page starts as if the filter had been added, or the expander of the first span clicked. -/
theorem exists_run_afterInitialize {serviceName : Option σ} (h : afterInitialize c serviceName = some page) :
    ∃ event, Transition.run (step c) c.setup [event] = some page := by
  cases serviceName with
  | some svc => exact ⟨.filterAdded svc, Transition.run_cons.2 ⟨page, h, rfl⟩⟩
  | none =>
    obtain ⟨e, he, rfl⟩ := Option.map_eq_some_iff.1 h
    refine ⟨.toggleExpander e.id, Transition.run_cons.2 ⟨_, ?_, rfl⟩⟩
    have hmem : e.id ∈ c.elements.map Element.id := List.mem_map_of_mem (List.mem_of_head? he)
    rw [step, if_pos hmem, toggleExpander, (spans_setup e.id).2]
    rfl

/-- **An expander clicked twice** leaves the counters of all spans as they were exactly if its span is a root, in every
state in which it is closed. -/
theorem toggleExpander_twice_iff {events : List (Event ι σ)} (hrun : Transition.run (step c) c.setup events = some page)
    {e : Element ι σ} (he : e ∈ c.elements) (hclosed : (page.spans e.id).expanded = false) :
    (∀ id ∈ c.elements.map Element.id,
      ((toggleExpander (toggleExpander page e.id) e.id).spans id).counts = (page.spans id).counts) ↔ e.parentId = none := by
  have hparents := parents_of_run hrun
  constructor
  · intro hrestored
    by_contra hne
    obtain ⟨parentId, hparentId⟩ := Option.ne_none_iff_exists'.1 hne
    have hid : parentId ∈ c.elements.map Element.id := c.parentId_mem e he parentId hparentId
    have hpos : 0 < (page.parents e.id).count parentId := by
      rw [hparents]
      exact List.count_pos_iff.2 (mem_parents_setup he hparentId)
    have hleft := hrestored parentId hid
    rw [counts_toggleExpander_twice hclosed, add_eq_left] at hleft
    have hzero : ((page.parents e.id).count parentId : Int) = 0 := congrArg (·.2.1) hleft
    omega
  · intro hroot id _
    rw [counts_toggleExpander_twice hclosed, hparents, parents_setup_of_none he hroot, List.count_nil]
    exact add_zero _

end

/-- A root, its child, the child of that and the child of that. -/
def chain : Container Nat String where
  elements := [⟨1, [2], none, ["web"], true⟩, ⟨2, [3], some 1, ["query"], false⟩, ⟨3, [4], some 2, ["store"], false⟩,
    ⟨4, [], some 3, ["store"], false⟩]
  nodup := by decide
  children_mem := by decide
  parentId_mem := by decide

theorem toggleExpander_twice_root : (chain.setup.spans 1).expanded = false ∧ ∀ id ∈ chain.elements.map Element.id,
    ((toggleExpander (toggleExpander chain.setup 1) 1).spans id).counts = (chain.setup.spans id).counts :=
  ⟨by decide, (toggleExpander_twice_iff (c := chain) (rfl : Transition.run (step chain) chain.setup [] = _)
    (e := ⟨1, [2], none, ["web"], true⟩) (by decide) (by decide)).2 rfl⟩

/-- The expander of the child, clicked twice, leaves its parent with an open descendant. -/
theorem not_toggleExpander_twice : ¬ ∀ (c : Container Nat String) (events : List (Event Nat String))
    (page : Component Nat String), Transition.run (step c) c.setup events = some page →
      ∀ e ∈ c.elements, (page.spans e.id).expanded = false → ∀ id ∈ c.elements.map Element.id,
        ((toggleExpander (toggleExpander page e.id) e.id).spans id).counts = (page.spans id).counts := by
  intro h
  have hroot := h chain [.toggleExpander 1] (toggleExpander chain.setup 1) rfl ⟨2, [3], some 1, ["query"], false⟩
    (by decide) (by decide) 1 (by decide)
  revert hroot
  decide

/-- The child stays visible for good: three expanders are opened and, from the inside out, closed again. -/
example : (Transition.run (step chain) chain.setup
      ([1, 2, 3, 3, 2, 1].map Event.toggleExpander)).map (fun page => ((page.spans 2).shown, (page.spans 2).openChildren)) =
    some (true, 1) := by decide

end TracePage
end Zipkin
