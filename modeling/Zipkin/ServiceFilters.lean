import Zipkin.Base.AssocMap
import Zipkin.Base.Transition
/-!
# ServiceFilters — the service name filters of the pages

Three components keep the services that are filtered by: `traces.js` a list, `filterAllServices.js` an object with a flag for
each name and `traceFilters.js` the labels it shows.  Each of them follows the two events on its own.  A service is in the
list by its value; it has a flag that it may inherit from `Object.prototype`; a label is looked for by an attribute that no
label has, and removed by an id that several names share.
-/
namespace Zipkin
namespace ServiceFilters

/-! ## traceFilters.js -/

structure Element where
  attributes : List (String × String)
  text : String

/-- `.attr(name, value)`, which lower-cases the name in an HTML document. -/
def Element.attr (name value : String) (e : Element) : Element :=
  { e with attributes := AssocMap.put (String.ofList (name.toList.map Char.toLower)) value e.attributes }

/-- A character of `service.replace(/[^a-z0-9\-_]/gi, "-")`; what lies outside the BMP is two of them. -/
def dashed (c : Char) : List Char :=
  if c.isAlphanum || c == '-' || c == '_' then [c] else if c.toNat < 0x10000 then ['-'] else ['-', '-']

def idFromService (service : String) : String := "service-filter-" ++ String.ofList (service.toList.flatMap dashed)

/-- `$html`, without its `$remove`. -/
def label (value : String) : Element :=
  (((Element.mk [] value).attr "class" "label service-filter-label service-tag-filtered").attr "id" (idFromService value)).attr
    "data-serviceName" value

def selector (value : String) : String := "[data-service-name='" ++ value ++ "']"

section
variable (find : List Element → String → Option (List Element)) (rendered : List Element)

/-- The labels after `addToFilter`, by their values in the order of the document; none if the selector is no selector and
`find` throws.  Below the node are the elements that the server rendered and the labels. -/
def addToFilter (labels : List String) (value : String) : Option (List String) :=
  (find (rendered ++ labels.map label) (selector value)).map fun found =>
    if found.length ≠ 0 then labels else labels ++ [value]

/-- An id is looked up in the document, which has it once: the first label with it is found. -/
def removeFromFilter (labels : List String) (value : String) : List String :=
  labels.eraseP fun other => idFromService other = idFromService value

end

/-! ## traces.js -/

def addFilter (services : List String) (value : String) : List String :=
  if value ∈ services then services else services ++ [value]

def removeFilter (services : List String) (value : String) : List String := services.erase value

/-! ## filterAllServices.js -/

/-- The names that every object has a value for, all of them functions or objects. -/
def objectPrototype : List String :=
  ["constructor", "hasOwnProperty", "isPrototypeOf", "propertyIsEnumerable", "toLocaleString", "toString", "valueOf",
    "__defineGetter__", "__defineSetter__", "__lookupGetter__", "__lookupSetter__", "__proto__"]

structure FilterAllServices where
  filtered : List (String × Bool)
  currentFilterCount : Int
  totalServices : Int
  /-- The `active` classes of the two buttons. -/
  expandAll : Bool
  collapseAll : Bool

/-- The truth of `this.filtered[value]`. -/
def FilterAllServices.isFiltered (f : FilterAllServices) (value : String) : Bool :=
  (f.filtered.lookup value).getD (decide (value ∈ objectPrototype))

/-- `this.filtered[value] = flag`; a flag is not taken for a prototype. -/
def FilterAllServices.setFiltered (f : FilterAllServices) (value : String) (flag : Bool) : List (String × Bool) :=
  if value = "__proto__" then f.filtered else AssocMap.put value flag f.filtered

def FilterAllServices.filterAdded (f : FilterAllServices) (value : String) : FilterAllServices :=
  if f.isFiltered value then f
  else
    let count := f.currentFilterCount + 1
    { f with
      filtered := f.setFiltered value true
      currentFilterCount := count
      expandAll := f.expandAll || decide (count = f.totalServices)
      collapseAll := f.collapseAll && decide (count = f.totalServices) }

def FilterAllServices.filterRemoved (f : FilterAllServices) (value : String) : FilterAllServices :=
  if !f.isFiltered value then f
  else
    let count := f.currentFilterCount - 1
    { f with
      filtered := f.setFiltered value false
      currentFilterCount := count
      expandAll := f.expandAll && decide (count = 0)
      collapseAll := f.collapseAll || decide (count = 0) }

/-! ## The events -/

inductive Event where
  | uiAddServiceNameFilter (value : String)
  | uiRemoveServiceNameFilter (value : String)

structure Page where
  labels : List String
  services : List String
  filterAllServices : FilterAllServices

def initial (totalServices : Int) : Page := ⟨[], [], ⟨[], 0, totalServices, false, true⟩⟩

section
variable (find : List Element → String → Option (List Element)) (rendered : List Element)

/-- The components' handlers.  `traceFilters` is attached before `traces`, so that an event it throws at is not dispatched to
`traces`; `filterAllServices` is on a page of its own. -/
def handle (page : Page) : Event → Page
  | .uiAddServiceNameFilter value =>
    let filterAllServices := page.filterAllServices.filterAdded value
    match addToFilter find rendered page.labels value with
    | none => { page with filterAllServices }
    | some labels => ⟨labels, addFilter page.services value, filterAllServices⟩
  | .uiRemoveServiceNameFilter value =>
    ⟨removeFromFilter page.labels value, removeFilter page.services value, page.filterAllServices.filterRemoved value⟩

def step (page : Page) (event : Event) : Option Page := some (handle find rendered page event)

end

/-! ## Where the copies agree -/

/-- The labels are, each once, the services of the list, and so are the names with a `true` flag, of which there are as many
as counted. -/
structure Agrees (page : Page) : Prop where
  nodup : page.labels.Nodup
  labels_iff : ∀ value, value ∈ page.labels ↔ value ∈ page.services
  filtered_iff : ∀ value, page.filterAllServices.filtered.lookup value = some true ↔ value ∈ page.services
  count : page.filterAllServices.currentFilterCount = page.services.length

/-- The copies agree, and no name that is inherited has a flag of its own. -/
structure Settled (page : Page) : Prop extends Agrees page where
  services_nodup : page.services.Nodup
  own : ∀ value ∈ objectPrototype, page.filterAllServices.filtered.lookup value = none

section
variable {page : Page} {value : String}

theorem not_mem_objectPrototype (h : Settled page) (hvalue : value ∈ page.services) : value ∉ objectPrototype := fun hproto => by
  have hown := h.own value hproto
  rw [(h.filtered_iff value).2 hvalue] at hown
  cases hown

theorem isFiltered_iff (h : Settled page) :
    page.filterAllServices.isFiltered value = true ↔ value ∈ page.services ∨ value ∈ objectPrototype := by
  rw [FilterAllServices.isFiltered, ← h.filtered_iff]
  cases hlookup : page.filterAllServices.filtered.lookup value with
  | none => simp
  | some flag =>
    have hnot : value ∉ objectPrototype := fun hproto => by
      rw [h.own value hproto] at hlookup
      cases hlookup
    simp [hnot]

theorem lookup_setFiltered {f : FilterAllServices} {flag : Bool} (h : value ∉ objectPrototype) (other : String) :
    (f.setFiltered value flag).lookup other = if other = value then some flag else f.filtered.lookup other := by
  have hproto : value ≠ "__proto__" := fun heq => h (heq ▸ by decide)
  rw [FilterAllServices.setFiltered, if_neg hproto, AssocMap.lookup_put]

theorem eraseP_eq_erase {p : String → Bool} : ∀ {l : List String}, l.find? p = some value → l.eraseP p = l.erase value
  | a :: l, h => by
    rw [List.find?_cons] at h
    cases hp : p a with
    | true =>
      rw [hp] at h
      obtain rfl := Option.some.inj h
      rw [List.eraseP_cons_of_pos hp, List.erase_cons_head]
    | false =>
      rw [hp] at h
      have hne : a ≠ value := fun heq => by
        rw [heq, List.find?_some h] at hp
        cases hp
      rw [List.eraseP_cons_of_neg (by rw [hp]; exact Bool.false_ne_true), List.erase_cons_tail (by simpa using hne),
        eraseP_eq_erase h]

theorem filterAdded_of_isFiltered {f : FilterAllServices} (h : f.isFiltered value = true) : f.filterAdded value = f := by
  rw [FilterAllServices.filterAdded, if_pos h]

theorem filterRemoved_of_not_isFiltered {f : FilterAllServices} (h : f.isFiltered value = false) :
    f.filterRemoved value = f := by
  rw [FilterAllServices.filterRemoved, h]
  rfl

theorem isFiltered_eq_false (h : Settled page) (hservices : value ∉ page.services) (hproto : value ∉ objectPrototype) :
    page.filterAllServices.isFiltered value = false :=
  Bool.eq_false_iff.2 fun htrue => ((isFiltered_iff h).1 htrue).elim hservices hproto

theorem nodup_append_singleton {l : List String} (h : l.Nodup) (hvalue : value ∉ l) : (l ++ [value]).Nodup :=
  List.concat_eq_append ▸ List.Nodup.concat hvalue h

theorem settled_added (h : Settled page) (hservices : value ∉ page.services) (hproto : value ∉ objectPrototype) :
    Settled ⟨page.labels ++ [value], page.services ++ [value], page.filterAllServices.filterAdded value⟩ := by
  have hfiltered := isFiltered_eq_false h hservices hproto
  have hadded : (page.filterAllServices.filterAdded value).filtered = page.filterAllServices.setFiltered value true ∧
      (page.filterAllServices.filterAdded value).currentFilterCount = page.filterAllServices.currentFilterCount + 1 := by
    rw [FilterAllServices.filterAdded, hfiltered]
    exact ⟨rfl, rfl⟩
  refine ⟨⟨?_, fun other => ?_, fun other => ?_, ?_⟩, ?_, fun other hother => ?_⟩
  · exact nodup_append_singleton h.nodup fun hmem => hservices ((h.labels_iff value).1 hmem)
  · rw [List.mem_append, List.mem_append, h.labels_iff]
  · rw [hadded.1, lookup_setFiltered hproto, List.mem_append, List.mem_singleton, ← h.filtered_iff]
    split <;> simp_all
  · rw [hadded.2, h.count, List.length_append]
    rfl
  · exact nodup_append_singleton h.services_nodup hservices
  · have hne : other ≠ value := fun heq => hproto (heq ▸ hother)
    rw [hadded.1, lookup_setFiltered hproto, if_neg hne, h.own other hother]

theorem settled_removed (h : Settled page) (hservices : value ∈ page.services) :
    Settled ⟨page.labels.erase value, page.services.erase value, page.filterAllServices.filterRemoved value⟩ := by
  have hproto := not_mem_objectPrototype h hservices
  have hfiltered : page.filterAllServices.isFiltered value = true := (isFiltered_iff h).2 (.inl hservices)
  have hremoved : (page.filterAllServices.filterRemoved value).filtered = page.filterAllServices.setFiltered value false ∧
      (page.filterAllServices.filterRemoved value).currentFilterCount = page.filterAllServices.currentFilterCount - 1 := by
    rw [FilterAllServices.filterRemoved, hfiltered]
    exact ⟨rfl, rfl⟩
  refine ⟨⟨h.nodup.erase value, fun other => ?_, fun other => ?_, ?_⟩, h.services_nodup.erase value, fun other hother => ?_⟩
  · rw [h.nodup.mem_erase_iff, h.services_nodup.mem_erase_iff, h.labels_iff]
  · rw [hremoved.1, lookup_setFiltered hproto, h.services_nodup.mem_erase_iff, ← h.filtered_iff]
    split <;> simp_all
  · have hpos := List.length_pos_of_mem hservices
    rw [hremoved.2, h.count, List.length_erase_of_mem hservices]
    omega
  · have hne : other ≠ value := fun heq => hproto (heq ▸ hother)
    rw [hremoved.1, lookup_setFiltered hproto, if_neg hne, h.own other hother]

end

section
variable (find : List Element → String → Option (List Element)) (rendered : List Element)

/-- When an event keeps the copies in agreement. -/
def Keeps (page : Page) : Event → Prop
  | .uiAddServiceNameFilter value =>
    match find (rendered ++ page.labels.map label) (selector value) with
    | none => value ∈ page.services ∨ value ∈ objectPrototype
    | some [] => value ∉ page.services ∧ value ∉ objectPrototype
    | some (_ :: _) => value ∈ page.services
  | .uiRemoveServiceNameFilter value =>
    if value ∈ page.services then
      page.labels.find? (fun other => idFromService other = idFromService value) = some value
    else (∀ other ∈ page.labels, idFromService other ≠ idFromService value) ∧ value ∉ objectPrototype

variable {find rendered} {page : Page} {value : String}

theorem addFilter_of_mem {services : List String} (h : value ∈ services) : addFilter services value = services := if_pos h

theorem addFilter_of_not_mem {services : List String} (h : value ∉ services) :
    addFilter services value = services ++ [value] := if_neg h

theorem lookup_filterAdded (h : Settled page) (hservices : value ∉ page.services) (hproto : value ∉ objectPrototype) :
    (page.filterAllServices.filterAdded value).filtered.lookup value = some true :=
  ((settled_added h hservices hproto).filtered_iff value).2 (List.mem_append_right _ List.mem_cons_self)

/-- Only `filterAllServices` hears of the event. -/
theorem keeps_unheard (h : Settled page)
    (hagrees : Agrees { page with filterAllServices := page.filterAllServices.filterAdded value }) :
    value ∈ page.services ∨ value ∈ objectPrototype := by
  by_contra hnot
  rw [not_or] at hnot
  exact hnot.1 ((hagrees.filtered_iff value).1 (lookup_filterAdded h hnot.1 hnot.2))

theorem settled_unheard (h : Settled page) (hvalue : value ∈ page.services ∨ value ∈ objectPrototype) :
    Settled { page with filterAllServices := page.filterAllServices.filterAdded value } := by
  rw [filterAdded_of_isFiltered ((isFiltered_iff h).2 hvalue)]
  exact h

theorem keeps_labelled (h : Settled page)
    (hagrees : Agrees ⟨page.labels ++ [value], addFilter page.services value, page.filterAllServices.filterAdded value⟩) :
    value ∉ page.services ∧ value ∉ objectPrototype := by
  have hservices : value ∉ page.services := fun hmem =>
    List.disjoint_of_nodup_append hagrees.nodup ((h.labels_iff value).2 hmem) List.mem_cons_self
  refine ⟨hservices, fun hproto => ?_⟩
  -- an inherited name passes for filtered already, and gets no flag
  have hflag := (hagrees.filtered_iff value).2 ((hagrees.labels_iff value).1 (List.mem_append_right _ List.mem_cons_self))
  rw [filterAdded_of_isFiltered ((isFiltered_iff h).2 (.inr hproto)), h.own value hproto] at hflag
  cases hflag

theorem settled_labelled (h : Settled page) (hservices : value ∉ page.services) (hproto : value ∉ objectPrototype) :
    Settled ⟨page.labels ++ [value], addFilter page.services value, page.filterAllServices.filterAdded value⟩ := by
  rw [addFilter_of_not_mem hservices]
  exact settled_added h hservices hproto

theorem keeps_unlabelled (h : Settled page)
    (hagrees : Agrees ⟨page.labels, addFilter page.services value, page.filterAllServices.filterAdded value⟩) :
    value ∈ page.services := by
  by_contra hnot
  have hmem : value ∈ addFilter page.services value := by
    rw [addFilter_of_not_mem hnot]
    exact List.mem_append_right _ List.mem_cons_self
  exact hnot ((h.labels_iff value).1 ((hagrees.labels_iff value).2 hmem))

theorem settled_unlabelled (h : Settled page) (hservices : value ∈ page.services) :
    Settled ⟨page.labels, addFilter page.services value, page.filterAllServices.filterAdded value⟩ := by
  rw [addFilter_of_mem hservices]
  exact settled_unheard h (.inl hservices)

theorem keeps_removed (h : Settled page) (hagrees : Agrees (handle find rendered page (.uiRemoveServiceNameFilter value))) :
    Keeps find rendered page (.uiRemoveServiceNameFilter value) := by
  have hlabels : ∀ other, other ∈ removeFromFilter page.labels value ↔ other ∈ page.services.erase value :=
    hagrees.labels_iff
  simp only [Keeps]
  split
  next hservices =>
    have hlabel := (h.labels_iff value).2 hservices
    cases hfirst : page.labels.find? fun other => idFromService other = idFromService value with
    | none => exact absurd rfl (of_decide_eq_false (Bool.eq_false_iff.2 (List.find?_eq_none.1 hfirst value hlabel)))
    | some first =>
      have hmem := List.mem_of_find?_eq_some hfirst
      rw [removeFromFilter, eraseP_eq_erase hfirst] at hlabels
      by_contra hne
      -- another label is removed, and its service stays
      have hother : first ∈ page.services.erase value :=
        h.services_nodup.mem_erase_iff.2 ⟨fun heq => hne (by rw [heq]), (h.labels_iff first).1 hmem⟩
      exact (h.nodup.mem_erase_iff.1 ((hlabels first).2 hother)).1 rfl
  next hservices =>
    rw [List.erase_of_not_mem hservices] at hlabels
    constructor
    · intro other hother heq
      cases hfirst : page.labels.find? fun other => idFromService other = idFromService value with
      | none => exact List.find?_eq_none.1 hfirst other hother (decide_eq_true heq)
      | some first =>
        rw [removeFromFilter, eraseP_eq_erase hfirst] at hlabels
        have hstays := (hlabels first).2 ((h.labels_iff first).1 (List.mem_of_find?_eq_some hfirst))
        exact (h.nodup.mem_erase_iff.1 hstays).1 rfl
    · intro hproto
      -- an inherited name passes for filtered, and is counted off
      have hfiltered : page.filterAllServices.isFiltered value = true := (isFiltered_iff h).2 (.inr hproto)
      have hcount : (page.filterAllServices.filterRemoved value).currentFilterCount = (page.services.erase value).length :=
        hagrees.count
      rw [FilterAllServices.filterRemoved, hfiltered, List.erase_of_not_mem hservices, ← h.count] at hcount
      change page.filterAllServices.currentFilterCount - 1 = page.filterAllServices.currentFilterCount at hcount
      omega

theorem settled_handle_removed (h : Settled page) (hkeeps : Keeps find rendered page (.uiRemoveServiceNameFilter value)) :
    Settled (handle find rendered page (.uiRemoveServiceNameFilter value)) := by
  simp only [Keeps] at hkeeps
  rw [handle, removeFromFilter, removeFilter]
  split at hkeeps
  next hservices =>
    rw [eraseP_eq_erase hkeeps]
    exact settled_removed h hservices
  next hservices =>
    have hnone : page.labels.eraseP (fun other => idFromService other = idFromService value) = page.labels :=
      List.eraseP_of_forall_not fun other hother => by simpa using hkeeps.1 other hother
    rw [hnone, List.erase_of_not_mem hservices, filterRemoved_of_not_isFiltered (isFiltered_eq_false h hservices hkeeps.2)]
    exact h

theorem keeps_of_agrees (h : Settled page) {event : Event} (hagrees : Agrees (handle find rendered page event)) :
    Keeps find rendered page event := by
  cases event with
  | uiRemoveServiceNameFilter value => exact keeps_removed h hagrees
  | uiAddServiceNameFilter value =>
    rw [handle, addToFilter] at hagrees
    rw [Keeps]
    cases hfound : find (rendered ++ page.labels.map label) (selector value) with
    | none =>
      rw [hfound] at hagrees
      exact keeps_unheard h hagrees
    | some found =>
      rw [hfound] at hagrees
      cases found with
      | nil => exact keeps_labelled h hagrees
      | cons e found => exact keeps_unlabelled h hagrees

theorem settled_handle (h : Settled page) {event : Event} (hkeeps : Keeps find rendered page event) :
    Settled (handle find rendered page event) := by
  cases event with
  | uiRemoveServiceNameFilter value => exact settled_handle_removed h hkeeps
  | uiAddServiceNameFilter value =>
    rw [Keeps] at hkeeps
    rw [handle, addToFilter]
    cases hfound : find (rendered ++ page.labels.map label) (selector value) with
    | none =>
      rw [hfound] at hkeeps
      exact settled_unheard h hkeeps
    | some found =>
      rw [hfound] at hkeeps
      cases found with
      | nil => exact settled_labelled h hkeeps.1 hkeeps.2
      | cons e found => exact settled_unlabelled h hkeeps

theorem settled_initial (totalServices : Int) : Settled (initial totalServices) where
  nodup := List.nodup_nil
  labels_iff := fun _ => Iff.rfl
  filtered_iff := fun _ => iff_of_false nofun List.not_mem_nil
  count := rfl
  services_nodup := List.nodup_nil
  own := fun _ _ => rfl

/-- **The copies agree after each event of a run** exactly if each event keeps them in agreement. -/
theorem agrees_after_each_iff (find : List Element → String → Option (List Element)) (rendered : List Element)
    (totalServices : Int) (events : List Event) :
    (∀ before page, before <+: events → Transition.run (step find rendered) (initial totalServices) before = some page →
      Agrees page) ↔ Transition.Meets (step find rendered) (Keeps find rendered) (initial totalServices) events := by
  refine Transition.forall_prefix_iff_meets (fun page event => ⟨_, rfl⟩) (fun page h => h.toAgrees) ?_ ?_
    (settled_initial totalServices)
  · rintro page event page' h hstep
    obtain rfl := Option.some.inj hstep
    exact ⟨keeps_of_agrees h, fun hkeeps => (settled_handle h hkeeps).toAgrees⟩
  · rintro page event page' h hkeeps hstep
    obtain rfl := Option.some.inj hstep
    exact settled_handle h hkeeps

/-! ## Plain names -/

/-- Every character stands for itself in a quoted attribute value. -/
def Plain (value : String) : Prop := ∀ c ∈ value.toList, ' ' ≤ c ∧ c ∉ "'\\".toList

/-- `find` by an attribute, for a plain value. -/
def FindsByAttribute (find : List Element → String → Option (List Element)) : Prop :=
  ∀ elements value, Plain value →
    find elements (selector value) = some (elements.filter fun e => e.attributes.lookup "data-service-name" = some value)

/-- The attribute of a label is another one. -/
theorem lookup_label (value : String) : (label value).attributes.lookup "data-service-name" = none := rfl

/-- **A plain name that the page was not rendered with** is looked for in vain: its addition keeps the copies in agreement
exactly if it is new. -/
theorem keeps_add_iff_of_plain (hfind : FindsByAttribute find) (hplain : Plain value)
    (hrendered : ∀ e ∈ rendered, e.attributes.lookup "data-service-name" ≠ some value) :
    Keeps find rendered page (.uiAddServiceNameFilter value) ↔ value ∉ page.services ∧ value ∉ objectPrototype := by
  have hnone : (rendered ++ page.labels.map label).filter
      (fun e => e.attributes.lookup "data-service-name" = some value) = [] := by
    refine List.filter_eq_nil_iff.2 fun e he heq => ?_
    rw [decide_eq_true_eq] at heq
    rcases List.mem_append.1 he with he | he
    · exact hrendered e he heq
    · obtain ⟨other, -, rfl⟩ := List.mem_map.1 he
      rw [lookup_label] at heq
      cases heq
  rw [Keeps, hfind _ _ hplain, hnone]

/-- A `find` that knows the attribute only. -/
def attributeFind (elements : List Element) (sought : String) : Option (List Element) :=
  some (elements.filter fun e => (e.attributes.lookup "data-service-name").map selector = some sought)

theorem selector_injective {other : String} (h : selector value = selector other) : value = other :=
  (String.append_right_inj _).1 ((String.append_left_inj _).1 h)

theorem findsByAttribute_attributeFind : FindsByAttribute attributeFind := by
  intro elements value _
  refine congrArg some (List.filter_congr fun e _ => decide_eq_decide.2 ?_)
  rw [Option.map_eq_some_iff]
  constructor
  · rintro ⟨other, hother, h⟩
    rw [hother, selector_injective h]
  · exact fun h => ⟨value, h, rfl⟩

/-- A service that is added twice has two labels: the second addition does not find the label of the first. -/
theorem not_agrees_added_twice : ¬ ∀ (events : List Event) (page : Page),
    Transition.run (step attributeFind [⟨[("data-service-name", "web")], "web"⟩]) (initial 3) events = some page →
      Agrees page := by
  intro h
  have hagrees := h [.uiAddServiceNameFilter "store", .uiAddServiceNameFilter "store"] _ rfl
  have hnodup := hagrees.nodup
  revert hnodup
  decide

/-- Two names that differ in punctuation share an id: the label of the other one is removed. -/
example : (Transition.run (step attributeFind []) (initial 3) [.uiAddServiceNameFilter "a.b", .uiAddServiceNameFilter "a-b",
    .uiRemoveServiceNameFilter "a-b"]).map (fun page => (page.labels, page.services)) = some (["a-b"], ["a.b"]) := by decide

end

end ServiceFilters
end Zipkin
