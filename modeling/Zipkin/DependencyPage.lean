import Zipkin.Dependencies
import Zipkin.ServiceFilters
/-!
# DependencyPage — the page of which service calls which

`dependency.js`, which keeps the links of the page by their services, and `dependencyGraph.js`, which draws them, with the
`Digraph` of `dagre-d3.js`.  Both keep what they have in plain objects, where the names of `Object.prototype` have values
already: a service with such a name, or two arrows with one id, and nothing is drawn (`shows_iff`).
-/
namespace Zipkin
namespace DependencyPage

open AssocMap ServiceFilters

inductive JsError where
  | typeError
  | error (message : String)
deriving DecidableEq, Repr

/-- What `o[name]` is. -/
inductive Property (α : Type) where
  | own (value : α)
  /-- Something that the page has not put there. -/
  | inherited
  | undefined
deriving DecidableEq, Repr

section Object
variable {α : Type}

def property (o : List (String × α)) (name : String) : Property α :=
  match o.lookup name with
  | some value => .own value
  | none => if name ∈ objectPrototype then .inherited else .undefined

/-- `o[name] = o[name] || value` -/
def orElse (o : List (String × α)) (name : String) (value : α) : List (String × α) :=
  match property o name with
  | .own _ | .inherited => o
  | .undefined => put name value o

/-- `f` is done to a property of `o[name]`, which what is inherited does not have. -/
def modify (o : List (String × α)) (name : String) (f : α → α) : Except JsError (List (String × α)) :=
  match property o name with
  | .own value => .ok (put name (f value) o)
  | .inherited | .undefined => .error .typeError

end Object

/-! ## dependency.js -/

structure ServiceData where
  serviceName : String
  uses : List String
  usedBy : List String
deriving DecidableEq, Repr

structure DependencyData where
  services : List (String × ServiceData) := []
  dependencies : List (String × List (String × DependencyLink)) := []
deriving DecidableEq, Repr

/-- `dependencies[parent][child] = link`.  What is inherited takes the property too, and a link that becomes a prototype is no
property. -/
def setLink (dependencies : List (String × List (String × DependencyLink))) (link : DependencyLink) :
    Except JsError (List (String × List (String × DependencyLink))) :=
  match property dependencies link.parent with
  | .own links => .ok (put link.parent (if link.child = "__proto__" then links else put link.child link links) dependencies)
  | .inherited => .ok dependencies
  | .undefined => .error .typeError

/-- The body of the loop of `buildServiceData`. -/
def addLink (data : DependencyData) (link : DependencyLink) : Except JsError DependencyData := do
  let dependencies ← setLink (orElse data.dependencies link.parent []) link
  let services := orElse data.services link.parent ⟨link.parent, [], []⟩
  let services := orElse services link.child ⟨link.child, [], []⟩
  let services ← modify services link.parent fun service => { service with uses := service.uses ++ [link.child] }
  let services ← modify services link.child fun service => { service with usedBy := service.usedBy ++ [link.parent] }
  pure ⟨services, dependencies⟩

def buildServiceData (links : List DependencyLink) : Except JsError DependencyData := links.foldlM addLink {}

def getServiceData (data : DependencyData) (serviceName : String) : Property ServiceData :=
  property data.services serviceName

/-- `ofPrototype` says what the function or the object that is inherited has for the child, mostly nothing. -/
def getDependencyData (ofPrototype : String → String → Property DependencyLink) (data : DependencyData)
    (parent child : String) : Except JsError (Property DependencyLink) :=
  match property data.dependencies parent with
  | .own links => .ok (property links child)
  | .inherited => .ok (ofPrototype parent child)
  | .undefined => .error .typeError

/-! ## dagre-d3.js -/

structure Edge where
  id : String
  source : String
  target : String
  callCount : Int
deriving DecidableEq, Repr

/-- The nodes and the edges are in the order in which they were added, where `eachNode` and `eachEdge` come to names that are
array indexes first. -/
structure Digraph where
  nodes : List String := []
  edges : List Edge := []
deriving DecidableEq, Repr

/-- `u in this._nodes` -/
def Digraph.hasNode (g : Digraph) (u : String) : Prop := u ∈ g.nodes ∨ u ∈ objectPrototype

instance (g : Digraph) (u : String) : Decidable (g.hasNode u) := inferInstanceAs (Decidable (_ ∨ _))

def Digraph.hasEdge (g : Digraph) (e : String) : Prop := e ∈ g.edges.map Edge.id ∨ e ∈ objectPrototype

instance (g : Digraph) (e : String) : Decidable (g.hasEdge e) := inferInstanceAs (Decidable (_ ∨ _))

def Digraph.addNode (g : Digraph) (u : String) : Except JsError Digraph :=
  if g.hasNode u then .error (.error ("Graph already has node '" ++ u ++ "'"))
  else .ok { g with nodes := g.nodes ++ [u] }

def Digraph.strictGetNode (g : Digraph) (u : String) : Except JsError Unit :=
  if g.hasNode u then .ok () else .error (.error ("Node '" ++ u ++ "' is not in graph"))

def Digraph.addEdge (g : Digraph) (edge : Edge) : Except JsError Digraph := do
  g.strictGetNode edge.source
  g.strictGetNode edge.target
  if g.hasEdge edge.id then throw (.error ("Graph already has edge '" ++ edge.id ++ "'"))
  pure { g with edges := g.edges ++ [edge] }

/-! ## dependencyGraph.js -/

def arrayUnique (array : List String) : List String :=
  (array.zipIdx.filter fun (val, i) => decide (i ≤ array.idxOf val)).map Prod.fst

/-- The names of all nodes in the graph. -/
def allNames (links : List DependencyLink) : List String :=
  arrayUnique (links.map DependencyLink.parent ++ links.map DependencyLink.child)

/-- The links that are drawn. -/
def arrows (links : List DependencyLink) : List DependencyLink := links.filter fun link => link.parent != link.child

def edgeOf (link : DependencyLink) : Edge := ⟨link.parent ++ "->" ++ link.child, link.parent, link.child, link.callCount⟩

def dependencyGraph (links : List DependencyLink) : Except JsError Digraph := do
  let g ← (allNames links).foldlM Digraph.addNode {}
  (arrows links).foldlM (fun g link => g.addEdge (edgeOf link)) g

/-- What is done with the links once they are there. -/
def success (links : List DependencyLink) : Except JsError (DependencyData × Digraph) := do
  let data ← buildServiceData links
  -- `this.trigger('dependencyDataReceived', data)`
  let g ← dependencyGraph links
  pure (data, g)

/-! ## The data of the services -/

/-- The services of the link have names of their own. -/
def Named (link : DependencyLink) : Prop := link.parent ∉ objectPrototype ∧ link.child ∉ objectPrototype

instance (link : DependencyLink) : Decidable (Named link) := inferInstanceAs (Decidable (_ ∧ _))

section Object
variable {α : Type} {o : List (String × α)} {name : String} {value : α}

theorem orElse_of_mem (h : name ∈ objectPrototype) : orElse o name value = o := by
  unfold orElse property
  cases o.lookup name with
  | some => rfl
  | none => simp [h]

theorem lookup_orElse (h : name ∉ objectPrototype) (other : String) :
    (orElse o name value).lookup other = if other = name then some ((o.lookup name).getD value) else o.lookup other := by
  unfold orElse property
  cases hlookup : o.lookup name with
  | some a =>
    dsimp only
    split
    · rename_i heq
      exact heq ▸ hlookup
    · rfl
  | none =>
    simp only [if_neg h]
    exact lookup_put name other value o

theorem modify_of_lookup {f : α → α} {a : α} (h : o.lookup name = some a) : modify o name f = .ok (put name (f a) o) := by
  rw [modify, property, h]

theorem modify_of_inherited {f : α → α} (h : o.lookup name = none) : modify o name f = .error .typeError := by
  rw [modify, property, h]
  dsimp only
  by_cases hname : name ∈ objectPrototype
  · rw [if_pos hname]
  · rw [if_neg hname]

theorem property_eq_own {a : α} : property o name = .own a ↔ o.lookup name = some a := by
  unfold property
  cases o.lookup name with
  | some b => simp
  | none => by_cases hname : name ∈ objectPrototype <;> simp [hname]

end Object

/-- The services that it uses, in the order of the links. -/
def usesOf (links : List DependencyLink) (n : String) : List String :=
  (links.filter fun link => decide (link.parent = n)).map DependencyLink.child

/-- The services that it is used by. -/
def usedByOf (links : List DependencyLink) (n : String) : List String :=
  (links.filter fun link => decide (link.child = n)).map DependencyLink.parent

def IsLinked (links : List DependencyLink) (n : String) : Prop := ∃ link ∈ links, link.parent = n ∨ link.child = n

instance (links : List DependencyLink) (n : String) : Decidable (IsLinked links n) :=
  inferInstanceAs (Decidable (∃ link ∈ links, link.parent = n ∨ link.child = n))

def serviceOf (links : List DependencyLink) (n : String) : Option ServiceData :=
  if IsLinked links n then some ⟨n, usesOf links n, usedByOf links n⟩ else none

/-- The link of two services: of several the last one. -/
def lastLink (links : List DependencyLink) (parent child : String) : Option DependencyLink :=
  (links.filter fun link => decide (link.parent = parent ∧ link.child = child)).getLast?

/-- The objects have what the links say. -/
structure Holds (links : List DependencyLink) (data : DependencyData) : Prop where
  services : ∀ n, data.services.lookup n = serviceOf links n
  parents : ∀ n, data.dependencies.lookup n = none ↔ ∀ link ∈ links, link.parent ≠ n
  links : ∀ n found, data.dependencies.lookup n = some found → ∀ m, found.lookup m = lastLink links n m

section Concat
variable {links : List DependencyLink} {link : DependencyLink}

theorem usesOf_concat (n : String) :
    usesOf (links ++ [link]) n = usesOf links n ++ if link.parent = n then [link.child] else [] := by
  rw [usesOf, List.filter_append, List.map_append, usesOf]
  congr 1
  by_cases h : link.parent = n <;> simp [h]

theorem usedByOf_concat (n : String) :
    usedByOf (links ++ [link]) n = usedByOf links n ++ if link.child = n then [link.parent] else [] := by
  rw [usedByOf, List.filter_append, List.map_append, usedByOf]
  congr 1
  by_cases h : link.child = n <;> simp [h]

theorem lastLink_concat (n m : String) : lastLink (links ++ [link]) n m =
    if link.parent = n ∧ link.child = m then some link else lastLink links n m := by
  rw [lastLink, List.filter_append]
  by_cases h : link.parent = n ∧ link.child = m
  · rw [if_pos h, List.filter_singleton, decide_eq_true h]
    exact List.getLast?_concat
  · rw [if_neg h, List.filter_singleton, decide_eq_false h]
    exact congrArg List.getLast? (List.append_nil _)

theorem isLinked_concat (n : String) :
    IsLinked (links ++ [link]) n ↔ IsLinked links n ∨ link.parent = n ∨ link.child = n := by
  simp only [IsLinked, List.mem_append, List.mem_singleton, or_and_right, exists_or, exists_eq_left]

theorem usesOf_of_not_isLinked {n : String} (h : ¬ IsLinked links n) : usesOf links n = [] ∧ usedByOf links n = [] := by
  simp only [IsLinked, not_exists, not_and, not_or] at h
  constructor
  · rw [usesOf, List.map_eq_nil_iff, List.filter_eq_nil_iff]
    exact fun link hlink => by simpa using (h link hlink).1
  · rw [usedByOf, List.map_eq_nil_iff, List.filter_eq_nil_iff]
    exact fun link hlink => by simpa using (h link hlink).2

theorem getD_serviceOf (n : String) : (serviceOf links n).getD ⟨n, [], []⟩ = ⟨n, usesOf links n, usedByOf links n⟩ := by
  unfold serviceOf
  split
  · rfl
  · rename_i h
    obtain ⟨huses, husedBy⟩ := usesOf_of_not_isLinked h
    rw [huses, husedBy]
    rfl

end Concat

section Loop
variable {links : List DependencyLink} {link : DependencyLink} {data : DependencyData}

theorem setLink_named (hnamed : Named link) (dependencies : List (String × List (String × DependencyLink))) :
    setLink (orElse dependencies link.parent []) link =
      .ok (put link.parent (put link.child link ((dependencies.lookup link.parent).getD []))
        (orElse dependencies link.parent [])) := by
  have hproto : link.child ≠ "__proto__" := fun heq => hnamed.2 (heq ▸ by decide)
  rw [setLink, property, lookup_orElse hnamed.1, if_pos rfl]
  dsimp only
  rw [if_neg hproto]

/-- Both services of a link have data, before any of it is changed. -/
theorem lookup_orElse_orElse {services : List (String × ServiceData)} (hservices : ∀ n, services.lookup n = serviceOf links n)
    (hnamed : Named link) (n : String) :
    (orElse (orElse services link.parent ⟨link.parent, [], []⟩) link.child ⟨link.child, [], []⟩).lookup n =
      if n = link.child ∨ n = link.parent then some ⟨n, usesOf links n, usedByOf links n⟩ else serviceOf links n := by
  simp only [lookup_orElse hnamed.2, lookup_orElse hnamed.1, hservices, getD_serviceOf]
  by_cases hchild : n = link.child
  · subst hchild
    by_cases hparent : link.child = link.parent
    · simp [hparent]
    · simp [hparent, getD_serviceOf]
  · by_cases hparent : n = link.parent
    · subst hparent
      simp [hchild]
    · simp [hchild, hparent]

/-- The parent is given its child, and then the child its parent, which can be the same service. -/
theorem exists_modify_modify {services : List (String × ServiceData)} (hservices : ∀ n, services.lookup n =
      if n = link.child ∨ n = link.parent then some ⟨n, usesOf links n, usedByOf links n⟩ else serviceOf links n) :
    ∃ given used, modify services link.parent
          (fun service => { service with uses := service.uses ++ [link.child] }) = .ok given ∧
      modify given link.child (fun service => { service with usedBy := service.usedBy ++ [link.parent] }) = .ok used ∧
        ∀ n, used.lookup n = serviceOf (links ++ [link]) n := by
  let given := put link.parent ⟨link.parent, usesOf links link.parent ++ [link.child], usedByOf links link.parent⟩ services
  have hgiven : ∀ n, given.lookup n = if n = link.child ∨ n = link.parent then
      some ⟨n, usesOf (links ++ [link]) n, usedByOf links n⟩ else serviceOf links n := fun n => by
    rw [lookup_put, hservices, usesOf_concat]
    by_cases hparent : n = link.parent
    · subst hparent
      simp
    · simp [hparent, Ne.symm hparent]
  refine ⟨given, _, modify_of_lookup ((hservices link.parent).trans (if_pos (Or.inr rfl))),
    modify_of_lookup ((hgiven link.child).trans (if_pos (Or.inl rfl))), fun n => ?_⟩
  rw [lookup_put, hgiven, serviceOf, serviceOf]
  by_cases hchild : n = link.child
  · subst hchild
    simp [isLinked_concat, usedByOf_concat]
  · by_cases hparent : n = link.parent
    · subst hparent
      simp [hchild, Ne.symm hchild, isLinked_concat, usedByOf_concat]
    · simp [hchild, hparent, Ne.symm hchild, Ne.symm hparent, isLinked_concat, usedByOf_concat, usesOf_concat]

/-- What the parent has afterwards is the link that came last, for each service. -/
theorem lookup_put_link (h : Holds links data) (m : String) :
    (put link.child link ((data.dependencies.lookup link.parent).getD [])).lookup m =
      lastLink (links ++ [link]) link.parent m := by
  have hold : ((data.dependencies.lookup link.parent).getD []).lookup m = lastLink links link.parent m := by
    cases hlookup : data.dependencies.lookup link.parent with
    | some found => exact h.links _ _ hlookup m
    | none =>
      have hnone := (h.parents link.parent).1 hlookup
      have hnil : (links.filter fun l => decide (l.parent = link.parent ∧ l.child = m)) = [] :=
        List.filter_eq_nil_iff.2 fun l hl => by simp [hnone l hl]
      rw [lastLink, hnil]
      rfl
  rw [lookup_put, hold, lastLink_concat]
  by_cases hchild : m = link.child
  · simp [hchild]
  · simp [hchild, Ne.symm hchild]

/-- **A link of services with names of their own** is added. -/
theorem addLink_named (h : Holds links data) (hnamed : Named link) :
    ∃ data', addLink data link = .ok data' ∧ Holds (links ++ [link]) data' := by
  obtain ⟨given, used, hgiven, hused, hservices⟩ := exists_modify_modify (lookup_orElse_orElse h.services hnamed)
  refine ⟨⟨used, put link.parent (put link.child link ((data.dependencies.lookup link.parent).getD []))
    (orElse data.dependencies link.parent [])⟩, ?_, hservices, ?_, ?_⟩
  · unfold addLink
    rw [setLink_named hnamed]
    change (modify _ link.parent _ >>= fun services => modify services link.child _ >>= fun services => _) = _
    rw [hgiven]
    change (modify given link.child _ >>= fun services => _) = _
    rw [hused]
    rfl
  · intro n
    rw [lookup_put, lookup_orElse hnamed.1]
    by_cases hparent : n = link.parent
    · subst hparent
      simp
    · simp [hparent, Ne.symm hparent, h.parents, or_imp, forall_and]
  · intro n found hfound m
    rw [lookup_put, lookup_orElse hnamed.1] at hfound
    by_cases hparent : n = link.parent
    · subst hparent
      rw [if_pos rfl] at hfound
      exact Option.some.inj hfound ▸ lookup_put_link h m
    · rw [if_neg hparent, if_neg hparent] at hfound
      rw [lastLink_concat, if_neg fun heq => hparent heq.1.symm]
      exact h.links n found hfound m

theorem setLink_error_or (dependencies : List (String × List (String × DependencyLink))) (link : DependencyLink) :
    setLink dependencies link = .error .typeError ∨ ∃ dependencies', setLink dependencies link = .ok dependencies' := by
  unfold setLink
  split
  · exact Or.inr ⟨_, rfl⟩
  · exact Or.inr ⟨_, rfl⟩
  · exact Or.inl rfl

theorem lookup_of_mem_objectPrototype (h : Holds links data) (hlinks : ∀ l ∈ links, Named l) {n : String}
    (hn : n ∈ objectPrototype) : data.services.lookup n = none := by
  rw [h.services, serviceOf, if_neg]
  rintro ⟨l, hl, rfl | rfl⟩
  · exact (hlinks l hl).1 hn
  · exact (hlinks l hl).2 hn

/-- **A link of a service that has an inherited name** is not. -/
theorem addLink_inherited (h : Holds links data) (hlinks : ∀ l ∈ links, Named l) (hnamed : ¬ Named link) :
    addLink data link = .error .typeError := by
  unfold addLink
  rcases setLink_error_or (orElse data.dependencies link.parent []) link with hset | ⟨dependencies, hset⟩
  · rw [hset]
    rfl
  rw [hset]
  change (modify (orElse (orElse data.services link.parent _) link.child _) link.parent _ >>= fun services =>
    modify services link.child _ >>= fun services => _) = _
  by_cases hparent : link.parent ∈ objectPrototype
  · rw [orElse_of_mem hparent, modify_of_inherited]
    · rfl
    · by_cases hchild : link.child ∈ objectPrototype
      · rw [orElse_of_mem hchild]
        exact lookup_of_mem_objectPrototype h hlinks hparent
      · rw [lookup_orElse hchild, if_neg, lookup_of_mem_objectPrototype h hlinks hparent]
        rintro heq
        exact hchild (heq ▸ hparent)
  -- the parent gets its child, and the child, which has an inherited name, has no list
  · have hchild : link.child ∈ objectPrototype := by
      by_contra hchild
      exact hnamed ⟨hparent, hchild⟩
    have hne : link.child ≠ link.parent := fun heq => hparent (heq ▸ hchild)
    rw [orElse_of_mem hchild, modify_of_lookup ((lookup_orElse hparent _).trans (if_pos rfl))]
    change (modify (put link.parent _ _) link.child _ >>= fun services => _) = _
    rw [modify_of_inherited]
    · rfl
    · rw [lookup_put, if_neg hne, lookup_orElse hparent, if_neg hne, lookup_of_mem_objectPrototype h hlinks hchild]

/-- **The loop** gets through the links of services with names of their own, and stops at the first other one. -/
theorem buildServiceData_cases (links : List DependencyLink) :
    ((∀ link ∈ links, Named link) ∧ ∃ data, buildServiceData links = .ok data ∧ Holds links data) ∨
      (∃ link ∈ links, ¬ Named link) ∧ buildServiceData links = .error .typeError := by
  induction links using List.reverseRecOn with
  | nil => exact Or.inl ⟨nofun, {}, rfl, ⟨fun _ => rfl, fun _ => iff_of_true rfl nofun, nofun⟩⟩
  | append_singleton links link ih =>
    have hconcat : buildServiceData (links ++ [link]) = (buildServiceData links >>= fun data => addLink data link) := by
      rw [buildServiceData, List.foldlM_append, ← buildServiceData]
      simp
    rcases ih with ⟨hnamed, data, hdata, hholds⟩ | ⟨⟨l, hl, hnot⟩, herror⟩
    · by_cases hlink : Named link
      · obtain ⟨data', hadd, hholds'⟩ := addLink_named hholds hlink
        refine Or.inl ⟨fun l hl => ?_, data', ?_, hholds'⟩
        · rcases List.mem_append.1 hl with hl | hl
          · exact hnamed l hl
          · exact List.mem_singleton.1 hl ▸ hlink
        · rw [hconcat, hdata]
          exact hadd
      · refine Or.inr ⟨⟨link, List.mem_append_right _ List.mem_cons_self, hlink⟩, ?_⟩
        rw [hconcat, hdata]
        exact addLink_inherited hholds hnamed hlink
    · refine Or.inr ⟨⟨l, List.mem_append_left _ hl, hnot⟩, ?_⟩
      rw [hconcat, herror]
      rfl

end Loop

/-! ## The graph -/

theorem mem_arrayUnique_zipIdx {l : List String} {e : String × Nat}
    (he : e ∈ l.zipIdx.filter fun (val, i) => decide (i ≤ l.idxOf val)) : e.2 = l.idxOf e.1 ∧ e.1 ∈ l := by
  obtain ⟨hmem, hle⟩ := List.mem_filter.1 he
  have hget := List.mem_zipIdx_iff_getElem?.1 hmem
  obtain ⟨hlt, hval⟩ := List.getElem?_eq_some_iff.1 hget
  refine ⟨le_antisymm (of_decide_eq_true hle) (not_lt.1 fun hbefore => ?_), List.mem_of_getElem? hget⟩
  have hother := List.not_of_lt_findIdx hbefore
  rw [hval, beq_self_eq_true] at hother
  cases hother

theorem nodup_arrayUnique (l : List String) : (arrayUnique l).Nodup := by
  have hnodup : l.zipIdx.Nodup := List.Nodup.of_map Prod.snd (by rw [List.zipIdx_map_snd]; exact List.nodup_range')
  refine List.Nodup.map_on (fun a ha b hb heq => ?_) (hnodup.filter _)
  exact Prod.ext heq ((mem_arrayUnique_zipIdx ha).1.trans (heq ▸ (mem_arrayUnique_zipIdx hb).1.symm))

theorem mem_arrayUnique {l : List String} {a : String} : a ∈ arrayUnique l ↔ a ∈ l := by
  constructor
  · intro h
    obtain ⟨e, he, rfl⟩ := List.mem_map.1 h
    exact (mem_arrayUnique_zipIdx he).2
  · intro h
    refine List.mem_map.2 ⟨(a, l.idxOf a), List.mem_filter.2 ⟨?_, decide_eq_true le_rfl⟩, rfl⟩
    rw [List.mem_zipIdx_iff_getElem?]
    exact List.getElem?_idxOf h

theorem mem_allNames {links : List DependencyLink} {n : String} : n ∈ allNames links ↔ IsLinked links n := by
  simp only [allNames, mem_arrayUnique, List.mem_append, List.mem_map, IsLinked, and_or_left, exists_or]

/-- **Nodes with different names of their own** are added. -/
theorem foldlM_addNode : ∀ {names : List String} {g : Digraph}, (g.nodes ++ names).Nodup →
    (∀ n ∈ names, n ∉ objectPrototype) →
    names.foldlM Digraph.addNode g = .ok { g with nodes := g.nodes ++ names }
  | [], g, _, _ => by
    rw [List.append_nil]
    rfl
  | n :: names, g, hnodup, hnamed => by
    have hnot : ¬ g.hasNode n := by
      rintro (hn | hn)
      · exact List.disjoint_of_nodup_append hnodup hn List.mem_cons_self
      · exact hnamed n List.mem_cons_self hn
    rw [List.foldlM_cons, Digraph.addNode, if_neg hnot]
    refine (foldlM_addNode ?_ fun m hm => hnamed m (List.mem_cons_of_mem n hm)).trans ?_
    · rwa [List.append_assoc]
    · rw [List.append_assoc]
      rfl

/-- **Edges between nodes of the graph** are added if their ids differ. -/
theorem foldlM_addEdge : ∀ (edges : List Edge) (g : Digraph), (∀ e ∈ edges, e.source ∈ g.nodes ∧ e.target ∈ g.nodes) →
    (∀ e ∈ edges, e.id ∉ objectPrototype) → (g.edges.map Edge.id).Nodup →
    ((g.edges ++ edges).map Edge.id).Nodup ∧ edges.foldlM Digraph.addEdge g = .ok { g with edges := g.edges ++ edges } ∨
      ¬ ((g.edges ++ edges).map Edge.id).Nodup ∧ ∃ e, edges.foldlM Digraph.addEdge g = .error e
  | [], g, _, _, hnodup => by
    rw [List.append_nil]
    exact Or.inl ⟨hnodup, rfl⟩
  | e :: edges, g, hnodes, hids, hnodup => by
    obtain ⟨hsource, htarget⟩ := hnodes e List.mem_cons_self
    have hadd : g.addEdge e = if g.hasEdge e.id then .error (.error ("Graph already has edge '" ++ e.id ++ "'"))
        else .ok { g with edges := g.edges ++ [e] } := by
      have hget : ∀ u ∈ g.nodes, g.strictGetNode u = .ok () := fun u hu => if_pos (Or.inl hu)
      rw [Digraph.addEdge, hget _ hsource, hget _ htarget]
      by_cases hedge : g.hasEdge e.id
      · rw [if_pos hedge, if_pos hedge]
        rfl
      · rw [if_neg hedge, if_neg hedge]
        rfl
    rw [List.foldlM_cons, hadd]
    by_cases hid : e.id ∈ g.edges.map Edge.id
    · have hedge : g.hasEdge e.id := Or.inl hid
      rw [if_pos hedge]
      refine Or.inr ⟨fun hall => ?_, _, rfl⟩
      rw [List.map_append] at hall
      exact List.disjoint_of_nodup_append hall hid List.mem_cons_self
    · have hedge : ¬ g.hasEdge e.id := not_or.2 ⟨hid, hids e List.mem_cons_self⟩
      rw [if_neg hedge]
      have hnodup' : ((g.edges ++ [e]).map Edge.id).Nodup := by
        rw [List.map_append]
        exact List.nodup_append_comm.1 (List.nodup_cons.2 ⟨hid, hnodup⟩)
      have ih := foldlM_addEdge edges { g with edges := g.edges ++ [e] }
        (fun d hd => hnodes d (List.mem_cons_of_mem e hd)) (fun d hd => hids d (List.mem_cons_of_mem e hd)) hnodup'
      rw [List.append_assoc] at ih
      exact ih

theorem edgeOf_id_not_mem (link : DependencyLink) : (edgeOf link).id ∉ objectPrototype := by
  have harrow : '>' ∈ (edgeOf link).id.toList := by
    simp [edgeOf, String.toList_append]
  have hnames : ∀ n ∈ objectPrototype, '>' ∉ n.toList := by decide
  exact fun hmem => hnames _ hmem harrow

/-! ## The page -/

/-- The ids of the arrows. -/
def edgeIds (links : List DependencyLink) : List String := (arrows links).map fun link => (edgeOf link).id

theorem mem_arrows {links : List DependencyLink} {link : DependencyLink} :
    link ∈ arrows links ↔ link ∈ links ∧ link.parent ≠ link.child := by
  rw [arrows, List.mem_filter, bne_iff_ne]

theorem dependencyGraph_cases {links : List DependencyLink} (hnamed : ∀ link ∈ links, Named link) :
    (edgeIds links).Nodup ∧ dependencyGraph links = .ok ⟨allNames links, (arrows links).map edgeOf⟩ ∨
      ¬ (edgeIds links).Nodup ∧ ∃ e, dependencyGraph links = .error e := by
  have hnodes : (allNames links).foldlM Digraph.addNode {} = .ok ⟨allNames links, []⟩ := by
    refine foldlM_addNode (nodup_arrayUnique _) fun n hn => ?_
    obtain ⟨link, hlink, rfl | rfl⟩ := mem_allNames.1 hn
    · exact (hnamed link hlink).1
    · exact (hnamed link hlink).2
  have hedges := foldlM_addEdge ((arrows links).map edgeOf) ⟨allNames links, []⟩
    (fun e he => by
      obtain ⟨link, hlink, rfl⟩ := List.mem_map.1 he
      have hmem := (mem_arrows.1 hlink).1
      exact ⟨mem_allNames.2 ⟨link, hmem, Or.inl rfl⟩, mem_allNames.2 ⟨link, hmem, Or.inr rfl⟩⟩)
    (fun e he => by
      obtain ⟨link, -, rfl⟩ := List.mem_map.1 he
      exact edgeOf_id_not_mem link) List.nodup_nil
  have hgraph : dependencyGraph links = ((arrows links).map edgeOf).foldlM Digraph.addEdge ⟨allNames links, []⟩ := by
    rw [dependencyGraph, hnodes, List.foldlM_map]
    rfl
  rw [hgraph, edgeIds]
  rwa [List.nil_append, List.map_map] at hedges

theorem success_cases (links : List DependencyLink) :
    ((∀ link ∈ links, Named link) ∧ (edgeIds links).Nodup ∧ ∃ data, Holds links data ∧
      success links = .ok (data, ⟨allNames links, (arrows links).map edgeOf⟩)) ∨
      ((∀ link ∈ links, Named link) → ¬ (edgeIds links).Nodup) ∧ ∃ e, success links = .error e := by
  rcases buildServiceData_cases links with ⟨hnamed, data, hdata, hholds⟩ | ⟨⟨link, hlink, hnot⟩, herror⟩
  · rcases dependencyGraph_cases hnamed with ⟨hids, hgraph⟩ | ⟨hids, e, hgraph⟩
    · refine Or.inl ⟨hnamed, hids, data, hholds, ?_⟩
      rw [success, hdata, hgraph]
      rfl
    · refine Or.inr ⟨fun _ => hids, e, ?_⟩
      rw [success, hdata, hgraph]
      rfl
  · refine Or.inr ⟨fun hnamed => absurd (hnamed link hlink) hnot, .typeError, ?_⟩
    rw [success, herror]
    rfl

/-- **When the links are shown**: exactly if no service has a name of `Object.prototype` and no two arrows have the same id. -/
theorem shows_iff (links : List DependencyLink) : (∃ page, success links = .ok page) ↔
    (∀ link ∈ links, link.parent ∉ objectPrototype ∧ link.child ∉ objectPrototype) ∧ (edgeIds links).Nodup := by
  rcases success_cases links with ⟨hnamed, hids, data, -, hpage⟩ | ⟨hnot, e, herror⟩
  · exact iff_of_true ⟨_, hpage⟩ ⟨hnamed, hids⟩
  · refine iff_of_false ?_ fun ⟨hnamed, hids⟩ => hnot hnamed hids
    rintro ⟨page, hpage⟩
    cases hpage.symm.trans herror

section Holds
variable {links : List DependencyLink} {data : DependencyData} {n m : String} {service : ServiceData}

theorem getServiceData_iff (h : Holds links data) : getServiceData data n = .own service ↔
    IsLinked links n ∧ service = ⟨n, usesOf links n, usedByOf links n⟩ := by
  rw [getServiceData, property_eq_own, h.services, serviceOf]
  split
  · rename_i hlinked
    rw [Option.some.injEq, eq_comm, and_iff_right hlinked]
  · rename_i hlinked
    exact iff_of_false nofun fun h => hlinked h.1

theorem mem_usesOf : m ∈ usesOf links n ↔ ∃ link ∈ links, link.pair = (n, m) := by
  simp only [usesOf, List.mem_map, List.mem_filter, decide_eq_true_iff, and_assoc, DependencyLink.pair, Prod.mk.injEq]

theorem mem_usedByOf : m ∈ usedByOf links n ↔ ∃ link ∈ links, link.pair = (m, n) := by
  simp only [usedByOf, List.mem_map, List.mem_filter, decide_eq_true_iff, and_assoc, DependencyLink.pair, Prod.mk.injEq]
  exact exists_congr fun link => and_congr_right fun _ => and_comm

/-- The links that are counted on both sides. -/
theorem count_usesOf : (usesOf links n).count m = (usedByOf links m).count n := by
  rw [usesOf, usedByOf, List.count_eq_countP, List.count_eq_countP, List.countP_map, List.countP_map, List.countP_filter,
    List.countP_filter]
  refine List.countP_congr fun link _ => ?_
  simp only [Function.comp_apply, Bool.and_eq_true, beq_iff_eq, decide_eq_true_iff]
  exact and_comm

theorem getDependencyData_of_mem (ofPrototype : String → String → Property DependencyLink) (h : Holds links data)
    (hlink : ∃ link ∈ links, link.pair = (n, m)) :
    ∃ link ∈ links, link.pair = (n, m) ∧ getDependencyData ofPrototype data n m = .ok (.own link) := by
  obtain ⟨link, hlink, hpair⟩ := hlink
  obtain ⟨rfl, rfl⟩ := Prod.mk.inj hpair
  cases hlookup : data.dependencies.lookup link.parent with
  | none => exact absurd rfl ((h.parents link.parent).1 hlookup link hlink)
  | some found =>
    have hfilter : link ∈ links.filter fun l => decide (l.parent = link.parent ∧ l.child = link.child) :=
      List.mem_filter.2 ⟨hlink, decide_eq_true ⟨rfl, rfl⟩⟩
    have hlast := h.links _ found hlookup link.child
    rw [lastLink, List.getLast?_eq_some_getLast (List.ne_nil_of_mem hfilter)] at hlast
    obtain ⟨hmem, heq⟩ := List.mem_filter.1 (List.getLast_mem (List.ne_nil_of_mem hfilter))
    obtain ⟨hparent, hchild⟩ := of_decide_eq_true heq
    refine ⟨_, hmem, Prod.ext hparent hchild, ?_⟩
    rw [getDependencyData, property, hlookup]
    exact congrArg Except.ok (property_eq_own.2 hlast)

end Holds

/-- What the page can show of a service: the links to each service that it uses, and from each that it is used by, are
there, they are counted on both sides, and the arrows are those to the others that it uses. -/
structure Shown (ofPrototype : String → String → Property DependencyLink) (links : List DependencyLink)
    (data : DependencyData) (g : Digraph) (n : String) (service : ServiceData) : Prop where
  serviceName : service.serviceName = n
  uses : ∀ m ∈ service.uses, ∃ link ∈ links, link.pair = (n, m) ∧
    getDependencyData ofPrototype data n m = .ok (.own link)
  usedBy : ∀ m ∈ service.usedBy, ∃ link ∈ links, link.pair = (m, n) ∧
    getDependencyData ofPrototype data m n = .ok (.own link)
  count_eq : ∀ m other, getServiceData data m = .own other → service.uses.count m = other.usedBy.count n
  arrow_iff : ∀ m, (∃ e ∈ g.edges, e.source = n ∧ e.target = m) ↔ m ∈ service.uses ∧ n ≠ m

/-- **The page is consistent**: the nodes of the graph are the services that have data, each once, and what can be asked for
from there is there. -/
theorem shown_of_success (ofPrototype : String → String → Property DependencyLink) (links : List DependencyLink)
    (data : DependencyData) (g : Digraph) (hpage : success links = .ok (data, g)) :
    g.nodes.Nodup ∧ (∀ n, n ∈ g.nodes ↔ ∃ service, getServiceData data n = .own service) ∧
      ∀ n service, getServiceData data n = .own service → Shown ofPrototype links data g n service := by
  rcases success_cases links with ⟨-, -, data', hholds, hok⟩ | ⟨-, e, herror⟩
  · obtain ⟨rfl, rfl⟩ := Prod.mk.inj (Except.ok.inj (hok.symm.trans hpage))
    refine ⟨nodup_arrayUnique _, fun n => ?_, fun n service hservice => ?_⟩
    · simp only [getServiceData_iff hholds, exists_and_left, exists_eq, and_true, mem_allNames]
    · obtain ⟨-, rfl⟩ := (getServiceData_iff hholds).1 hservice
      refine ⟨rfl, fun m hm => getDependencyData_of_mem ofPrototype hholds (mem_usesOf.1 hm),
        fun m hm => getDependencyData_of_mem ofPrototype hholds (mem_usedByOf.1 hm), fun m other hother => ?_, fun m => ?_⟩
      · obtain ⟨-, rfl⟩ := (getServiceData_iff hholds).1 hother
        exact count_usesOf
      · rw [mem_usesOf]
        constructor
        · rintro ⟨_, he, rfl, rfl⟩
          obtain ⟨link, hlink, rfl⟩ := List.mem_map.1 he
          obtain ⟨hlink, hne⟩ := mem_arrows.1 hlink
          exact ⟨⟨link, hlink, rfl⟩, hne⟩
        · rintro ⟨⟨link, hlink, hpair⟩, hne⟩
          obtain ⟨rfl, rfl⟩ := Prod.mk.inj hpair
          exact ⟨edgeOf link, List.mem_map_of_mem (mem_arrows.2 ⟨hlink, hne⟩), rfl, rfl⟩
  · cases herror.symm.trans hpage

/-- A service that calls another one and itself. -/
def webData : DependencyData :=
  ⟨[("web", ⟨"web", ["db", "web"], ["web"]⟩), ("db", ⟨"db", [], ["web"]⟩)],
    [("web", [("db", ⟨"web", "db", 3⟩), ("web", ⟨"web", "web", 1⟩)])]⟩

theorem shown_of_success_web : Shown (fun _ _ => .undefined) [⟨"web", "db", 3⟩, ⟨"web", "web", 1⟩] webData
    ⟨["web", "db"], [⟨"web->db", "web", "db", 3⟩]⟩ "web" ⟨"web", ["db", "web"], ["web"]⟩ :=
  (shown_of_success _ [⟨"web", "db", 3⟩, ⟨"web", "web", 1⟩] webData _ (by decide)).2.2 "web" _ (by decide)

/-- Two arrows with one id. -/
example : ¬ (edgeIds [⟨"a->b", "c", 1⟩, ⟨"a", "b->c", 1⟩]).Nodup := by decide

end DependencyPage
end Zipkin
