import Mathlib.Data.List.Forall2
import Mathlib.Data.List.Induction
import Mathlib.Data.List.Nodup
import Mathlib.Data.List.Perm.Subperm
import Mathlib.Logic.Relation
import Mathlib.Order.WellFoundedSet
/-!
# RoseTree — finitely branching trees, and unfolding one along a relation

`labels` lists a tree in preorder.  `unfold step order fuel a` grows the tree below `a` by calling itself on the
elements of `step a`, at most `fuel` calls deep, and puts the grown children in some order; `none` says that the fuel
ran out.  Along the relation `y ∈ step x`, an unfolded tree lists exactly what `a` reaches (`mem_labels_unfold`).

Where every element has at most one predecessor and `a` descends from an element without any, the relation has no cycle
below `a`: then the unfolding ends within as many calls as there are elements (`unfold_isSome`) and lists no element
twice (`nodup_labels_unfold`).  Where there is no cycle at all, every element descends from one without predecessor
(`exists_root_of_acyclic`), and the trees below all of these list each element once.
-/
universe u v

inductive RoseTree (α : Type u) where
  | node (label : α) (children : List (RoseTree α))

namespace RoseTree

variable {α : Type u} {β : Type v}

def label : RoseTree α → α
  | node a _ => a

def children : RoseTree α → List (RoseTree α)
  | node _ cs => cs

@[simp] theorem children_node (a : α) (cs : List (RoseTree α)) : (node a cs).children = cs := rfl

mutual
def labels : RoseTree α → List α
  | node a cs => a :: labelsAll cs

def labelsAll : List (RoseTree α) → List α
  | [] => []
  | c :: cs => c.labels ++ labelsAll cs
end

mutual
def height : RoseTree α → Nat
  | node _ cs => heightAll cs + 1

def heightAll : List (RoseTree α) → Nat
  | [] => 0
  | c :: cs => max c.height (heightAll cs)
end

mutual
def map (f : α → β) : RoseTree α → RoseTree β
  | node a cs => node (f a) (mapAll f cs)

def mapAll (f : α → β) : List (RoseTree α) → List (RoseTree β)
  | [] => []
  | c :: cs => c.map f :: mapAll f cs
end

mutual
/-- The labels in preorder, each with the number of its children. -/
def degrees : RoseTree α → List (α × Nat)
  | node a cs => (a, cs.length) :: degreesAll cs

def degreesAll : List (RoseTree α) → List (α × Nat)
  | [] => []
  | c :: cs => c.degrees ++ degreesAll cs
end

mutual
/-- The labels in preorder, each with its depth, where the top has depth `d`. -/
def levels : RoseTree α → Nat → List (α × Nat)
  | node a cs, d => (a, d) :: levelsAll cs (d + 1)

def levelsAll : List (RoseTree α) → Nat → List (α × Nat)
  | [], _ => []
  | c :: cs, d => c.levels d ++ levelsAll cs d
end

theorem labelsAll_eq : ∀ cs : List (RoseTree α), labelsAll cs = cs.flatMap labels
  | [] => rfl
  | c :: cs => by rw [labelsAll, labelsAll_eq cs, List.flatMap_cons]

theorem mapAll_eq (f : α → β) : ∀ cs : List (RoseTree α), mapAll f cs = cs.map (map f)
  | [] => rfl
  | c :: cs => by rw [mapAll, mapAll_eq f cs, List.map_cons]

@[simp] theorem labels_node (a : α) (cs : List (RoseTree α)) : (node a cs).labels = a :: cs.flatMap labels := by
  rw [labels, labelsAll_eq]

theorem degreesAll_eq : ∀ cs : List (RoseTree α), degreesAll cs = cs.flatMap degrees
  | [] => rfl
  | c :: cs => by rw [degreesAll, degreesAll_eq cs, List.flatMap_cons]

@[simp] theorem degrees_node (a : α) (cs : List (RoseTree α)) :
    (node a cs).degrees = (a, cs.length) :: cs.flatMap degrees := by
  rw [degrees, degreesAll_eq]

theorem levelsAll_eq (d : Nat) : ∀ cs : List (RoseTree α), levelsAll cs d = cs.flatMap (fun c => c.levels d)
  | [] => rfl
  | c :: cs => by rw [levelsAll, levelsAll_eq d cs, List.flatMap_cons]

@[simp] theorem levels_node (a : α) (cs : List (RoseTree α)) (d : Nat) :
    (node a cs).levels d = (a, d) :: cs.flatMap (fun c => c.levels (d + 1)) := by
  rw [levels, levelsAll_eq]

@[simp] theorem map_node (f : α → β) (a : α) (cs : List (RoseTree α)) :
    (node a cs).map f = node (f a) (cs.map (map f)) := by
  rw [map, mapAll_eq]

theorem height_le_heightAll {c : RoseTree α} : ∀ {cs : List (RoseTree α)}, c ∈ cs → c.height ≤ heightAll cs
  | [], h => by cases h
  | d :: cs, h => by
    rw [heightAll]
    rcases List.mem_cons.1 h with rfl | h
    · exact Nat.le_max_left _ _
    · exact Nat.le_trans (height_le_heightAll h) (Nat.le_max_right _ _)

theorem height_lt_of_mem {c : RoseTree α} {a : α} {cs : List (RoseTree α)} (h : c ∈ cs) :
    c.height < (node a cs).height := by
  rw [height]
  exact Nat.lt_succ_of_le (height_le_heightAll h)

theorem height_lt_of_mem_children {c t : RoseTree α} (h : c ∈ t.children) : c.height < t.height := by
  cases t with | node a cs => exact height_lt_of_mem h

theorem height_eq_of_children {t u : RoseTree α} (h : t.children = u.children) : t.height = u.height := by
  cases t with
  | node a cs =>
    cases u with
    | node b ds =>
      simp only [children_node] at h
      rw [h, height, height]

mutual
/-- **Induction on a tree**: a property that passes from all children to their parent holds of every tree. -/
theorem induct {P : RoseTree α → Prop} (h : ∀ a cs, (∀ c ∈ cs, P c) → P (node a cs)) : ∀ t, P t
  | node a cs => h a cs (inductAll h cs)

theorem inductAll {P : RoseTree α → Prop} (h : ∀ a cs, (∀ c ∈ cs, P c) → P (node a cs)) :
    ∀ cs : List (RoseTree α), ∀ c ∈ cs, P c
  | [], _, hc => by cases hc
  | d :: cs, c, hc => by
    rcases List.mem_cons.1 hc with hcd | hc
    · rw [hcd]; exact induct h d
    · exact inductAll h cs c hc
end

/-- **Induction on a depth that is not exceeded**, for what goes on below a node with trees that have the children of its
children. -/
theorem induct_height {motive : (depth : Nat) → (t : RoseTree α) → t.height ≤ depth → Prop}
    (step : ∀ depth a cs (h : (node a cs).height ≤ depth + 1),
      (∀ c ∈ cs, ∀ u : RoseTree α, u.children = c.children → ∃ hu : u.height ≤ depth, motive depth u hu) →
        motive (depth + 1) (node a cs) h) (depth : Nat) : ∀ (t : RoseTree α) (h : t.height ≤ depth), motive depth t h := by
  induction depth with
  | zero =>
    intro t h
    cases t with | node a cs => exact absurd h (by rw [height]; omega)
  | succ depth ih =>
    intro t h
    cases t with
    | node a cs =>
      refine step depth a cs h (fun c hc u hu => ?_)
      have hheight : u.height ≤ depth := by
        rw [height_eq_of_children hu]
        exact Nat.le_of_lt_succ (Nat.lt_of_lt_of_le (height_lt_of_mem hc) h)
      exact ⟨hheight, ih u hheight⟩

theorem labels_map (f : α → β) (t : RoseTree α) : (t.map f).labels = t.labels.map f := by
  induction t using induct with
  | h a cs ih =>
    rw [map_node, labels_node, labels_node, List.map_cons, List.flatMap_map, List.map_flatMap]
    congr 1
    exact List.flatMap_congr (fun c hc => ih c hc)

theorem map_fst_degrees (t : RoseTree α) : t.degrees.map Prod.fst = t.labels := by
  induction t using induct with
  | h a cs ih =>
    rw [degrees_node, labels_node, List.map_cons, List.map_flatMap]
    congr 1
    exact List.flatMap_congr ih

theorem map_fst_levels (t : RoseTree α) : ∀ d : Nat, (t.levels d).map Prod.fst = t.labels := by
  induction t using induct with
  | h a cs ih =>
    intro d
    rw [levels_node, labels_node, List.map_cons, List.map_flatMap]
    congr 1
    exact List.flatMap_congr (fun c hc => ih c hc (d + 1))

theorem degrees_map (f : α → β) (t : RoseTree α) :
    (t.map f).degrees = t.degrees.map (fun x => (f x.1, x.2)) := by
  induction t using induct with
  | h a cs ih =>
    rw [map_node, degrees_node, degrees_node, List.map_cons, List.flatMap_map, List.map_flatMap, List.length_map]
    congr 1
    exact List.flatMap_congr (fun c hc => ih c hc)

/-! ## Relating two lists of trees -/

theorem forall₂_append_iff {R : α → β → Prop} {l l' : List α} {r r' : List β} (h : l.length = r.length) :
    List.Forall₂ R (l ++ l') (r ++ r') ↔ List.Forall₂ R l r ∧ List.Forall₂ R l' r' := by
  constructor
  · intro hall
    have htake := List.forall₂_take l.length hall
    have hdrop := List.forall₂_drop l.length hall
    rw [List.take_left, List.take_left' h.symm] at htake
    rw [List.drop_left, List.drop_left' h.symm] at hdrop
    exact ⟨htake, hdrop⟩
  · exact fun ⟨hl, hr⟩ => List.rel_append hl hr

theorem forall₂_flatMap_iff {γ : Type*} {R : α → β → Prop} {f : γ → List α} {g : γ → List β} : ∀ {l : List γ},
    (∀ c ∈ l, (f c).length = (g c).length) →
      (List.Forall₂ R (l.flatMap f) (l.flatMap g) ↔ ∀ c ∈ l, List.Forall₂ R (f c) (g c))
  | [], _ => by simp
  | c :: l, h => by
    rw [List.flatMap_cons, List.flatMap_cons, forall₂_append_iff (h c List.mem_cons_self),
      forall₂_flatMap_iff (fun d hd => h d (List.mem_cons_of_mem _ hd)), List.forall_mem_cons]

theorem forall₂_flatMap {γ : Type*} {R : α → β → Prop} {f : γ → List α} {g : γ → List β} {l : List γ}
    (h : ∀ c ∈ l, List.Forall₂ R (f c) (g c)) : List.Forall₂ R (l.flatMap f) (l.flatMap g) :=
  (forall₂_flatMap_iff (fun c hc => (h c hc).length_eq)).2 h

/-! ## Unfolding -/

theorem mapM_eq_some {f : α → Option β} : ∀ {l : List α} {r : List β},
    l.mapM f = some r ↔ List.Forall₂ (fun a b => f a = some b) l r
  | [], r => by
    rw [List.mapM_nil, List.forall₂_nil_left_iff]
    exact ⟨fun h => (Option.some.inj h).symm, fun h => h ▸ rfl⟩
  | a :: l, r => by
    rw [List.mapM_cons, List.forall₂_cons_left_iff]
    constructor
    · intro h
      obtain ⟨b, hb, h⟩ := Option.bind_eq_some_iff.1 h
      obtain ⟨bs, hbs, h⟩ := Option.bind_eq_some_iff.1 h
      exact ⟨b, bs, hb, mapM_eq_some.1 hbs, (Option.some.inj h).symm⟩
    · rintro ⟨b, bs, hb, hbs, rfl⟩
      rw [hb, mapM_eq_some.2 hbs]
      rfl

theorem mapM_isSome {f : α → Option β} : ∀ {l : List α}, (∀ a ∈ l, (f a).isSome) → (l.mapM f).isSome
  | [], _ => by rw [List.mapM_nil]; rfl
  | a :: l, h => by
    obtain ⟨b, hb⟩ := Option.isSome_iff_exists.1 (h a List.mem_cons_self)
    obtain ⟨bs, hbs⟩ := Option.isSome_iff_exists.1 (mapM_isSome (fun c hc => h c (List.mem_cons_of_mem _ hc)))
    rw [List.mapM_cons, hb, hbs]
    rfl

/-- The tree below an element, `none` once the calls go deeper than the fuel. -/
def unfold (step : α → List α) (order : List (RoseTree α) → List (RoseTree α)) : Nat → α → Option (RoseTree α)
  | 0, _ => none
  | n + 1, a => ((step a).mapM (unfold step order n)).map (fun ts => node a (order ts))

section Unfold
variable {step : α → List α} {order : List (RoseTree α) → List (RoseTree α)}

/-- **One call of the unfolding**: the children are grown from the steps of the label, in some order. -/
theorem unfold_succ_eq_some {n : Nat} {a : α} {t : RoseTree α} :
    unfold step order (n + 1) a = some t ↔
      ∃ ts, List.Forall₂ (fun c t => unfold step order n c = some t) (step a) ts ∧ t = node a (order ts) := by
  rw [unfold, Option.map_eq_some_iff]
  exact ⟨fun ⟨ts, h, ht⟩ => ⟨ts, mapM_eq_some.1 h, ht.symm⟩, fun ⟨ts, h, ht⟩ => ⟨ts, mapM_eq_some.2 h, ht.symm⟩⟩

theorem label_of_unfold {n : Nat} {a : α} {t : RoseTree α} (h : unfold step order n a = some t) : t.label = a := by
  cases n with
  | zero => cases h
  | succ n =>
    obtain ⟨ts, -, rfl⟩ := unfold_succ_eq_some.1 h
    rfl

theorem map_label_of_unfold {n : Nat} {l : List α} {ts : List (RoseTree α)}
    (h : List.Forall₂ (fun a t => unfold step order n a = some t) l ts) : ts.map label = l := by
  induction h with
  | nil => rfl
  | cons ht _ ih => rw [List.map_cons, label_of_unfold ht, ih]

theorem exists_of_forall₂_left {R : α → β → Prop} {l : List α} {r : List β} (h : List.Forall₂ R l r) {a : α}
    (ha : a ∈ l) : ∃ b ∈ r, R a b := by
  induction h with
  | nil => cases ha
  | cons hab _ ih =>
    rcases List.mem_cons.1 ha with rfl | ha
    · exact ⟨_, List.mem_cons_self, hab⟩
    · obtain ⟨b, hb, hr⟩ := ih ha
      exact ⟨b, List.mem_cons_of_mem _ hb, hr⟩

theorem exists_of_forall₂_right {R : α → β → Prop} {l : List α} {r : List β} (h : List.Forall₂ R l r) {b : β}
    (hb : b ∈ r) : ∃ a ∈ l, R a b :=
  exists_of_forall₂_left h.flip hb

theorem pairwise_of_forall₂ {R : α → β → Prop} {S : α → α → Prop} {T : β → β → Prop} {l : List α} {r : List β}
    (h : List.Forall₂ R l r) (hl : l.Pairwise S)
    (hST : ∀ {a b x y}, a ∈ l → b ∈ l → R a x → R b y → S a b → T x y) : r.Pairwise T := by
  induction h with
  | nil => exact List.Pairwise.nil
  | cons hab hrest ih =>
    rw [List.pairwise_cons] at hl
    refine List.Pairwise.cons (fun y hy => ?_)
      (ih hl.2 (fun ha hb => hST (List.mem_cons_of_mem _ ha) (List.mem_cons_of_mem _ hb)))
    obtain ⟨b, hb, hby⟩ := exists_of_forall₂_right hrest hy
    exact hST List.mem_cons_self (List.mem_cons_of_mem _ hb) hab hby (hl.1 b hb)

/-- **An unfolded tree lists exactly what its root reaches.** -/
theorem mem_labels_unfold (horder : ∀ l, (order l).Perm l) {n : Nat} : ∀ {a : α} {t : RoseTree α},
    unfold step order n a = some t → ∀ x, x ∈ t.labels ↔ Relation.ReflTransGen (fun y z => z ∈ step y) a x := by
  induction n with
  | zero => intro a t h; cases h
  | succ n ih =>
    intro a t h x
    obtain ⟨ts, hts, rfl⟩ := unfold_succ_eq_some.1 h
    rw [labels_node, List.mem_cons, List.mem_flatMap]
    constructor
    · rintro (rfl | ⟨c, hc, hx⟩)
      · exact .refl
      · obtain ⟨b, hb, hbc⟩ := exists_of_forall₂_right hts ((horder ts).mem_iff.1 hc)
        exact .head hb ((ih hbc x).1 hx)
    · intro hx
      rcases hx.cases_head with rfl | ⟨b, hb, hx⟩
      · exact Or.inl rfl
      · obtain ⟨c, hc, hbc⟩ := exists_of_forall₂_left hts hb
        exact Or.inr ⟨c, (horder ts).mem_iff.2 hc, (ih hbc x).2 hx⟩

/-- `u` is `t`, or one of the trees below its top. -/
def Below (t u : RoseTree α) : Prop := Relation.ReflTransGen (fun x y => y ∈ x.children) t u

theorem Below.map {f : α → β} {t u : RoseTree α} (h : Below t u) : Below (t.map f) (u.map f) := by
  induction h with
  | refl => exact .refl
  | @tail x y _ hy ih =>
    refine ih.tail ?_
    cases x with
    | node a cs =>
      rw [map_node]
      exact List.mem_map_of_mem hy

/-- **In an unfolded tree hangs the tree of every label that its top reaches.** -/
theorem below_of_unfold (horder : ∀ l, (order l).Perm l) {n : Nat} : ∀ {a : α} {t : RoseTree α},
    unfold step order n a = some t → ∀ {x : α}, Relation.ReflTransGen (fun y z => z ∈ step y) a x →
      ∃ (m : Nat) (u : RoseTree α), Below t u ∧ unfold step order m x = some u := by
  induction n with
  | zero => intro a t h; cases h
  | succ n ih =>
    intro a t h x hx
    rcases hx.cases_head with rfl | ⟨b, hb, hx⟩
    · exact ⟨n + 1, t, .refl, h⟩
    · obtain ⟨ts, hts, rfl⟩ := unfold_succ_eq_some.1 h
      obtain ⟨c, hc, hbc⟩ := exists_of_forall₂_left hts hb
      obtain ⟨m, u, hu, hxu⟩ := ih hbc hx
      exact ⟨m, u, .head ((horder ts).mem_iff.2 hc) hu, hxu⟩

/-- **In an unfolded tree a label has as many children as steps.** -/
theorem degree_of_unfold (horder : ∀ l, (order l).Perm l) {n : Nat} : ∀ {a : α} {t : RoseTree α},
    unfold step order n a = some t → ∀ x ∈ t.degrees, x.2 = (step x.1).length := by
  induction n with
  | zero => intro a t h; cases h
  | succ n ih =>
    intro a t h x hx
    obtain ⟨ts, hts, rfl⟩ := unfold_succ_eq_some.1 h
    rw [degrees_node, List.mem_cons, List.mem_flatMap] at hx
    rcases hx with rfl | ⟨c, hc, hx⟩
    · exact (horder ts).length_eq.trans hts.length_eq.symm
    · obtain ⟨b, -, hbc⟩ := exists_of_forall₂_right hts ((horder ts).mem_iff.1 hc)
      exact ih hbc x hx

theorem level_of_unfold {n : Nat} {a : α} {t : RoseTree α} (h : unfold step order n a = some t) (d : Nat) :
    (a, d) ∈ t.levels d := by
  cases n with
  | zero => cases h
  | succ n =>
    obtain ⟨ts, -, rfl⟩ := unfold_succ_eq_some.1 h
    rw [levels_node]
    exact List.mem_cons_self

/-- **In an unfolded tree a step is one level deeper.** -/
theorem level_step_of_unfold (horder : ∀ l, (order l).Perm l) {n : Nat} : ∀ {a : α} {t : RoseTree α},
    unfold step order n a = some t → ∀ {d : Nat}, ∀ x ∈ t.levels d, ∀ c ∈ step x.1, (c, x.2 + 1) ∈ t.levels d := by
  induction n with
  | zero => intro a t h; cases h
  | succ n ih =>
    intro a t h d x hx c hc
    obtain ⟨ts, hts, rfl⟩ := unfold_succ_eq_some.1 h
    rw [levels_node, List.mem_cons, List.mem_flatMap] at hx ⊢
    rcases hx with rfl | ⟨u, hu, hx⟩
    · obtain ⟨u, hu, hcu⟩ := exists_of_forall₂_left hts hc
      exact Or.inr ⟨u, (horder ts).mem_iff.2 hu, level_of_unfold hcu (d + 1)⟩
    · obtain ⟨b, -, hbu⟩ := exists_of_forall₂_right hts ((horder ts).mem_iff.1 hu)
      exact Or.inr ⟨u, hu, ih hbu x hx c hc⟩

/-- **An unfolding that runs out of fuel has gone down a chain longer than it.** -/
theorem exists_chain_of_unfold_none {n : Nat} : ∀ {a : α}, unfold step order n a = none →
    ∃ l : List α, l.length = n ∧ List.IsChain (fun y z => z ∈ step y) (a :: l) := by
  induction n with
  | zero => intro a _; exact ⟨[], rfl, .singleton a⟩
  | succ n ih =>
    intro a h
    have hnone : ¬ ∀ c ∈ step a, (unfold step order n c).isSome := by
      intro hall
      obtain ⟨ts, hts⟩ := Option.isSome_iff_exists.1 (mapM_isSome hall)
      rw [unfold, hts] at h
      cases h
    push Not at hnone
    obtain ⟨c, hc, hn⟩ := hnone
    obtain ⟨l, hl, hchain⟩ := ih (Option.not_isSome_iff_eq_none.1 (by simpa using hn))
    exact ⟨c :: l, by rw [List.length_cons, hl], .cons_cons hc hchain⟩

end Unfold

/-! ## Below an element without predecessor -/

section Rooted
variable {R : α → α → Prop} (huniq : Relator.LeftUnique R)
include huniq

theorem reaches_total {a b x : α} (ha : Relation.ReflTransGen R a x) (hb : Relation.ReflTransGen R b x) :
    Relation.ReflTransGen R a b ∨ Relation.ReflTransGen R b a := by
  have h := Relation.ReflTransGen.total_of_right_unique huniq.flip (Relation.ReflTransGen.swap _ _ ha)
    (Relation.ReflTransGen.swap _ _ hb)
  exact h.symm.imp Relation.reflTransGen_swap.1 Relation.reflTransGen_swap.1

/-- **There is no cycle below an element without predecessor.** -/
theorem acyclic_of_root {r : α} (hroot : ∀ y, ¬ R y r) {a : α} (ha : Relation.ReflTransGen R r a) :
    ¬ Relation.TransGen R a a := by
  induction ha with
  | refl =>
    intro hcyc
    obtain ⟨y, -, hy⟩ := Relation.TransGen.tail'_iff.1 hcyc
    exact hroot y hy
  | tail _ hba ih =>
    intro hcyc
    obtain ⟨y, hay, hya⟩ := Relation.TransGen.tail'_iff.1 hcyc
    rw [huniq hya hba] at hay
    exact ih (.head' hba hay)

/-- **Two elements without predecessor reach no element in common.** -/
theorem root_unique {r r' x : α} (hroot : ∀ y, ¬ R y r) (hroot' : ∀ y, ¬ R y r') (h : Relation.ReflTransGen R r x)
    (h' : Relation.ReflTransGen R r' x) : r = r' := by
  have hself : ∀ {r r' : α}, (∀ y, ¬ R y r') → Relation.ReflTransGen R r r' → r = r' := fun hroot' h => by
    rcases h.cases_tail with h | ⟨y, -, hy⟩
    · exact h.symm
    · exact absurd hy (hroot' y)
  rcases reaches_total huniq h h' with hrr' | hrr'
  · exact hself hroot' hrr'
  · exact (hself hroot hrr').symm

theorem nodup_of_isChain {r : α} (hroot : ∀ y, ¬ R y r) {l : List α} (hl : List.IsChain R l)
    (hreach : ∀ x ∈ l, Relation.ReflTransGen R r x) : l.Nodup := by
  have hp : l.Pairwise (Relation.TransGen R) := List.isChain_iff_pairwise.1 (hl.imp (fun _ _ => .single))
  refine hp.imp_of_mem (fun {a b} ha _ hab => ?_)
  rintro rfl
  exact acyclic_of_root huniq hroot (hreach a ha) hab

end Rooted

/-- **Without cycles, every element descends from one without predecessor**, if the elements with successors are among
finitely many. -/
theorem exists_root_of_acyclic {R : α → α → Prop} {nodes : List α} (hmem : ∀ y z, R y z → y ∈ nodes)
    (hacyclic : ∀ x, ¬ Relation.TransGen R x x) (x : α) :
    ∃ r, (∀ y, ¬ R y r) ∧ Relation.ReflTransGen R r x := by
  have hstrict : IsStrictOrder α (Relation.TransGen R) :=
    { irrefl := hacyclic, trans := fun _ _ _ => Relation.TransGen.trans }
  have hwf : {y | y ∈ nodes}.WellFoundedOn (Relation.TransGen R) := (List.finite_toSet nodes).wellFoundedOn
  have hnode : ∀ y ∈ nodes, ∃ r, (∀ z, ¬ R z r) ∧ Relation.ReflTransGen R r y := fun y hy => by
    refine hwf.induction hy (P := fun y => ∃ r, (∀ z, ¬ R z r) ∧ Relation.ReflTransGen R r y) (fun y _ ih => ?_)
    by_cases hpre : ∃ z, R z y
    · obtain ⟨z, hz⟩ := hpre
      obtain ⟨r, hr, hrz⟩ := ih z (hmem z y hz) (.single hz)
      exact ⟨r, hr, hrz.tail hz⟩
    · exact ⟨y, not_exists.1 hpre, .refl⟩
  by_cases hpre : ∃ y, R y x
  · obtain ⟨y, hy⟩ := hpre
    obtain ⟨r, hr, hry⟩ := hnode y (hmem y x hy)
    exact ⟨r, hr, hry.tail hy⟩
  · exact ⟨x, not_exists.1 hpre, .refl⟩

section Finite
variable {step : α → List α} {order : List (RoseTree α) → List (RoseTree α)} {nodes : List α}

def Step (nodes : List α) (step : α → List α) (y z : α) : Prop := y ∈ nodes ∧ z ∈ step y

theorem reaches_iff_step (hstep : ∀ y z, z ∈ step y → z ∈ nodes) {a x : α} (ha : a ∈ nodes) :
    Relation.ReflTransGen (fun y z => z ∈ step y) a x ↔ Relation.ReflTransGen (Step nodes step) a x := by
  constructor
  · intro h
    induction h using Relation.ReflTransGen.head_induction_on with
    | refl => exact .refl
    | head hab _ ih => exact .head ⟨ha, hab⟩ (ih (hstep _ _ hab))
  · exact Relation.ReflTransGen.mono (fun _ _ (h : Step nodes step _ _) => h.2) a x

theorem reaches_mem (hstep : ∀ y z, z ∈ step y → z ∈ nodes) {a x : α} (ha : a ∈ nodes)
    (h : Relation.ReflTransGen (Step nodes step) a x) : x ∈ nodes := by
  cases h with
  | refl => exact ha
  | tail _ h => exact hstep _ _ h.2

theorem isChain_step (hstep : ∀ y z, z ∈ step y → z ∈ nodes) {a : α} (ha : a ∈ nodes) {l : List α}
    (h : List.IsChain (fun y z => z ∈ step y) (a :: l)) : List.IsChain (Step nodes step) (a :: l) := by
  induction l generalizing a with
  | nil => exact .singleton a
  | cons b l ih =>
    rw [List.isChain_cons_cons] at h
    exact .cons_cons ⟨ha, h.1⟩ (ih (hstep _ _ h.1) h.2)

theorem reaches_of_isChain {R : α → α → Prop} {a : α} {l : List α} (h : List.IsChain R (a :: l)) :
    ∀ x ∈ a :: l, Relation.ReflTransGen R a x := by
  induction l generalizing a with
  | nil =>
    intro x hx
    rw [List.mem_singleton.1 hx]
  | cons b l ih =>
    intro x hx
    rcases List.mem_cons.1 hx with rfl | hx
    · exact .refl
    · rw [List.isChain_cons_cons] at h
      exact .head h.1 (ih h.2 x hx)

variable (huniq : Relator.LeftUnique (Step nodes step)) (hstep : ∀ y z, z ∈ step y → z ∈ nodes)
include huniq hstep

/-- **Below a root, as much fuel as there are elements is enough.** -/
theorem unfold_isSome {r : α} (hr : r ∈ nodes) (hroot : ∀ y, ¬ Step nodes step y r) :
    (unfold step order nodes.length r).isSome := by
  by_contra hnone
  rw [Option.not_isSome_iff_eq_none] at hnone
  obtain ⟨l, hl, hchain⟩ := exists_chain_of_unfold_none hnone
  have hchain := isChain_step hstep hr hchain
  have hreach := reaches_of_isChain hchain
  have hnd : (r :: l).Nodup := nodup_of_isChain huniq hroot hchain hreach
  have hle := (List.subperm_of_subset hnd (fun x hx => reaches_mem hstep hr (hreach x hx))).length_le
  rw [List.length_cons, hl] at hle
  omega

/-- **Below a root, no element is listed twice.** -/
theorem nodup_labels_unfold (horder : ∀ l, (order l).Perm l) (hnd : ∀ x, (step x).Nodup) {r : α} (hr : r ∈ nodes)
    (hroot : ∀ y, ¬ Step nodes step y r) {n : Nat} : ∀ {a : α} {t : RoseTree α},
    Relation.ReflTransGen (Step nodes step) r a → unfold step order n a = some t → t.labels.Nodup := by
  induction n with
  | zero => intro a t _ h; cases h
  | succ n ih =>
    intro a t ha h
    have hacyc := acyclic_of_root huniq hroot ha
    have hmem := reaches_mem hstep hr ha
    obtain ⟨ts, hts, rfl⟩ := unfold_succ_eq_some.1 h
    have hlabels : ∀ {b t}, b ∈ step a → unfold step order n b = some t → ∀ {x}, x ∈ t.labels →
        Relation.ReflTransGen (Step nodes step) b x := fun hb hbt _ hx =>
      (reaches_iff_step hstep (hstep _ _ hb)).1 ((mem_labels_unfold horder hbt _).1 hx)
    rw [labels_node, List.nodup_cons]
    refine ⟨?_, ?_⟩
    · -- the label is not below its own children, or there were a cycle
      rw [List.mem_flatMap]
      rintro ⟨c, hc, hac⟩
      obtain ⟨b, hb, hbc⟩ := exists_of_forall₂_right hts ((horder ts).mem_iff.1 hc)
      exact hacyc (.head' ⟨hmem, hb⟩ (hlabels hb hbc hac))
    · rw [((horder ts).flatMap_right _).nodup_iff, List.nodup_flatMap]
      refine ⟨fun t ht => ?_, ?_⟩
      · obtain ⟨b, hb, hbt⟩ := exists_of_forall₂_right hts ht
        exact ih (ha.tail ⟨hmem, hb⟩) hbt
      · -- siblings that reach one element are on one path to it, and the path would come back to their parent
        refine pairwise_of_forall₂ hts (hnd a) (fun {b c t u} hb hc hbt hcu hne => ?_)
        have hpath : ∀ {b c}, b ∈ step a → c ∈ step a → b ≠ c → ¬ Relation.ReflTransGen (Step nodes step) b c := by
          intro b c hb hc hne hreach
          rcases hreach.cases_tail with h | ⟨y, hby, hyc⟩
          · exact hne h.symm
          · rw [huniq hyc ⟨hmem, hc⟩] at hby
            exact hacyc (.head' ⟨hmem, hb⟩ hby)
        intro x hx hy
        rcases reaches_total huniq (hlabels hb hbt hx) (hlabels hc hcu hy) with hbc | hcb
        · exact hpath hb hc hne hbc
        · exact hpath hc hb (Ne.symm hne) hcb

end Finite

end RoseTree
