import Mathlib.Algebra.BigOperators.Group.List.Basic
/-!
# SumTree — sums in some order and grouping

A tree says in which order and grouping its elements are added up.  An operation that is addition in a commutative monoid, as
far as an image of its operands shows, gives sums with one image for all trees with the same elements (`image_eq_of_perm`).
-/

inductive SumTree (α : Type*) where
  | zero
  | one (a : α)
  | add (l r : SumTree α)

namespace SumTree

variable {α M : Type*}

def elements : SumTree α → List α
  | zero => []
  | one a => [a]
  | add l r => l.elements ++ r.elements

def eval (z : α) (plus : α → α → α) : SumTree α → α
  | zero => z
  | one a => a
  | add l r => plus (l.eval z plus) (r.eval z plus)

section IsSum
variable [AddCommMonoid M] {P : α → Prop} {image : α → M} {z : α} {plus plus' : α → α → α}

/-- On what has `P`, the image of a sum is the sum of the images. -/
structure IsSum (P : α → Prop) (image : α → M) (z : α) (plus : α → α → α) : Prop where
  prop_zero : P z
  prop_add : ∀ {a b}, P a → P b → P (plus a b)
  image_zero : image z = 0
  image_add : ∀ {a b}, P a → P b → image (plus a b) = image a + image b

theorem IsSum.prop_eval (h : IsSum P image z plus) : ∀ {t : SumTree α}, (∀ a ∈ t.elements, P a) → P (t.eval z plus)
  | zero, _ => h.prop_zero
  | one a, ht => ht a List.mem_cons_self
  | add _ _, ht => h.prop_add (h.prop_eval (fun a ha => ht a (List.mem_append_left _ ha)))
      (h.prop_eval (fun a ha => ht a (List.mem_append_right _ ha)))

/-- **The image of a sum is the sum of the elements' images.** -/
theorem IsSum.image_eval (h : IsSum P image z plus) : ∀ {t : SumTree α}, (∀ a ∈ t.elements, P a) →
    image (t.eval z plus) = (t.elements.map image).sum
  | zero, _ => h.image_zero
  | one a, _ => by rw [elements, List.map_singleton, List.sum_singleton]; rfl
  | add l r, ht => by
    have hl : ∀ a ∈ l.elements, P a := fun a ha => ht a (List.mem_append_left _ ha)
    have hr : ∀ a ∈ r.elements, P a := fun a ha => ht a (List.mem_append_right _ ha)
    rw [eval, h.image_add (h.prop_eval hl) (h.prop_eval hr), h.image_eval hl, h.image_eval hr, elements, List.map_append,
      List.sum_append]

/-- **Any order and grouping** of the same elements. -/
theorem IsSum.image_eq_of_perm (h : IsSum P image z plus) (h' : IsSum P image z plus') {t t' : SumTree α}
    (ht : ∀ a ∈ t.elements, P a) (hperm : t.elements.Perm t'.elements) :
    image (t.eval z plus) = image (t'.eval z plus') := by
  rw [h.image_eval ht, h'.image_eval (fun a ha => ht a (hperm.mem_iff.2 ha)), (hperm.map image).sum_eq]

end IsSum
end SumTree
