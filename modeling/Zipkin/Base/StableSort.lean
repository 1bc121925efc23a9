import Mathlib.Data.List.Sort
import Mathlib.Data.List.Perm.Basic
/-!
# StableSort — sorting a list by a comparator

`sorted cmp` is the stable sort of a three-way comparator, written as an insertion sort so that it runs in the kernel.
Two elements the comparator calls equal keep their order.  When the comparator tells apart all unequal elements, the
result depends on the elements only (`sorted_eq_of_perm`).
-/
namespace StableSort

variable {α : Type*} (cmp : α → α → Ordering)

/-- `a` may stand before `b`. -/
def le (a b : α) : Prop := (cmp a b).isLE = true

instance : DecidableRel (le cmp) := fun a b => inferInstanceAs (Decidable ((cmp a b).isLE = true))

def sorted (l : List α) : List α := l.insertionSort (le cmp)

theorem sorted_perm (l : List α) : (sorted cmp l).Perm l := List.perm_insertionSort (le cmp) l

theorem sorted_eq_self {l : List α} (h : l.Pairwise (le cmp)) : sorted cmp l = l := h.insertionSort_eq

theorem sorted_cons (a : α) (l : List α) : sorted cmp (a :: l) = (sorted cmp l).orderedInsert (le cmp) a := rfl

theorem orderedInsert_of_forall {a : α} {l : List α} (h : ∀ b ∈ l, le cmp a b) : l.orderedInsert (le cmp) a = a :: l := by
  cases l with
  | nil => rfl
  | cons b l => exact List.orderedInsert_cons_of_le _ _ (h b List.mem_cons_self)

theorem head?_sorted_cons (a : α) (l : List α) : (sorted cmp (a :: l)).head? = match (sorted cmp l).head? with
    | none => some a
    | some b => if le cmp a b then some a else some b := by
  rw [sorted_cons]
  cases sorted cmp l with
  | nil => rfl
  | cons b m =>
    by_cases hab : le cmp a b
    · rw [List.orderedInsert_cons_of_le _ _ hab]
      exact (if_pos hab).symm
    · rw [List.orderedInsert_of_not_le _ _ hab]
      exact (if_neg hab).symm

section Trans
variable [Std.TransCmp cmp]

instance : Std.Total (le cmp) :=
  ⟨fun a b => by
    rcases h : (cmp a b).isLE with _ | _
    · exact Or.inr (Std.OrientedCmp.isLE_of_isGE (by cases hc : cmp a b <;> simp_all))
    · exact Or.inl h⟩

instance : IsTrans α (le cmp) := ⟨fun _ _ _ hab hbc => Std.TransCmp.isLE_trans hab hbc⟩

theorem pairwise_sorted (l : List α) : (sorted cmp l).Pairwise (le cmp) := List.pairwise_insertionSort (le cmp) l

/-- **A comparator that tells all elements apart sorts a list by its elements alone.** -/
theorem sorted_eq_of_perm [Std.LawfulEqCmp cmp] {l₁ l₂ : List α} (h : l₁.Perm l₂) : sorted cmp l₁ = sorted cmp l₂ := by
  refine List.Perm.eq_of_pairwise ?_ (pairwise_sorted cmp l₁) (pairwise_sorted cmp l₂)
    ((sorted_perm cmp l₁).trans (h.trans (sorted_perm cmp l₂).symm))
  intro a b _ _ hab hba
  exact Std.LawfulEqCmp.eq_of_compare (Std.OrientedCmp.isLE_antisymm hab hba)

theorem le_of_find? {l : List α} {p : α → Bool} {a b : α} (hl : l.Pairwise (le cmp)) (ha : l.find? p = some a)
    (hb : b ∈ l) (hpb : p b = true) : le cmp a b := by
  obtain ⟨-, before, after, rfl, hbefore⟩ := List.find?_eq_some_iff_append.1 ha
  rcases List.mem_append.1 hb with hb | hb
  · have hnot := hbefore b hb
    rw [hpb] at hnot
    cases hnot
  · rcases List.mem_cons.1 hb with rfl | hb
    · exact (Std.Total.total (r := le cmp) b b).elim id id
    · exact List.rel_of_pairwise_cons (List.pairwise_append.1 hl).2.1 hb

theorem find?_eq_some_iff {l : List α} {p : α → Bool} {a : α} (hl : l.Pairwise (le cmp))
    (hanti : ∀ a ∈ l, ∀ b ∈ l, le cmp a b → le cmp b a → a = b) :
    l.find? p = some a ↔ a ∈ l ∧ p a = true ∧ ∀ b ∈ l, p b = true → le cmp a b := by
  constructor
  · exact fun h => ⟨List.mem_of_find?_eq_some h, List.find?_some h, fun b hb hpb => le_of_find? cmp hl h hb hpb⟩
  · rintro ⟨ha, hpa, hleast⟩
    obtain ⟨b, hb⟩ := Option.isSome_iff_exists.1 (List.find?_isSome.2 ⟨a, ha, hpa⟩)
    have hmem := List.mem_of_find?_eq_some hb
    rw [hb, hanti b hmem a ha (le_of_find? cmp hl hb ha hpa) (hleast b hmem (List.find?_some hb))]

theorem filter_orderedInsert (p : α → Bool) (a : α) {l : List α} (hl : l.Pairwise (le cmp)) :
    (l.orderedInsert (le cmp) a).filter p =
      if p a = true then (l.filter p).orderedInsert (le cmp) a else l.filter p := by
  induction l with
  | nil => by_cases ha : p a = true <;> simp [ha]
  | cons b l ih =>
    obtain ⟨hb, hl⟩ := List.pairwise_cons.1 hl
    by_cases hab : le cmp a b
    · have hall : ∀ c ∈ (b :: l).filter p, le cmp a c := fun c hc => by
        rcases List.mem_cons.1 (List.mem_of_mem_filter hc) with rfl | hc
        · exact hab
        · exact IsTrans.trans _ _ _ hab (hb c hc)
      rw [List.orderedInsert_cons_of_le _ _ hab, orderedInsert_of_forall cmp hall, List.filter_cons]
    · rw [List.orderedInsert_of_not_le _ _ hab, List.filter_cons, List.filter_cons, ih hl]
      by_cases hb : p b = true
      · rw [if_pos hb, if_pos hb]
        split
        · rw [List.orderedInsert_of_not_le _ _ hab]
        · rfl
      · rw [if_neg hb, if_neg hb]

/-- **A stable sort of some of the elements** leaves them in the order that they have among all. -/
theorem filter_sorted (p : α → Bool) (l : List α) : (sorted cmp l).filter p = sorted cmp (l.filter p) := by
  induction l with
  | nil => rfl
  | cons a l ih =>
    rw [sorted_cons, filter_orderedInsert cmp p a (pairwise_sorted cmp l), List.filter_cons, ih]
    split <;> rfl

end Trans

end StableSort
