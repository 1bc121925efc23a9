import Mathlib.Algebra.BigOperators.Group.Finset.Basic
import Mathlib.Algebra.BigOperators.Ring.Finset
import Mathlib.Logic.Function.Basic
import Mathlib.Tactic.Abel
/-!
# Visit — a table whose entries are visited one after the other

`each f keys` changes the entries of a table at the keys of a list, in the order of the list and as often as they occur
there.  A number that the change raises by `δ` is raised by `δ` for each occurrence (`each_add`).  A walk changes the entries
of its keys and those near to them and far from them, and `foldl_around_add` is what it adds to an entry.
-/

namespace Visit

variable {ι α β : Type*} [DecidableEq ι]

def entry (f : α → α) (table : ι → α) (key : ι) : ι → α := Function.update table key (f (table key))

def each (f : α → α) (keys : List ι) (table : ι → α) : ι → α := keys.foldl (entry f) table

variable {f : α → α} {keys : List ι} {table : ι → α}

@[simp] theorem entry_self (key : ι) : entry f table key key = f (table key) := Function.update_self ..

theorem entry_of_ne {key other : ι} (h : other ≠ key) : entry f table key other = table other := Function.update_of_ne h ..

theorem each_of_forall {g : α → β} (hg : ∀ a, g (f a) = g a) (other : ι) : g (each f keys table other) = g (table other) := by
  rw [each]
  induction keys generalizing table with
  | nil => rfl
  | cons key keys ih =>
    rw [List.foldl_cons, ih]
    rcases eq_or_ne other key with rfl | hne
    · rw [entry_self, hg]
    · rw [entry_of_ne hne]

section
variable {M : Type*} [AddCommMonoid M] {g : α → M} {δ : M}

theorem entry_add (hg : ∀ x, g (f x) = g x + δ) (key other : ι) :
    g (entry f table key other) = g (table other) + [key].count other • δ := by
  rcases eq_or_ne other key with rfl | hne
  · rw [entry_self, hg, List.count_singleton_self, one_nsmul]
  · rw [entry_of_ne hne, List.count_singleton, if_neg (fun h => hne (beq_iff_eq.1 h).symm), zero_nsmul, add_zero]

theorem count_cons_add (key other : ι) (keys : List ι) :
    (key :: keys).count other = [key].count other + keys.count other := by
  rw [← List.count_append, List.singleton_append]

theorem each_add (hg : ∀ x, g (f x) = g x + δ) (other : ι) :
    g (each f keys table other) = g (table other) + keys.count other • δ := by
  rw [each]
  induction keys generalizing table with
  | nil => rw [List.foldl_nil, List.count_nil, zero_nsmul, add_zero]
  | cons key keys ih => rw [List.foldl_cons, ih, entry_add hg, count_cons_add key other keys, add_nsmul, add_assoc]

end

/-! ## Walks -/

section
variable {M : Type*} [AddCommMonoid M] {own near far : α → α} {nearOf farOf : ι → List ι} {g : α → M} {a b c : M}

/-- An entry is changed, then those of the keys that are near to it and those of the keys that are far from it. -/
def around (own near far : α → α) (nearOf farOf : ι → List ι) (table : ι → α) (key : ι) : ι → α :=
  each far (farOf key) (each near (nearOf key) (entry own table key))

theorem around_add (ha : ∀ x, g (own x) = g x + a) (hb : ∀ x, g (near x) = g x + b) (hc : ∀ x, g (far x) = g x + c)
    (key other : ι) : g (around own near far nearOf farOf table key other) = g (table other) +
      ([key].count other • a + (nearOf key).count other • b + (farOf key).count other • c) := by
  rw [around, each_add hc, each_add hb, entry_add ha]
  simp only [add_assoc]

/-- **What a walk adds**: to the entries of its keys, and to those that are near to one of them or far from it. -/
theorem foldl_around_add (ha : ∀ x, g (own x) = g x + a) (hb : ∀ x, g (near x) = g x + b) (hc : ∀ x, g (far x) = g x + c)
    (other : ι) : g (keys.foldl (around own near far nearOf farOf) table other) = g (table other) +
      (keys.count other • a + (keys.flatMap nearOf).count other • b + (keys.flatMap farOf).count other • c) := by
  induction keys generalizing table with
  | nil => simp only [List.foldl_nil, List.flatMap_nil, List.count_nil, zero_nsmul, add_zero]
  | cons key keys ih =>
    rw [List.foldl_cons, ih, around_add ha hb hc, count_cons_add key other keys]
    simp only [List.flatMap_cons, List.count_append, add_nsmul]
    abel

end

theorem sum_count_mul {known : Finset ι} (h : ∀ key ∈ keys, key ∈ known) (visited : ι → List ι) (other : ι) :
    ∑ key ∈ known, ((visited key).count other : Int) * keys.count key = (keys.flatMap visited).count other := by
  induction keys with
  | nil => simp only [List.count_nil, Nat.cast_zero, mul_zero, Finset.sum_const_zero, List.flatMap_nil]
  | cons key keys ih =>
    have hkey : ∑ k ∈ known, ((visited k).count other : Int) * (if key == k then 1 else 0 : Nat) =
        (visited key).count other := by
      rw [Finset.sum_eq_single key]
      · rw [if_pos (beq_self_eq_true key), Nat.cast_one, mul_one]
      · intro k _ hne
        rw [if_neg (fun heq => hne (beq_iff_eq.1 heq).symm), Nat.cast_zero, mul_zero]
      · exact fun hnot => absurd (h key List.mem_cons_self) hnot
    simp only [List.count_cons, Nat.cast_add, mul_add, Finset.sum_add_distrib, List.flatMap_cons, List.count_append]
    rw [ih (fun k hk => h k (List.mem_cons_of_mem key hk)), hkey, add_comm]

end Visit
