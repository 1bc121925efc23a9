import Mathlib.Algebra.Order.Ring.Int
import Mathlib.Data.Finset.Card
import Mathlib.Data.Finset.Image
import Mathlib.Data.Int.Order.Basic
/-!
# Sweep — the length of a union of intervals

Intervals between whole numbers, taken by their starts.  A sweep from the left goes over those that reach further than all
before; what their lengths add up to is the length of the union, and the overlap of each with the one before it
(`lengths_eq`).  The overlap is nothing if each interval lies within one before it or starts where all before it have
ended (`overlaps_eq_zero_iff`).
-/
namespace Sweep

variable {ι : Type} (lo hi : ι → ℤ)

/-- The unit cells from a start up to an end. -/
def cells (a b : ℤ) : Finset ℤ := (Finset.range (b - a).toNat).image fun n : ℕ => a + n

/-- The unit cells that the intervals cover. -/
def covered (l : List ι) : Finset ℤ := l.foldr (fun t before => cells (lo t) (hi t) ∪ before) ∅

/-- The length of the union of the intervals. -/
def unionLength (l : List ι) : ℤ := (covered lo hi l).card

/-- The lengths of those that reach beyond `reached`, each beyond all before it. -/
def lengths : ℤ → List ι → ℤ
  | _, [] => 0
  | reached, t :: l => if hi t ≤ reached then lengths reached l else hi t - lo t + lengths (hi t) l

/-- What these overlap with what was reached before. -/
def overlaps : ℤ → List ι → ℤ
  | _, [] => 0
  | reached, t :: l => if hi t ≤ reached then overlaps reached l else max 0 (reached - lo t) + overlaps (hi t) l

/-- The interval lies within what is before it, or apart from it. -/
def NestedOrApart (before : List ι) (t : ι) : Prop :=
  (∃ s ∈ before, hi t ≤ hi s) ∨ ∀ s ∈ before, hi s ≤ lo t

theorem mem_cells {a b x : ℤ} : x ∈ cells a b ↔ a ≤ x ∧ x < b := by
  rw [cells, Finset.mem_image]
  constructor
  · rintro ⟨n, hn, rfl⟩
    rw [Finset.mem_range] at hn
    omega
  · rintro ⟨ha, hb⟩
    exact ⟨(x - a).toNat, Finset.mem_range.2 (by omega), by omega⟩

theorem card_cells {a b : ℤ} (h : a ≤ b) : ((cells a b).card : ℤ) = b - a := by
  have hinj : Function.Injective fun n : ℕ => a + (n : ℤ) := fun m n hmn => Int.ofNat_inj.1 (Int.add_left_cancel hmn)
  rw [cells, Finset.card_image_of_injective _ hinj, Finset.card_range, Int.toNat_of_nonneg (sub_nonneg.2 h)]

theorem mem_covered {l : List ι} {x : ℤ} : x ∈ covered lo hi l ↔ ∃ t ∈ l, lo t ≤ x ∧ x < hi t := by
  induction l with
  | nil => simp [covered]
  | cons t l ih =>
    rw [covered, List.foldr_cons, Finset.mem_union, mem_cells]
    change _ ∨ x ∈ covered lo hi l ↔ _
    rw [ih, List.exists_mem_cons_iff]

theorem covered_congr {l l' : List ι} (h : ∀ t, t ∈ l ↔ t ∈ l') : covered lo hi l = covered lo hi l' := by
  ext x
  rw [mem_covered, mem_covered]
  simp only [h]

/-- The cells from `reached` on. -/
def beyond (reached : ℤ) (l : List ι) : Finset ℤ := (covered lo hi l).filter (reached ≤ ·)

theorem mem_beyond {reached : ℤ} {l : List ι} {x : ℤ} :
    x ∈ beyond lo hi reached l ↔ (∃ t ∈ l, lo t ≤ x ∧ x < hi t) ∧ reached ≤ x := by
  rw [beyond, Finset.mem_filter, mem_covered]

theorem beyond_cons_of_le {reached : ℤ} {t : ι} {l : List ι} (h : hi t ≤ reached) :
    beyond lo hi reached (t :: l) = beyond lo hi reached l := by
  ext x
  rw [mem_beyond, mem_beyond, List.exists_mem_cons_iff]
  constructor
  · rintro ⟨⟨-, hx⟩ | hx, hreached⟩
    · omega
    · exact ⟨hx, hreached⟩
  · rintro ⟨hx, hreached⟩
    exact ⟨.inr hx, hreached⟩

/-- **One step of the sweep**: what the first interval covers beyond `reached`, and what the others cover beyond its end. -/
theorem card_beyond_cons {reached : ℤ} {t : ι} {l : List ι} (hfirst : ∀ s ∈ l, lo t ≤ lo s) (hlo : lo t ≤ hi t)
    (h : reached < hi t) :
    ((beyond lo hi reached (t :: l)).card : ℤ) = hi t - max (lo t) reached + (beyond lo hi (hi t) l).card := by
  have hsplit : beyond lo hi reached (t :: l) = cells (max (lo t) reached) (hi t) ∪ beyond lo hi (hi t) l := by
    ext x
    rw [Finset.mem_union, mem_cells, mem_beyond, mem_beyond, List.exists_mem_cons_iff, max_le_iff]
    constructor
    · rintro ⟨⟨hlo, hhi⟩ | ⟨s, hs, hlo, hhi⟩, hreached⟩
      · exact .inl ⟨⟨hlo, hreached⟩, hhi⟩
      · -- a cell of a later interval before the end of the first one is in the first one
        rcases lt_or_ge x (hi t) with hlt | hge
        · exact .inl ⟨⟨(hfirst s hs).trans hlo, hreached⟩, hlt⟩
        · exact .inr ⟨⟨s, hs, hlo, hhi⟩, hge⟩
    · rintro (⟨⟨hlo, hreached⟩, hhi⟩ | ⟨hx, hreached⟩)
      · exact ⟨.inl ⟨hlo, hhi⟩, hreached⟩
      · exact ⟨.inr hx, by omega⟩
  have hdisjoint : Disjoint (cells (max (lo t) reached) (hi t)) (beyond lo hi (hi t) l) := by
    refine Finset.disjoint_left.2 fun x hx hx' => ?_
    have hlt := (mem_cells.1 hx).2
    have hge := ((mem_beyond lo hi).1 hx').2
    omega
  rw [hsplit, Finset.card_union_of_disjoint hdisjoint, Nat.cast_add, card_cells (by omega)]

/-- **The lengths add up to the union and the overlaps.** -/
theorem lengths_eq {l : List ι} (hsorted : l.Pairwise (fun s t => lo s ≤ lo t)) (hlo : ∀ t ∈ l, lo t ≤ hi t) :
    ∀ reached, lengths lo hi reached l = (beyond lo hi reached l).card + overlaps lo hi reached l := by
  induction l with
  | nil => exact fun reached => rfl
  | cons t l ih =>
    obtain ⟨hfirst, hsorted⟩ := List.pairwise_cons.1 hsorted
    obtain ⟨ht, hlo⟩ := List.forall_mem_cons.1 hlo
    have ih := ih hsorted hlo
    intro reached
    rw [lengths, overlaps]
    split
    · rename_i hle
      rw [beyond_cons_of_le lo hi hle]
      exact ih reached
    · rename_i hgt
      rw [ih, card_beyond_cons lo hi hfirst ht (not_le.1 hgt)]
      rcases le_total (lo t) reached with h | h
      · rw [max_eq_right h, max_eq_right (sub_nonneg.2 h)]
        omega
      · rw [max_eq_left h, max_eq_left (sub_nonpos.2 h)]
        omega

/-! ## Where nothing overlaps -/

theorem overlaps_nonneg : ∀ (l : List ι) (reached : ℤ), 0 ≤ overlaps lo hi reached l
  | [], _ => le_refl 0
  | t :: l, reached => by
    rw [overlaps]
    split
    · exact overlaps_nonneg l reached
    · exact add_nonneg (le_max_left _ _) (overlaps_nonneg l _)

/-- `NestedOrApart` of what was reached and of the intervals since. -/
def Fits (reached : ℤ) (before : List ι) (t : ι) : Prop :=
  (hi t ≤ reached ∨ ∃ s ∈ before, hi t ≤ hi s) ∨ (reached ≤ lo t ∧ ∀ s ∈ before, hi s ≤ lo t)

theorem fits_cons {reached : ℤ} {s : ι} {before : List ι} {t : ι} :
    Fits lo hi reached (s :: before) t ↔ Fits lo hi (max reached (hi s)) before t := by
  rw [Fits, Fits, List.exists_mem_cons_iff, List.forall_mem_cons, le_max_iff, max_le_iff, ← or_assoc, and_assoc]

theorem forall_split_cons {P : List ι → ι → Prop} {t : ι} {l : List ι} :
    (∀ before u after, t :: l = before ++ u :: after → P before u) ↔
      P [] t ∧ ∀ before u after, l = before ++ u :: after → P (t :: before) u := by
  constructor
  · exact fun h => ⟨h [] t l rfl, fun before u after hl => h (t :: before) u after (by rw [hl]; rfl)⟩
  · rintro ⟨hhead, htail⟩ before u after hl
    cases before with
    | nil =>
      rw [← (List.cons.inj hl).1]
      exact hhead
    | cons s before =>
      rw [← (List.cons.inj hl).1]
      exact htail before u after (List.cons.inj hl).2

/-- From what was reached on, nothing overlaps if each interval fits. -/
theorem overlaps_eq_zero_iff_fits (l : List ι) : ∀ reached, overlaps lo hi reached l = 0 ↔
    ∀ before t after, l = before ++ t :: after → Fits lo hi reached before t := by
  induction l with
  | nil => exact fun reached => iff_of_true rfl fun before t after hl => absurd hl (by simp)
  | cons t l ih =>
    intro reached
    have hrest := ih (max reached (hi t))
    rw [forall_split_cons]
    simp only [fits_cons]
    rw [← hrest, overlaps]
    split
    · rename_i hle
      rw [max_eq_left hle]
      exact (and_iff_right (.inl (.inl hle))).symm
    · rename_i hgt
      have hgt := not_le.1 hgt
      have hfirst : Fits lo hi reached [] t ↔ reached ≤ lo t := by
        simp [Fits, not_le.2 hgt]
      have hnonneg := overlaps_nonneg lo hi l (hi t)
      rw [max_eq_right hgt.le, hfirst]
      constructor
      · intro h
        have hmax := le_max_left 0 (reached - lo t)
        have hle := le_max_right 0 (reached - lo t)
        exact ⟨by omega, by omega⟩
      · rintro ⟨hle, hzero⟩
        rw [hzero, max_eq_left (sub_nonpos.2 hle), add_zero]

/-- **Nothing overlaps** if each interval lies within one before it, or starts where all before it have ended. -/
theorem overlaps_eq_zero_iff {l : List ι} {reached : ℤ} (hreached : ∀ t ∈ l, reached ≤ lo t ∧ reached < hi t) :
    overlaps lo hi reached l = 0 ↔ ∀ before t after, l = before ++ t :: after → NestedOrApart lo hi before t := by
  rw [overlaps_eq_zero_iff_fits]
  refine forall₄_congr fun before t after hl => ?_
  have ht := hreached t (hl ▸ List.mem_append_right _ List.mem_cons_self)
  rw [NestedOrApart, Fits, or_iff_right (not_le.2 ht.2), and_iff_right ht.1]

theorem lengths_filter (l : List ι) : ∀ {reached k : ℤ}, k ≤ reached →
    lengths lo hi reached (l.filter (fun t => decide (k < hi t))) = lengths lo hi reached l := by
  induction l with
  | nil => exact fun _ => rfl
  | cons t l ih =>
    intro reached k hk
    rw [List.filter_cons]
    by_cases ht : k < hi t
    · rw [if_pos (decide_eq_true ht), lengths, lengths]
      split
      · exact ih hk
      · rename_i hgt
        rw [ih (hk.trans (not_le.1 hgt).le)]
    · rw [if_neg (by simpa using ht), lengths, if_pos ((not_lt.1 ht).trans hk)]
      exact ih hk

theorem unionLength_eq_beyond {l : List ι} {reached : ℤ} (h : ∀ t ∈ l, reached ≤ lo t) :
    unionLength lo hi l = (beyond lo hi reached l).card := by
  have hall : beyond lo hi reached l = covered lo hi l := by
    ext x
    rw [mem_beyond, mem_covered]
    refine and_iff_left_of_imp ?_
    rintro ⟨t, ht, hlo, -⟩
    exact (h t ht).trans hlo
  rw [unionLength, hall]

theorem unionLength_le {l : List ι} {a b : ℤ} (hab : a ≤ b) (h : ∀ t ∈ l, a ≤ lo t ∧ hi t ≤ b) :
    unionLength lo hi l ≤ b - a := by
  have hsub : covered lo hi l ⊆ cells a b := fun x hx => by
    obtain ⟨t, ht, hlo, hhi⟩ := (mem_covered lo hi).1 hx
    exact mem_cells.2 ⟨(h t ht).1.trans hlo, hhi.trans_le (h t ht).2⟩
  have hcard : ((covered lo hi l).card : ℤ) ≤ (cells a b).card := by exact_mod_cast Finset.card_le_card hsub
  rwa [card_cells hab] at hcard

end Sweep
