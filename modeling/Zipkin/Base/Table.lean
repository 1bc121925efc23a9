import Mathlib.Data.List.Sort
import Zipkin.Base.AssocMap
/-!
# Table — partitions of rows with a clustering column

A row is stored under a partition key and an integer, and a row that is stored where one is replaces it
(`AssocMap.put`).  A query reads partitions up to a bound of the integer, the greatest first, and stops at a limit.
-/
namespace Table

variable {π ν : Type*}

/-- `WHERE part AND ts <= bound ORDER BY ts DESC LIMIT limit` -/
def select (part : π → Bool) (bound : Int) (limit : Nat) (table : List ((π × Int) × ν)) : List (Int × ν) :=
  (((table.filter (fun row => part row.1.1 && decide (row.1.2 ≤ bound))).insertionSort
    (fun a b => b.1.2 ≤ a.1.2)).take limit).map (fun row => (row.1.2, row.2))

/-- The map from each value of the rows to its latest timestamp, the latest first. -/
structure LatestFirst (rows : List (Int × ν)) (m : List (ν × Int)) : Prop where
  keys : (m.map Prod.fst).Nodup
  latest : ∀ v ts, (v, ts) ∈ m ↔ (ts, v) ∈ rows ∧ ∀ row ∈ rows, row.2 = v → row.1 ≤ ts
  descending : m.Pairwise (fun a b => b.2 ≤ a.2)

/-- No value has rows with two timestamps. -/
def OneTimestampEach (rows : List (Int × ν)) : Prop :=
  ∀ row ∈ rows, ∀ row' ∈ rows, row.2 = row'.2 → row.1 = row'.1

variable {part : π → Bool} {bound : Int} {limit : Nat} {table : List ((π × Int) × ν)}

theorem pairwise_select (part : π → Bool) (bound : Int) (limit : Nat) (table : List ((π × Int) × ν)) :
    (select part bound limit table).Pairwise (fun a b => b.1 ≤ a.1) := by
  rw [select, List.pairwise_map]
  have htotal : Std.Total (fun a b : (π × Int) × ν => b.1.2 ≤ a.1.2) := ⟨fun a b => Int.le_total b.1.2 a.1.2⟩
  have htrans : IsTrans ((π × Int) × ν) (fun a b => b.1.2 ≤ a.1.2) := ⟨fun _ _ _ hab hbc => Int.le_trans hbc hab⟩
  exact (List.pairwise_insertionSort (fun a b : (π × Int) × ν => b.1.2 ≤ a.1.2) _).sublist (List.take_sublist _ _)

theorem exists_row_of_mem_select {r : Int × ν} (h : r ∈ select part bound limit table) :
    ∃ p, part p = true ∧ r.1 ≤ bound ∧ ((p, r.1), r.2) ∈ table := by
  obtain ⟨row, hrow, rfl⟩ := List.mem_map.1 h
  have hmem := (List.mem_insertionSort _).1 (List.mem_of_mem_take hrow)
  obtain ⟨hmem, hp⟩ := List.mem_filter.1 hmem
  rw [Bool.and_eq_true, decide_eq_true_eq] at hp
  exact ⟨row.1.1, hp.1, hp.2, hmem⟩

theorem exists_mem_select {row : (π × Int) × ν} (hrow : row ∈ table) (hpart : part row.1.1 = true)
    (hbound : row.1.2 ≤ bound) (hlimit : 0 < limit) : ∃ r, r ∈ select part bound limit table := by
  have hmem : row ∈ (table.filter (fun row => part row.1.1 && decide (row.1.2 ≤ bound))).insertionSort
      (fun a b => b.1.2 ≤ a.1.2) :=
    (List.mem_insertionSort _).2 (List.mem_filter.2 ⟨hrow, by rw [hpart, decide_eq_true hbound]; rfl⟩)
  refine List.exists_mem_of_ne_nil _ (fun h => ?_)
  rcases List.take_eq_nil_iff.1 (List.map_eq_nil_iff.1 h) with h | h
  · omega
  · rw [h] at hmem
    exact List.not_mem_nil hmem

theorem mem_select_of_le {row : (π × Int) × ν} (hrow : row ∈ table) (hpart : part row.1.1 = true)
    (hbound : row.1.2 ≤ bound) (hlimit : (table.filter (fun row => part row.1.1)).length ≤ limit) :
    (row.1.2, row.2) ∈ select part bound limit table := by
  have hle : (table.filter (fun row => part row.1.1 && decide (row.1.2 ≤ bound))).length ≤ limit := by
    refine Nat.le_trans (List.Sublist.length_le (List.monotone_filter_right _ (fun row h => ?_))) hlimit
    rw [Bool.and_eq_true] at h
    exact h.1
  rw [select, List.take_of_length_le ((List.length_insertionSort _ _).trans_le hle)]
  exact List.mem_map.2 ⟨row, (List.mem_insertionSort _).2
    (List.mem_filter.2 ⟨hrow, by rw [hpart, decide_eq_true hbound]; rfl⟩), rfl⟩

end Table
