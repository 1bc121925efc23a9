import Mathlib.Data.List.Dedup
import Mathlib.Data.List.Perm.Subperm
import Mathlib.Order.Bounds.Basic
/-!
# Groups — rows by the value of a column, and as many as a limit allows

The rows of a result come in an order that is nobody's choice, so that a limit takes any of them.  What holds of all is how
many there are, and that no group is there twice.
-/
namespace Groups

variable {ρ ν : Type*} [DecidableEq ν]

/-- `GROUP BY column` -/
def groupBy (column : ρ → ν) (rows : List ρ) : List (ν × List ρ) :=
  (rows.map column).dedup.map fun v => (v, rows.filter fun r => decide (column r = v))

/-- `INNER JOIN t2 ON column = t2.column`, as the rows of the first table. -/
def innerJoin (column : ρ → ν) (rows : List ρ) (t2 : List ν) : List ρ :=
  rows.flatMap fun r => (t2.filter fun v => decide (column r = v)).map fun _ => r

variable {column : ρ → ν} {rows : List ρ} {g : ν × List ρ}

theorem map_fst_groupBy (column : ρ → ν) (rows : List ρ) : (groupBy column rows).map Prod.fst = (rows.map column).dedup := by
  rw [groupBy, List.map_map]
  exact List.map_id _

theorem of_mem_groupBy (h : g ∈ groupBy column rows) : g.2 ≠ [] ∧ ∀ r, r ∈ g.2 ↔ r ∈ rows ∧ column r = g.1 := by
  obtain ⟨v, hv, rfl⟩ := List.mem_map.1 h
  obtain ⟨r, hr, rfl⟩ := List.mem_map.1 (List.mem_dedup.1 hv)
  have hmem : ∀ r', r' ∈ rows.filter (fun r' => decide (column r' = column r)) ↔ r' ∈ rows ∧ column r' = column r :=
    fun r' => by rw [List.mem_filter, decide_eq_true_iff]
  exact ⟨List.ne_nil_of_mem ((hmem r).2 ⟨hr, rfl⟩), hmem⟩

theorem mem_innerJoin {t2 : List ν} {r : ρ} : r ∈ innerJoin column rows t2 ↔ r ∈ rows ∧ column r ∈ t2 := by
  simp only [innerJoin, List.mem_flatMap, List.mem_map, List.mem_filter, decide_eq_true_iff]
  constructor
  · rintro ⟨r', hr', v, ⟨hv, rfl⟩, rfl⟩
    exact ⟨hr', hv⟩
  · rintro ⟨hr, hv⟩
    exact ⟨r, hr, _, ⟨hv, rfl⟩, rfl⟩

/-- **As many as there are, up to the limit**, and none twice. -/
theorem nodup_length_take {l : List ν} {all : List ν} (hperm : l.Perm all.dedup) (limit : Nat) :
    (l.take limit).Nodup ∧ (l.take limit).length = min limit all.dedup.length := by
  refine ⟨(hperm.nodup_iff.2 (List.nodup_dedup all)).sublist (List.take_sublist _ _), ?_⟩
  rw [List.length_take, hperm.length_eq]

/-- The groups of the rows that are joined to distinct values, each of which is one of a row. -/
theorem dedup_innerJoin_perm {t2 : List ν} (hnodup : t2.Nodup) (hrows : ∀ v ∈ t2, ∃ r ∈ rows, column r = v) :
    ((innerJoin column rows t2).map column).dedup.Perm t2 := by
  refine (List.perm_ext_iff_of_nodup (List.nodup_dedup _) hnodup).2 fun v => ?_
  rw [List.mem_dedup, List.mem_map]
  constructor
  · rintro ⟨r, hr, rfl⟩
    exact (mem_innerJoin.1 hr).2
  · intro hv
    obtain ⟨r, hr, rfl⟩ := hrows v hv
    exact ⟨r, mem_innerJoin.2 ⟨hr, hv⟩, rfl⟩

/-- `MAX(value)` of a group. -/
theorem isGreatest_max? (value : ρ → Int) {l : List ρ} (hl : l ≠ []) :
    ∃ m, (l.map value).max? = some m ∧ IsGreatest {n | ∃ r ∈ l, value r = n} m := by
  cases hmax : (l.map value).max? with
  | none => exact absurd (List.map_eq_nil_iff.1 (List.max?_eq_none_iff.1 hmax)) hl
  | some m =>
    obtain ⟨hmem, hle⟩ := List.max?_eq_some_iff.1 hmax
    obtain ⟨r, hr, rfl⟩ := List.mem_map.1 hmem
    refine ⟨_, rfl, ⟨r, hr, rfl⟩, ?_⟩
    rintro _ ⟨r', hr', rfl⟩
    exact hle _ (List.mem_map_of_mem hr')

end Groups
