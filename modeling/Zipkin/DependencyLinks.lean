import Zipkin.AnormDependencyStore
import Zipkin.Base.PerKey
import Zipkin.CassandraDependencyStore
/-!
# DependencyLinks — links of several dependencies in one answer

`DependencyLink` says that links are unique for a parent and a child.  Neither store merges the links of the `Dependencies`
that a query selects, so an answer has this only if no two of them have links of the same services (`sumsPerPair_iff`).
-/
namespace Zipkin

open Effect

/-- One link at most for a parent and a child, with the sum of the calls over what was selected. -/
def SumsPerPair (result : Dependencies) (selected : List Dependencies) : Prop :=
  PerKey.Sums DependencyLink.pair DependencyLink.callCount result.links (selected.flatMap Dependencies.links)

def ShareNoPair (selected : List Dependencies) : Prop :=
  selected.Pairwise fun d e => ∀ dl ∈ d.links, ∀ dl' ∈ e.links, dl.pair ≠ dl'.pair

def LinksUnique (stored : List Dependencies) : Prop := ∀ d ∈ stored, (d.links.map DependencyLink.pair).Nodup

instance (selected : List Dependencies) : Decidable (ShareNoPair selected) :=
  inferInstanceAs (Decidable (selected.Pairwise fun d e => ∀ dl ∈ d.links, ∀ dl' ∈ e.links, dl.pair ≠ dl'.pair))

instance (stored : List Dependencies) : Decidable (LinksUnique stored) :=
  inferInstanceAs (Decidable (∀ d ∈ stored, (d.links.map DependencyLink.pair).Nodup))

variable {stored : List Dependencies}

theorem sumsPerPair_iff_of_perm {result : Dependencies} {selected : List Dependencies} (h : result.links.Perm (selected.flatMap Dependencies.links))
    (hunique : LinksUnique stored) (hsub : ∀ d ∈ selected, d ∈ stored) :
    SumsPerPair result selected ↔ ShareNoPair selected :=
  PerKey.sums_flatMap_iff h (fun d hd => hunique d (hsub d hd))

/-! ## SQL -/

namespace AnormDependencyStore

variable {ids : AutoIncrement} {order : RowOrder} {startTime endTime : Int}

/-- The interval in which the first query looks. -/
def startTs (now : Int) (startTime endTime : Option Int) : Int := startTime.getD (wrap64 (endTime.getD now - DAY))

/-- The positions from the first that is inside to the last. -/
def Selected (stored : List Dependencies) (startTime endTime : Int) (i : Nat) : Prop :=
  (∃ d ∈ stored.take (i + 1), Inside startTime endTime d) ∧ ∃ d ∈ stored.drop i, Inside startTime endTime d

instance (stored : List Dependencies) (startTime endTime : Int) (i : Nat) : Decidable (Selected stored startTime endTime i) :=
  inferInstanceAs (Decidable (_ ∧ _))

/-- What a query selects: what was stored from the first that is inside to the last. -/
def selected (stored : List Dependencies) (startTime endTime : Int) : List Dependencies :=
  (stored.zipIdx.filter fun (_, i) => decide (Selected stored startTime endTime i)).map Prod.fst

theorem mem_of_mem_selected {d : Dependencies} (h : d ∈ selected stored startTime endTime) : d ∈ stored := by
  obtain ⟨⟨_, i⟩, hmem, rfl⟩ := List.mem_map.1 h
  exact List.mem_of_getElem? (List.mem_zipIdx_iff_getElem?.1 (List.mem_of_mem_filter hmem))

theorem exists_mem_take {p : Dependencies → Prop} {j : Nat} (hj : j < stored.length) :
    (∃ d ∈ stored.take (j + 1), p d) ↔ ∃ i, i ≤ j ∧ ∃ d, stored[i]? = some d ∧ p d := by
  constructor
  · rintro ⟨d, hd, hp⟩
    obtain ⟨i, hi, rfl⟩ := List.mem_take_iff_getElem.1 hd
    exact ⟨i, by omega, _, List.getElem?_eq_getElem (by omega), hp⟩
  · rintro ⟨i, hi, d, hget, hp⟩
    obtain ⟨hlt, rfl⟩ := List.getElem?_eq_some_iff.1 hget
    exact ⟨_, List.mem_take_iff_getElem.2 ⟨i, by omega, rfl⟩, hp⟩

theorem exists_mem_drop {p : Dependencies → Prop} {j : Nat} :
    (∃ d ∈ stored.drop j, p d) ↔ ∃ k, j ≤ k ∧ ∃ d, stored[k]? = some d ∧ p d := by
  constructor
  · rintro ⟨d, hd, hp⟩
    obtain ⟨k, hk, rfl⟩ := List.mem_drop_iff_getElem.1 hd
    exact ⟨j + k, by omega, _, List.getElem?_eq_getElem (by omega), hp⟩
  · rintro ⟨k, hk, d, hget, hp⟩
    obtain ⟨hlt, rfl⟩ := List.getElem?_eq_some_iff.1 hget
    refine ⟨_, List.mem_drop_iff_getElem.2 ⟨k - j, by omega, rfl⟩, ?_⟩
    simpa only [Nat.add_sub_cancel' hk] using hp

/-- The ids of what is selected are those between the least and the greatest of the intervals inside. -/
theorem selected_iff {r : DependencyInterval} (h : RangeOf (insideEntries ids stored startTime endTime) r) {j : Nat}
    (hj : j < stored.length) :
    Selected stored startTime endTime j ↔ r.startId ≤ ids.dlid j ∧ ids.dlid j ≤ r.endId := by
  rw [Selected, exists_mem_take hj, exists_mem_drop]
  have hmem : ∀ {i d}, stored[i]? = some d → Inside startTime endTime d →
      (ids.dlid i, d) ∈ insideEntries ids stored startTime endTime :=
    fun hget hin => mem_insideEntries.2 ⟨_, hget, rfl, hin⟩
  constructor
  · rintro ⟨⟨i, hij, a, hi, ha⟩, k, hjk, b, hk, hb⟩
    exact ⟨Int.le_trans (h.within _ (hmem hi ha)).1 (ids.dlid_le hij),
      Int.le_trans (ids.dlid_le hjk) (h.within _ (hmem hk hb)).2⟩
  · rintro ⟨hstart, hend⟩
    obtain ⟨a, ha, haid⟩ := h.least
    obtain ⟨b, hb, hbid⟩ := h.greatest
    obtain ⟨i, hi, hid, hin⟩ := mem_insideEntries.1 ha
    obtain ⟨k, hk, hkd, hkin⟩ := mem_insideEntries.1 hb
    exact ⟨⟨i, ids.le_of_dlid_le (by omega), _, hi, hin⟩, k, ids.le_of_dlid_le (by omega), _, hk, hkin⟩

theorem selected_eq_nil (h : insideEntries ids stored startTime endTime = []) : selected stored startTime endTime = [] := by
  rw [selected, List.map_eq_nil_iff, List.filter_eq_nil_iff]
  rintro ⟨d, j⟩ hmem hsel
  rw [decide_eq_true_eq] at hsel
  obtain ⟨k, -, b, hk, hb⟩ := exists_mem_drop.1 hsel.2
  exact List.not_mem_nil (h ▸ mem_insideEntries.2 ⟨k, hk, rfl, hb⟩ : (ids.dlid k, b) ∈ ([] : List (Int × Dependencies)))

/-- **The links of an answer** are those of what the query selects. -/
theorem links_perm_selected (order : RowOrder) (now : Int) (stored : List Dependencies) (startTime endTime : Option Int) :
    (getDependencies order now (tablesOf ids stored) startTime endTime).links.Perm
      ((selected stored (startTs now startTime endTime) (endTime.getD now)).flatMap Dependencies.links) := by
  rcases interval_spec ids stored (startTs now startTime endTime) (endTime.getD now) with ⟨hnil, hnone⟩ | ⟨r, hsome, hr⟩
  · rw [startTs] at hnone
    simp only [getDependencies, hnone]
    rw [selected_eq_nil hnil]
    exact .refl _
  · rw [startTs] at hsome
    simp only [getDependencies, hsome]
    refine (links_perm order r).trans (.of_eq ?_)
    rw [linksOf, selected, entries, List.filter_map, List.flatMap_map, List.flatMap_map]
    refine congrArg (List.flatMap _) (List.filter_congr ?_)
    rintro ⟨d, j⟩ hmem
    have hj : j < stored.length := (List.getElem?_eq_some_iff.1 (List.mem_zipIdx_iff_getElem?.1 hmem)).1
    exact decide_eq_decide.2 (selected_iff hr hj).symm

end AnormDependencyStore

/-! ## Cassandra -/

namespace CassandraDependencyStore

/-- What a query selects: what was stored last for the day of its end and the day before. -/
def selected (stored : List Dependencies) (endTime : Int) : List Dependencies :=
  (kept stored).filter fun d => decide (LastTwoDays endTime d)

theorem mem_of_mem_selected {d : Dependencies} {endTime : Int} (h : d ∈ selected stored endTime) : d ∈ stored :=
  AssocMap.mem_of_mem_lasts (List.mem_of_mem_filter h)

theorem links_perm_selected (libs : Libraries) (order : RowOrder) (now : Int) (stored : List Dependencies)
    (startTime endTime : Option Int) (hlong : -2 ^ 63 ≤ endTime.getD now ∧ endTime.getD now < 2 ^ 63) :
    (getDependencies libs order now (tableOf libs stored) startTime endTime).links.Perm
      ((selected stored (endTime.getD now)).flatMap Dependencies.links) := by
  rw [getDependencies_eq, links_joined]
  exact (readDays_perm order hlong).flatMap_right _

end CassandraDependencyStore

/-! ## Both -/

/-- **When the links of an answer are unique for a parent and a child, with all their calls**: no two of the `Dependencies`
that the query selects have links of the same services. -/
theorem sumsPerPair_iff (ids : AutoIncrement) (isSQLRecoverableException : Throwable → Bool)
    (libs : CassandraDependencyStore.Libraries) (order order' : RowOrder) (now : Int) (stored : List Dependencies)
    (startTime endTime : Option Int) (hunique : LinksUnique stored)
    (hlong : -2 ^ 63 ≤ endTime.getD now ∧ endTime.getD now < 2 ^ 63) :
    (∃ t, exec (stored.mapM (AnormDependencyStore.storeDependencies ids (fun _ => none) isSQLRecoverableException)) {} =
        (.ok (stored.map fun _ => ()), t) ∧
      let selected := AnormDependencyStore.selected stored (AnormDependencyStore.startTs now startTime endTime)
        (endTime.getD now)
      (SumsPerPair (AnormDependencyStore.getDependencies order now t startTime endTime) selected ↔ ShareNoPair selected)) ∧
    let selected := CassandraDependencyStore.selected stored (endTime.getD now)
    (SumsPerPair (CassandraDependencyStore.getDependencies libs order' now (CassandraDependencyStore.tableOf libs stored)
      startTime endTime) selected ↔ ShareNoPair selected) :=
  ⟨⟨_, AnormDependencyStore.exec_storeDependencies stored,
    sumsPerPair_iff_of_perm (AnormDependencyStore.links_perm_selected order now stored startTime endTime) hunique
      (fun _ => AnormDependencyStore.mem_of_mem_selected)⟩,
    sumsPerPair_iff_of_perm (CassandraDependencyStore.links_perm_selected libs order' now stored startTime endTime hlong)
      hunique (fun _ => CassandraDependencyStore.mem_of_mem_selected)⟩

section Instances

def twoDays : List Dependencies := [⟨86400000000, 86400001000, [⟨"web", "query", 18⟩]⟩, ⟨172800000000, 172800001000, [⟨"web", "query", 42⟩]⟩]

def serial : AutoIncrement := ⟨fun n => n + 1, fun _ _ h => Int.add_lt_add_right (Int.ofNat_lt.2 h) 1⟩

/-- The links of the second day are all that is selected of a range that ends on the third. -/
theorem sumsPerPair_thirdDay :
    (∃ t, exec (twoDays.mapM (AnormDependencyStore.storeDependencies serial (fun _ => none) (fun _ => false))) {} =
        (.ok (twoDays.map fun _ => ()), t) ∧
      SumsPerPair (AnormDependencyStore.getDependencies .insertion 0 t (some 172800000000) (some 259200000000))
        (AnormDependencyStore.selected twoDays 172800000000 259200000000)) ∧
    SumsPerPair (CassandraDependencyStore.getDependencies .sample .insertion 0
        (CassandraDependencyStore.tableOf .sample twoDays) (some 172800000000) (some 259200000000))
      (CassandraDependencyStore.selected twoDays 259200000000) := by
  obtain ⟨⟨t, hexec, hanorm⟩, hcassandra⟩ := sumsPerPair_iff serial (fun _ => false) .sample .insertion .insertion 0 twoDays
    (some 172800000000) (some 259200000000) (by decide) (by decide)
  exact ⟨⟨t, hexec, hanorm.2 (by decide)⟩, hcassandra.2 (by decide)⟩

/-- The links of both days are in the answers, with the same parent and child. -/
theorem not_sumsPerPair_twoDays : LinksUnique twoDays ∧
    (∃ t, exec (twoDays.mapM (AnormDependencyStore.storeDependencies serial (fun _ => none) (fun _ => false))) {} =
        (.ok (twoDays.map fun _ => ()), t) ∧
      ¬ SumsPerPair (AnormDependencyStore.getDependencies .insertion 0 t (some 86400000000) (some 172800001000))
        (AnormDependencyStore.selected twoDays 86400000000 172800001000)) ∧
    ¬ SumsPerPair (CassandraDependencyStore.getDependencies .sample .insertion 0
        (CassandraDependencyStore.tableOf .sample twoDays) (some 86400000000) (some 172800001000))
      (CassandraDependencyStore.selected twoDays 172800001000) := by
  refine ⟨by decide, ⟨_, AnormDependencyStore.exec_storeDependencies _, fun hsums => ?_⟩, fun hsums => ?_⟩
  · have hperm : (AnormDependencyStore.getDependencies .insertion 0 (AnormDependencyStore.tablesOf serial twoDays)
        (some 86400000000) (some 172800001000)).links.Perm _ :=
      AnormDependencyStore.links_perm_selected .insertion 0 twoDays (some 86400000000) (some 172800001000)
    exact absurd ((PerKey.sums_iff hperm).1 hsums) (by decide)
  · have hperm := CassandraDependencyStore.links_perm_selected .sample .insertion 0 twoDays (some 86400000000)
      (some 172800001000) (by decide)
    exact absurd ((PerKey.sums_iff hperm).1 hsums) (by decide)

end Instances

end Zipkin
