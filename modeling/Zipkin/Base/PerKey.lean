import Mathlib.Algebra.BigOperators.Group.List.Basic
import Mathlib.Algebra.Ring.Int.Defs
import Mathlib.Data.List.Nodup
import Mathlib.Data.List.Perm.Basic
import Zipkin.Base.AssocMap
/-!
# PerKey — one element for each key, with the sum of the weights under it

`Sums` says what merging elements by their keys results in.  Elements that are not merged are that only if no two of them
have one key (`sums_iff`), and elements in groups without repeated keys only if the groups share none
(`sums_flatMap_iff`).  In a map from the keys to the elements a later element replaces those with its key, and their weights
are what the map lacks (`weightAt_lasts`).
-/

namespace PerKey

variable {α κ γ : Type*} [DecidableEq κ] (key : α → κ) (weight : α → Int)

/-- `result` has one element at most for a key, with the sum of the weights that `items` have under it. -/
structure Sums (result items : List α) : Prop where
  nodup : (result.map key).Nodup
  weight_eq : ∀ a ∈ result, weight a = ((items.filter fun b => key b == key a).map weight).sum

variable {key weight} {result items : List α}

theorem filter_key_of_nodup : ∀ {l : List α}, (l.map key).Nodup → ∀ {a}, a ∈ l → l.filter (fun b => key b == key a) = [a]
  | c :: l, h, a, ha => by
    rw [List.map_cons, List.nodup_cons] at h
    rcases List.mem_cons.1 ha with rfl | ha
    · have hnone : l.filter (fun b => key b == key a) = [] := List.filter_eq_nil_iff.2 (fun b hb hkey =>
        h.1 (beq_iff_eq.1 hkey ▸ List.mem_map_of_mem hb))
      rw [List.filter_cons, if_pos (beq_self_eq_true _), hnone]
    · have hne : ¬ (key c == key a) = true := fun hkey => h.1 (beq_iff_eq.1 hkey ▸ List.mem_map_of_mem ha)
      rw [List.filter_cons, if_neg hne, filter_key_of_nodup h.2 ha]

/-- **When elements that are not merged are one for each key.** -/
theorem sums_iff (h : result.Perm items) : Sums key weight result items ↔ (items.map key).Nodup := by
  have hnodup : (result.map key).Nodup ↔ (items.map key).Nodup := (h.map key).nodup_iff
  constructor
  · exact fun hsums => hnodup.1 hsums.nodup
  · intro hitems
    refine ⟨hnodup.2 hitems, fun a ha => ?_⟩
    rw [filter_key_of_nodup hitems (h.mem_iff.1 ha), List.map_singleton, List.sum_singleton]

/-- **When groups that are not merged are one element for each key**: no two of them share a key. -/
theorem sums_flatMap_iff {groups : List γ} {elements : γ → List α} (h : result.Perm (groups.flatMap elements))
    (hgroups : ∀ g ∈ groups, ((elements g).map key).Nodup) : Sums key weight result (groups.flatMap elements) ↔
      groups.Pairwise fun g g' => ∀ a ∈ elements g, ∀ b ∈ elements g', key a ≠ key b := by
  rw [sums_iff h, List.map_flatMap, List.nodup_flatMap, and_iff_right hgroups]
  refine List.Pairwise.iff (fun g g' => ?_)
  constructor
  · intro hdisjoint a ha b hb hkey
    exact hdisjoint (List.mem_map_of_mem ha) (hkey ▸ List.mem_map_of_mem hb)
  · intro hne k hk hk'
    obtain ⟨a, ha, rfl⟩ := List.mem_map.1 hk
    obtain ⟨b, hb, hkey⟩ := List.mem_map.1 hk'
    exact hne a ha b hb hkey.symm

/-! ## Elements that later ones replace -/

/-- The sum of the weights under a key. -/
def weightAt (key : α → κ) (weight : α → Int) (k : κ) (l : List α) : Int := ((l.filter fun b => decide (key b = k)).map weight).sum

/-- The sum of the weights under a key of the elements that a later one replaces. -/
def replacedAt (key : α → κ) (weight : α → Int) (k : κ) (l : List α) : Int :=
  ((l.filter fun b => decide (key b = k)).dropLast.map weight).sum

theorem weightAt_append (k : κ) (l l' : List α) :
    weightAt key weight k (l ++ l') = weightAt key weight k l + weightAt key weight k l' := by
  rw [weightAt, List.filter_append, List.map_append, List.sum_append]
  rfl

theorem weightAt_of_nodup {l : List α} (h : (l.map key).Nodup) {a : α} (ha : a ∈ l) :
    weightAt key weight (key a) l = weight a := by
  have hfilter : l.filter (fun b => decide (key b = key a)) = [a] := filter_key_of_nodup h ha
  rw [weightAt, hfilter, List.map_singleton, List.sum_singleton]

/-- **What is left after the replacements, and what was replaced.** -/
theorem weightAt_lasts (k : κ) (l : List α) :
    weightAt key weight k (AssocMap.lasts key l) + replacedAt key weight k l = weightAt key weight k l := by
  have hkeys : ∀ b ∈ l.filter fun b => decide (key b = k), key b = k := fun b hb =>
    of_decide_eq_true (List.mem_filter.1 hb).2
  rw [weightAt, AssocMap.filter_lasts (fun b c hbc => by rw [hbc]), AssocMap.lasts_of_forall_eq hkeys, replacedAt, weightAt]
  rcases List.eq_nil_or_concat (l.filter fun b => decide (key b = k)) with hnil | ⟨init, a, hcons⟩
  · rw [hnil]; rfl
  · rw [hcons]
    simp [Int.add_comm]

end PerKey
