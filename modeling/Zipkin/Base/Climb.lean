import Mathlib.Data.List.Perm.Subperm
import Mathlib.Logic.Relation
/-!
# Climb — following a partial function to its end

`climb next fuel x` goes from `x` to `next x` as long as there is one, and `none` says that the fuel ran out.  The climb
ends exactly if it comes by no cycle (`exists_climb_iff`), and then as much fuel as there are elements is enough.
-/
universe u

namespace Climb

variable {α : Type u} (next : α → Option α)

def climb : Nat → α → Option α
  | 0, _ => none
  | fuel + 1, x =>
    match next x with
    | some y => climb fuel y
    | none => some x

/-- One step of the climb. -/
def Next (x y : α) : Prop := next x = some y

variable {next} {x y : α} {n : Nat}

theorem climb_succ_some (h : next x = some y) : climb next (n + 1) x = climb next n y := by rw [climb, h]

theorem climb_succ_none (h : next x = none) : climb next (n + 1) x = some x := by rw [climb, h]

/-- **Where a climb ends**, there is no step, and the climb has come by steps. -/
theorem climb_eq_some {r : α} : ∀ {n : Nat} {x : α}, climb next n x = some r →
    next r = none ∧ Relation.ReflTransGen (Next next) x r
  | n + 1, x, h => by
    cases hx : next x with
    | none =>
      rw [climb_succ_none hx] at h
      obtain rfl := Option.some.inj h
      exact ⟨hx, .refl⟩
    | some y =>
      rw [climb_succ_some hx] at h
      obtain ⟨hr, hreach⟩ := climb_eq_some h
      exact ⟨hr, .head hx hreach⟩

theorem reaches_end_unique {r r' : α} (h : Relation.ReflTransGen (Next next) x r) (hr : next r = none)
    (h' : Relation.ReflTransGen (Next next) x r') (hr' : next r' = none) : r = r' := by
  have huniq : Relator.RightUnique (Next next) := fun a b c hb hc => Option.some.inj (hb.symm.trans hc)
  have hself : ∀ {r r' : α}, next r = none → Relation.ReflTransGen (Next next) r r' → r = r' := fun hr hreach => by
    rcases hreach.cases_head with heq | ⟨y, hy, -⟩
    · exact heq
    · rw [Next, hr] at hy; cases hy
  rcases Relation.ReflTransGen.total_of_right_unique huniq h h' with hreach | hreach
  · exact hself hr hreach
  · exact (hself hr' hreach).symm

/-- **A climb that runs out of fuel has come by a chain as long as it.** -/
theorem exists_chain_of_climb_none : ∀ {n : Nat} {x : α}, climb next n x = none →
    ∃ l : List α, l.length = n ∧ List.IsChain (Next next) (x :: l)
  | 0, x, _ => ⟨[], rfl, .singleton x⟩
  | n + 1, x, h => by
    cases hx : next x with
    | none => rw [climb_succ_none hx] at h; cases h
    | some y =>
      rw [climb_succ_some hx] at h
      obtain ⟨l, hl, hchain⟩ := exists_chain_of_climb_none h
      exact ⟨y :: l, by rw [List.length_cons, hl], .cons_cons hx hchain⟩

/-- **A climb that comes by a cycle does not end.** -/
theorem climb_of_cycle : ∀ (n : Nat) {x a : α}, Relation.ReflTransGen (Next next) x a →
    Relation.TransGen (Next next) a a → climb next n x = none
  | 0, _, _, _, _ => rfl
  | n + 1, x, a, hxa, ha => by
    -- the next element comes by the same cycle
    have hstep : ∃ y, next x = some y ∧ Relation.ReflTransGen (Next next) y a := by
      rcases hxa.cases_head with rfl | hstep
      · exact Relation.TransGen.head'_iff.1 ha
      · exact hstep
    obtain ⟨y, hy, hya⟩ := hstep
    rw [climb_succ_some hy]
    exact climb_of_cycle n hya ha

/-- **Without a cycle, as much fuel as there are elements is enough.** -/
theorem climb_isSome {nodes : List α} (hnext : ∀ x y, next x = some y → y ∈ nodes) (hx : x ∈ nodes)
    (hacyclic : ∀ a, Relation.ReflTransGen (Next next) x a → ¬ Relation.TransGen (Next next) a a) :
    (climb next nodes.length x).isSome := by
  by_contra hnone
  rw [Option.not_isSome_iff_eq_none] at hnone
  obtain ⟨l, hl, hchain⟩ := exists_chain_of_climb_none hnone
  have hpair : (x :: l).Pairwise (Relation.TransGen (Next next)) :=
    List.isChain_iff_pairwise.1 (hchain.imp (fun _ _ => .single))
  have hreach : ∀ a ∈ x :: l, Relation.ReflTransGen (Next next) x a := fun a ha => by
    rcases List.mem_cons.1 ha with rfl | ha
    · exact .refl
    · exact (List.rel_of_pairwise_cons hpair ha).to_reflTransGen
  have hnodup : (x :: l).Nodup := by
    refine hpair.imp_of_mem (fun {a b} ha _ hab => ?_)
    rintro rfl
    exact hacyclic a (hreach a ha) hab
  have hsub : x :: l ⊆ nodes := fun a ha => by
    rcases (hreach a ha).cases_tail with rfl | ⟨b, -, hba⟩
    · exact hx
    · exact hnext b a hba
  have hle := (List.subperm_of_subset hnodup hsub).length_le
  rw [List.length_cons, hl] at hle
  omega

/-- **When a climb ends**: exactly if it comes by no cycle. -/
theorem exists_climb_iff {nodes : List α} (hnext : ∀ x y, next x = some y → y ∈ nodes) (hx : x ∈ nodes) :
    (∃ n, (climb next n x).isSome) ↔
      ∀ a, Relation.ReflTransGen (Next next) x a → ¬ Relation.TransGen (Next next) a a := by
  constructor
  · rintro ⟨n, hn⟩ a hxa ha
    rw [climb_of_cycle n hxa ha] at hn
    cases hn
  · exact fun hacyclic => ⟨_, climb_isSome hnext hx hacyclic⟩

end Climb
