import Mathlib.Data.List.Induction
import Mathlib.Data.List.Pairwise
import Mathlib.Data.List.Perm.Basic
/-!
# Transition — runs of a system of labelled steps

A step is a partial function of a state and a label: a label that cannot be taken has no next state.  A run is any list of
labels, so all orders in which several parties can take their steps are runs.  What a step preserves holds after each run
(`run_invariant`), and what a step preserves under a condition holds after each run that meets it (`run_invariant_of_meets`).
-/

namespace Transition

variable {σ ι : Type*} (step : σ → ι → Option σ)

/-- The state after a run, if each of its steps can be taken. -/
def run : σ → List ι → Option σ
  | s, [] => some s
  | s, i :: is => (step s i).bind fun s' => run s' is

/-- Each step of the run is taken in a state in which the condition holds of it. -/
def Meets (C : σ → ι → Prop) : σ → List ι → Prop
  | _, [] => True
  | s, i :: is => C s i ∧ ∀ s' ∈ step s i, Meets C s' is

instance decidableMeets (C : σ → ι → Prop) [∀ s i, Decidable (C s i)] : ∀ s is, Decidable (Meets step C s is)
  | _, [] => isTrue trivial
  | s, i :: is =>
    have : ∀ s', Decidable (Meets step C s' is) := fun s' => decidableMeets C s' is
    inferInstanceAs (Decidable (_ ∧ ∀ s' ∈ step s i, Meets step C s' is))

variable {step} {P : σ → Prop} {C : σ → ι → Prop}

theorem run_cons {s s' : σ} {i : ι} {is : List ι} : run step s (i :: is) = some s' ↔ ∃ m, step s i = some m ∧ run step m is = some s' :=
  Option.bind_eq_some_iff

theorem run_append {s s' : σ} {is js : List ι} :
    run step s (is ++ js) = some s' ↔ ∃ m, run step s is = some m ∧ run step m js = some s' := by
  induction is generalizing s with
  | nil => exact ⟨fun h => ⟨s, rfl, h⟩, fun ⟨m, hm, h⟩ => Option.some.inj hm ▸ h⟩
  | cons i is ih =>
    rw [List.cons_append, run_cons]
    constructor
    · rintro ⟨n, hn, h⟩
      obtain ⟨m, hm, h⟩ := ih.1 h
      exact ⟨m, run_cons.2 ⟨n, hn, hm⟩, h⟩
    · rintro ⟨m, hm, h⟩
      obtain ⟨n, hn, hm⟩ := run_cons.1 hm
      exact ⟨n, hn, ih.2 ⟨m, hm, h⟩⟩

theorem run_invariant_of_meets (hstep : ∀ s i s', P s → C s i → step s i = some s' → P s') :
    ∀ {is : List ι} {s s' : σ}, P s → Meets step C s is → run step s is = some s' → P s'
  | [], _, _, h, _, hrun => Option.some.inj hrun ▸ h
  | i :: is, s, s', h, hmeets, hrun => by
    obtain ⟨m, hm, hrun⟩ := run_cons.1 hrun
    exact run_invariant_of_meets hstep (hstep s i m h hmeets.1 hm) (hmeets.2 m hm) hrun

theorem meets_of_forall : ∀ {is : List ι} {s : σ}, (∀ i ∈ is, ∀ s, C s i) → Meets step C s is
  | [], _, _ => trivial
  | i :: _, s, h => ⟨h i List.mem_cons_self s, fun _ _ => meets_of_forall fun j hj => h j (List.mem_cons_of_mem i hj)⟩

theorem meets_iff_of_forall {D : σ → ι → Prop} (hCD : ∀ s i s', step s i = some s' → (C s i ↔ D s i)) :
    ∀ {is : List ι} {s s' : σ}, run step s is = some s' → (Meets step C s is ↔ Meets step D s is)
  | [], _, _, _ => Iff.rfl
  | i :: is, s, s', hrun => by
    obtain ⟨m, hm, hrun⟩ := run_cons.1 hrun
    refine and_congr (hCD s i m hm) (forall₂_congr fun m' hm' => ?_)
    rw [hm] at hm'
    exact meets_iff_of_forall hCD (Option.some.inj hm' ▸ hrun)

theorem run_replicate {s : σ} {i : ι} (h : step s i = some s) : ∀ n, run step s (List.replicate n i) = some s
  | 0 => rfl
  | n + 1 => run_cons.2 ⟨s, h, run_replicate h n⟩

theorem run_invariant (hstep : ∀ s i s', P s → step s i = some s' → P s') {is : List ι} {s s' : σ} (h : P s)
    (hrun : run step s is = some s') : P s' :=
  run_invariant_of_meets (fun s i s' hs _ => hstep s i s' hs) h (meets_of_forall fun _ _ _ => trivial) hrun

/-- **What a step preserves of a state and of the labels that led to it** holds after each run. -/
theorem run_history {P : List ι → σ → Prop} {s₀ : σ} (h₀ : P [] s₀)
    (hstep : ∀ is s i s', P is s → step s i = some s' → P (is ++ [i]) s') {is : List ι} {s : σ}
    (hrun : run step s₀ is = some s) : P is s := by
  induction is using List.reverseRecOn generalizing s with
  | nil => exact Option.some.inj hrun ▸ h₀
  | append_singleton is i ih =>
    obtain ⟨m, hm, hrun⟩ := run_append.1 hrun
    obtain ⟨m', hm', hrun⟩ := run_cons.1 hrun
    exact Option.some.inj hrun ▸ hstep is m i m' (ih hm) hm'

/-- **A run that does not meet a condition** has a step that does not. -/
theorem exists_of_not_meets : ∀ {is : List ι} {s s' : σ}, run step s is = some s' → ¬ Meets step C s is →
    ∃ before i after m m', is = before ++ i :: after ∧ run step s before = some m ∧ ¬ C m i ∧ step m i = some m' ∧
      run step m' after = some s'
  | [], _, _, _, hnot => (hnot trivial).elim
  | i :: is, s, s', hrun, hnot => by
    obtain ⟨m, hm, hrun⟩ := run_cons.1 hrun
    by_cases hC : C s i
    · have hrest : ¬ Meets step C m is := fun hmeets => hnot ⟨hC, fun m' hm' => by
        rw [hm] at hm'
        exact Option.some.inj hm' ▸ hmeets⟩
      obtain ⟨before, j, after, n, n', rfl, hbefore, hj⟩ := exists_of_not_meets hrun hrest
      exact ⟨i :: before, j, after, n, n', rfl, run_cons.2 ⟨m, hm, hbefore⟩, hj⟩
    · exact ⟨[], i, is, s, m, rfl, rfl, hC, hm, hrun⟩

/-- **A property that the steps bring about that do not meet a condition, and that no step takes away**, holds after a run
exactly if it held before or the run does not meet the condition. -/
theorem run_iff_not_meets (hiff : ∀ s i s', step s i = some s' → (P s' ↔ P s ∨ ¬ C s i)) :
    ∀ {is : List ι} {s s' : σ}, run step s is = some s' → (P s' ↔ P s ∨ ¬ Meets step C s is)
  | [], _, _, hrun => Option.some.inj hrun ▸ (or_iff_left (not_not_intro trivial)).symm
  | i :: is, s, s', hrun => by
    obtain ⟨m, hm, hrun⟩ := run_cons.1 hrun
    have hmeets : Meets step C s (i :: is) ↔ C s i ∧ Meets step C m is := by
      refine and_congr_right fun _ => ⟨fun h => h m hm, fun h m' hm' => ?_⟩
      rwa [← Option.some.inj (hm.symm.trans hm')]
    rw [run_iff_not_meets hiff hrun, hiff s i m hm, or_assoc, hmeets, not_and_or]

/-- **A property that holds after a step exactly if a condition does before it** holds along a run, after each of its steps,
exactly if the run meets the condition.  `I` is what the states have in which the property holds. -/
theorem forall_prefix_iff_meets {I : σ → Prop} (htotal : ∀ s i, ∃ s', step s i = some s') (hP : ∀ s, I s → P s)
    (hiff : ∀ s i s', I s → step s i = some s' → (P s' ↔ C s i))
    (hstep : ∀ s i s', I s → C s i → step s i = some s' → I s') :
    ∀ {is : List ι} {s : σ}, I s → ((∀ js s', js <+: is → run step s js = some s' → P s') ↔ Meets step C s is)
  | [], s, h => by
    refine iff_of_true (fun js s' hjs hrun => ?_) trivial
    obtain rfl := List.prefix_nil.1 hjs
    exact Option.some.inj hrun ▸ hP s h
  | i :: is, s, h => by
    obtain ⟨m, hm⟩ := htotal s i
    constructor
    · intro hall
      have hC : C s i := (hiff s i m h hm).1 (hall [i] m (List.prefix_append [i] is) (run_cons.2 ⟨m, hm, rfl⟩))
      refine ⟨hC, fun m' hm' => ?_⟩
      rw [hm] at hm'
      obtain rfl := Option.some.inj hm'
      refine (forall_prefix_iff_meets htotal hP hiff hstep (hstep s i m h hC hm)).1 fun js s' hjs hrun => ?_
      exact hall (i :: js) s' (List.cons_prefix_cons.2 ⟨rfl, hjs⟩) (run_cons.2 ⟨m, hm, hrun⟩)
    · rintro ⟨hC, hrest⟩ js s' hjs hrun
      cases js with
      | nil => exact Option.some.inj hrun ▸ hP s h
      | cons j js =>
        obtain ⟨rfl, hrestPrefix⟩ := List.cons_prefix_cons.1 hjs
        obtain ⟨m', hm', hrun⟩ := run_cons.1 hrun
        have hI := hstep s j m' h hC hm'
        exact (forall_prefix_iff_meets htotal hP hiff hstep hI).2 (hrest m' hm') js s' hrestPrefix hrun

/-! ## One of several parties -/

theorem filterMap_cons_append {α β : Type*} (f : α → Option β) (a : α) (l : List α) :
    (a :: l).filterMap f = (f a).toList ++ l.filterMap f := by
  rw [List.filterMap_cons]
  cases f a <;> rfl

/-- What one of the parties has is exchanged, and the others keep what they have. -/
theorem filterMap_set_perm {α β : Type*} (f : α → Option β) : ∀ {l : List α} {n : Nat} {a : α} (b : α), l[n]? = some a →
    ((f a).toList ++ (l.set n b).filterMap f).Perm ((f b).toList ++ l.filterMap f)
  | c :: l, 0, a, b, h => by
    obtain rfl := Option.some.inj h
    rw [List.set_cons_zero, filterMap_cons_append, filterMap_cons_append]
    exact List.perm_append_comm_assoc _ _ _
  | c :: l, n + 1, a, b, h => by
    rw [List.set_cons_succ, filterMap_cons_append, filterMap_cons_append]
    have ih := filterMap_set_perm f b (l := l) (n := n) h
    exact (List.perm_append_comm_assoc _ _ _).trans ((ih.append_left _).trans (List.perm_append_comm_assoc _ _ _))

theorem eq_of_nodup_filterMap {α β : Type*} {f : α → Option β} {l : List α} (h : (l.filterMap f).Nodup) {a b : α} {c : β}
    (ha : a ∈ l) (hb : b ∈ l) (hac : f a = some c) (hbc : f b = some c) : a = b := by
  rw [List.Nodup, List.pairwise_filterMap] at h
  by_contra hne
  have hsymm : Std.Symm (fun a a' : α => ∀ c, f a = some c → ∀ c', f a' = some c' → c ≠ c') :=
    ⟨fun _ _ h c hc c' hc' => (h c' hc' c hc).symm⟩
  exact h.forall ha hb hne c hac c hbc rfl

theorem filterMap_set_of_eq {α β : Type*} {f : α → Option β} {n : Nat} {a b : α} : ∀ {l : List α}, l[n]? = some a →
    f b = f a → (l.set n b).filterMap f = l.filterMap f := by
  induction n with
  | zero =>
    intro l h hf
    cases l with
    | nil => cases h
    | cons c l =>
      obtain rfl := Option.some.inj h
      rw [List.set_cons_zero, List.filterMap_cons, List.filterMap_cons, hf]
  | succ n ih =>
    intro l h hf
    cases l with
    | nil => cases h
    | cons c l => rw [List.set_cons_succ, List.filterMap_cons, List.filterMap_cons, ih (l := l) h hf]

end Transition
