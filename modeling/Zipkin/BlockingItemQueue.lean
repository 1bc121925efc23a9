import Zipkin.ItemQueue
/-!
# BlockingItemQueue — a call of add that waits for room

`BlockingItemQueue.scala`.  The queue is an `ItemQueue` with another `add`: where there is no room it sleeps and offers
its item again.  What `add` does when it finds the queue closed is a value that it does not return, so that it goes on to
offer its item: no call made after the close is rejected (`not_failsClosed`), where each is by the queue it inherits from
(`itemQueue_failsClosed`).
-/
namespace Zipkin

open Effect

namespace BlockingItemQueue

open ItemQueue

variable {α β σ : Type}

def step (maxSize : Nat) (item : Nat → α) (process : α → Effect Throwable σ β) (s : State σ) : Label → Option (State σ)
  | .readRunning c => match s.adds c with
    -- `QueueClosed` is evaluated where `running` is false, and `add` goes on
    | .notCalled => some { s with adds := Function.update s.adds c .running }
    | _ => none
  | .offer c => match s.adds c with
    | .running =>
      if s.queue.length < maxSize then
        some { s with adds := Function.update s.adds c (.returned (.ok ())), queue := s.queue ++ [c] }
      -- `Thread.sleep`
      else some s
    | _ => none
  | label => ItemQueue.step maxSize item process s label

/-! ## What a step can do -/

section Step
variable (maxSize : Nat) (item : Nat → α) (process : α → Effect Throwable σ β)

/-- A step is one of the `ItemQueue`, a call after the close, or an offer without room. -/
inductive Step : State σ → Label → State σ → Prop where
  | queue {s s' : State σ} (label : Label) (hopen : ∀ c, label = .readRunning c → s.running = true)
      (hroom : ∀ c, label = .offer c → s.queue.length < maxSize)
      (hstep : ItemQueue.step maxSize item process s label = some s') : Step s label s'
  | closed {s : State σ} (c : Nat) (hadd : s.adds c = .notCalled) (hrunning : s.running = false) : Step s (.readRunning c)
      { s with adds := Function.update s.adds c .running }
  | retry {s : State σ} (c : Nat) (hadd : s.adds c = .running) (hfull : ¬ s.queue.length < maxSize) : Step s (.offer c) s

variable {maxSize item process} {s s' : State σ}

theorem step_cases {label : Label} (h : step maxSize item process s label = some s') :
    Step maxSize item process s label s' := by
  cases label with
  | readRunning c =>
    cases hadd : s.adds c with
    | notCalled =>
      simp only [step, hadd] at h
      cases hrunning : s.running with
      | true =>
        refine .queue (.readRunning c) (fun _ _ => hrunning) (fun _ heq => by cases heq) ?_
        simp only [ItemQueue.step, hadd]
        rw [if_pos hrunning]
        exact h
      | false => exact Option.some.inj h ▸ .closed c hadd hrunning
    | running | returned =>
      simp only [step, hadd] at h
      cases h
  | offer c =>
    cases hadd : s.adds c with
    | running =>
      simp only [step, hadd] at h
      by_cases hroom : s.queue.length < maxSize
      · refine .queue (.offer c) (fun _ heq => by cases heq) (fun _ _ => hroom) ?_
        simp only [ItemQueue.step, hadd]
        rwa [if_pos hroom] at h ⊢
      · rw [if_neg hroom] at h
        exact Option.some.inj h ▸ .retry c hadd hroom
    | notCalled | returned =>
      simp only [step, hadd] at h
      cases h
  | loop | poll | process | close | join => exact .queue _ (fun _ heq => by cases heq) (fun _ heq => by cases heq) h

/-- The calls after the close and those that wait put nothing into the queue. -/
theorem keepsItems : KeepsItems maxSize (step maxSize item process) where
  accounted s label s' h hstep := by
    cases step_cases hstep with
    | queue _ _ _ hstep => exact accounted_step h hstep
    | closed c hadd _ => exact h.update (by rw [hadd]; nofun) nofun
    | retry => exact h
  ended s label s' h hstep := by
    cases step_cases hstep with
    | queue _ _ _ hstep => exact ended_step h hstep
    | closed | retry => exact ⟨h, fun _ hc => hc⟩
  completed s label s' h hstep := by
    cases step_cases hstep with
    | queue _ _ _ hstep => exact completed_step h hstep
    | closed | retry => exact h
  empty s label s' h htime hstep := by
    cases step_cases hstep with
    | queue _ _ _ hstep => exact empty_step h htime hstep
    | closed | retry => exact h
  accepted s c s' hroom hstep := by
    cases step_cases hstep with
    | queue _ _ _ hstep => exact ItemQueue.keepsItems.accepted s c s' hroom hstep
    | retry _ _ hfull => exact (hfull hroom).elim

end Step

/-! ## A call made after the close -/

/-- The call fails with `QueueClosedException` after finitely many steps of its own, and its item is never in the queue. -/
structure FailsClosed (next : State σ → Label → Option (State σ)) (s : State σ) (c : Nat) : Prop where
  fails : ∀ labels s', Transition.run next s (.readRunning c :: labels) = some s' →
    ∀ result, s'.adds c = .returned result → result = .error QueueClosedException
  terminates : ∃ n s' result, Transition.run next s (.readRunning c :: List.replicate n (.offer c)) = some s' ∧
    s'.adds c = .returned result
  unchanged : ∀ labels s', Transition.run next s (.readRunning c :: labels) = some s' → c ∉ s'.queue

section Closed
variable {maxSize : Nat} {item : Nat → α} {process : α → Effect Throwable σ β} {s s' : State σ} {c : Nat}

theorem returned_step {label : Label} {result : Except Throwable Unit} (h : s.adds c = .returned result)
    (hstep : ItemQueue.step maxSize item process s label = some s') : s'.adds c = .returned result := by
  cases ItemQueue.step_cases hstep with
  | readRunning d hadd | accept d hadd _ | full d hadd _ =>
    have hne : c ≠ d := by
      rintro rfl
      rw [h] at hadd
      cases hadd
    exact (Function.update_of_ne hne _ _).trans h
  | goOn | leave | take | timeout | process | close | join => exact h

/-- **The queue it inherits from** rejects a call made after the close. -/
theorem itemQueue_failsClosed (haccounted : Accounted s) (hadd : s.adds c = .notCalled) (hrunning : s.running = false) :
    FailsClosed (ItemQueue.step maxSize item process) s c := by
  have hstep : ItemQueue.step maxSize item process s (.readRunning c) =
      some { s with adds := Function.update s.adds c (.returned (.error QueueClosedException)) } := by
    simp only [ItemQueue.step, hadd]
    rw [if_neg (by rw [hrunning]; exact Bool.false_ne_true)]
  have hlater : ∀ labels s', Transition.run (ItemQueue.step maxSize item process) s (.readRunning c :: labels) = some s' →
      Accounted s' ∧ s'.adds c = .returned (.error QueueClosedException) := by
    intro labels s' hrun
    obtain ⟨m, hm, hrun⟩ := Transition.run_cons.1 hrun
    have hrejected : m.adds c = .returned (.error QueueClosedException) := by
      obtain rfl := Option.some.inj (hstep.symm.trans hm)
      exact Function.update_self _ _ _
    exact Transition.run_invariant
      (P := fun s : State σ => Accounted s ∧ s.adds c = .returned (.error QueueClosedException))
      (fun _ _ _ h hstep => ⟨accounted_step h.1 hstep, returned_step h.2 hstep⟩)
      ⟨accounted_step haccounted hm, hrejected⟩ hrun
  refine ⟨fun labels s' hrun result hresult => ?_, ?_, fun labels s' hrun hc => ?_⟩
  · exact (Adding.returned.inj ((hlater labels s' hrun).2.symm.trans hresult)).symm
  · exact ⟨0, _, _, Transition.run_cons.2 ⟨_, hstep, rfl⟩, Function.update_self _ _ _⟩
  · obtain ⟨haccounted', hrejected⟩ := hlater labels s' hrun
    have hok := (haccounted'.mem_held c).1 (List.mem_append_left _ hc)
    rw [hrejected] at hok
    cases hok

theorem step_call (hadd : s.adds c = .notCalled) : step maxSize item process s (.readRunning c) =
    some { s with adds := Function.update s.adds c .running } := by
  simp only [step, hadd]

variable (item process) in
theorem run_accept (hadd : s.adds c = .notCalled) (hroom : s.queue.length < maxSize) :
    ∃ s', Transition.run (step maxSize item process) s [.readRunning c, .offer c] = some s' ∧
      s'.adds c = .returned (.ok ()) ∧ s'.queue = s.queue ++ [c] := by
  have hoffer : step maxSize item process { s with adds := Function.update s.adds c .running } (.offer c) = some { s with
      adds := Function.update (Function.update s.adds c .running) c (.returned (.ok ())), queue := s.queue ++ [c] } := by
    simp only [step, Function.update_self, if_pos hroom]
  exact ⟨_, Transition.run_cons.2 ⟨_, step_call hadd, Transition.run_cons.2 ⟨_, hoffer, rfl⟩⟩, Function.update_self _ _ _, rfl⟩

theorem run_retry (hadd : s.adds c = .notCalled) (hfull : ¬ s.queue.length < maxSize) (n : Nat) :
    Transition.run (step maxSize item process) s (.readRunning c :: List.replicate n (.offer c)) =
      some { s with adds := Function.update s.adds c .running } := by
  refine Transition.run_cons.2 ⟨_, step_call hadd, Transition.run_replicate ?_ n⟩
  simp only [step, Function.update_self, if_neg hfull]

/-- **No call is rejected**, before or after the close. -/
theorem not_failsClosed (hadd : s.adds c = .notCalled) : ¬ FailsClosed (step maxSize item process) s c := by
  intro h
  by_cases hroom : s.queue.length < maxSize
  · obtain ⟨s', hrun, hok, -⟩ := run_accept item process hadd hroom
    cases h.fails _ s' hrun _ hok
  · obtain ⟨n, s', result, hrun, hresult⟩ := h.terminates
    obtain rfl := Option.some.inj ((run_retry hadd hroom n).symm.trans hrun)
    cases (Function.update_self c Adding.running s.adds).symm.trans hresult

end Closed

/-! ## Runs -/

section Runs
variable (maxSize : Nat) (item : Nat → α) (process : α → Effect Throwable σ β)

/-- A call made after the close is rejected. -/
def Rejected (s : State σ) (label : Label) : Prop :=
  ∀ c, label = .readRunning c → s.running = false → FailsClosed (step maxSize item process) s c

/-- No call is made after the close. -/
def CalledOpen (s : State σ) (label : Label) : Prop := ∀ c, label = .readRunning c → s.running = true

instance (s : State σ) : ∀ label, Decidable (CalledOpen s label)
  | .readRunning c =>
    if h : s.running = true then isTrue (fun _ _ => h) else isFalse (fun hopen => h (hopen c rfl))
  | .offer _ | .loop _ | .poll _ | .process _ | .close | .join => isTrue nofun

/-- The queue is empty, and all that was accepted has been processed. -/
def Drained (s : State σ) : Prop := s.queue = [] ∧ ProcessedOnce s

/-- **When the calls made after the close are rejected, and the queue is drained by the close**: no call is made after the
close, and no offer finds room after the last worker has ended. -/
theorem rejected_drained_iff (maxConcurrency : Nat) (store : σ) (labels : List Label) (s : State σ)
    (hrun : Transition.run (step maxSize item process) (init maxConcurrency store) labels = some s) :
    (Transition.Meets (step maxSize item process) (Rejected maxSize item process) (init maxConcurrency store) labels ↔
      Transition.Meets (step maxSize item process) CalledOpen (init maxConcurrency store) labels) ∧
    (s.closing = .completed → (Drained s ↔
      Transition.Meets (step maxSize item process) (InTime maxSize) (init maxConcurrency store) labels)) := by
  constructor
  · refine Transition.meets_iff_of_forall (fun m label m' hstep => ?_) hrun
    constructor
    · rintro hrejected c rfl
      cases step_cases hstep with
      | queue _ hopen _ _ => exact hopen c rfl
      | closed _ hadd hrunning => exact (not_failsClosed hadd (hrejected c rfl hrunning)).elim
    · rintro hopen c rfl hrunning
      cases (hopen c rfl).symm.trans hrunning
  · intro hclosed
    have honce := keepsItems.once_iff hrun hclosed
    refine ⟨fun hdrained => honce.1 hdrained.2, fun hmeets => ⟨?_, honce.2 hmeets⟩⟩
    exact keepsItems.run_empty hrun hmeets (keepsItems.run_completed hrun hclosed)

end Runs

/-- The second call waits for the worker to take the first item. -/
def waiting : List Label :=
  [.readRunning 0, .readRunning 1, .offer 0, .offer 1, .close, .loop 0, .poll 0, .offer 1, .process 0, .loop 0, .poll 0,
    .process 0, .loop 0, .join]

theorem rejected_drained_waiting : ∃ s, Transition.run (step 1 id keepItem) (init 1 []) waiting = some s ∧
    s.closing = .completed ∧ s.store = [0, 1] ∧ Drained s ∧
    Transition.Meets (step 1 id keepItem) (Rejected 1 id keepItem) (init 1 []) waiting := by
  obtain ⟨hrejected, hdrained⟩ := rejected_drained_iff 1 id keepItem 1 [] waiting _ rfl
  exact ⟨_, rfl, rfl, rfl, (hdrained rfl).2 (by decide), hrejected.2 (by decide)⟩

/-- A call made when `close` has completed: it returns, and nobody takes its item. -/
theorem not_rejected_completed : ∃ s s', Transition.run (step 10 id keepItem) (init 1 []) [.close, .loop 0, .join] = some s ∧
    s.running = false ∧ s.closing = .completed ∧ ¬ FailsClosed (step 10 id keepItem) s 0 ∧
    Transition.run (step 10 id keepItem) s [.readRunning 0, .offer 0] = some s' ∧ s'.adds 0 = .returned (.ok ()) ∧
    s'.queue = [0] ∧ ¬ Drained s' := by
  refine ⟨_, _, rfl, rfl, rfl, fun h => ?_, rfl, rfl, rfl, nofun⟩
  cases h.fails [.offer 0] _ rfl _ rfl

end BlockingItemQueue
end Zipkin
