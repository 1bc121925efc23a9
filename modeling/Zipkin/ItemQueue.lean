import Mathlib.Data.List.Nodup
import Mathlib.Logic.Function.Basic
import Zipkin.Base.Effect
import Zipkin.Base.Transition
import Zipkin.ByteBuffer
/-!
# ItemQueue — producers, workers and a close

`ItemQueue.scala`.  A call of `add` first reads `running` and then offers its item, a worker tests its loop, polls, and
passes what it has to `process`, and `close` sets `running` and completes when the loops have ended.  The steps of all
come in any order.  Items are known by the call that adds them.

A worker ends when it finds the queue closed and empty.  A call that has read `running` before the close can still offer
its item afterwards, and after the last worker has ended nobody takes it: `processedOnce_iff` says that nothing else
goes wrong.
-/
namespace Zipkin

open Effect

namespace ItemQueue

inductive Adding where
  | notCalled
  | running
  | returned (result : Except Throwable Unit)
deriving DecidableEq

inductive Worker where
  | test
  | poll
  | process (call : Nat)
  | ended
deriving DecidableEq, Repr

inductive Closing where
  | notCalled
  | joining
  | completed
deriving DecidableEq, Repr

structure State (σ : Type) where
  running : Bool
  queue : List Nat
  workers : List Worker
  adds : Nat → Adding
  closing : Closing
  /-- The calls whose items have been passed to `process`. -/
  processed : List Nat
  /-- What `process` works on. -/
  store : σ

inductive Label where
  | readRunning (call : Nat)
  | offer (call : Nat)
  | loop (worker : Nat)
  | poll (worker : Nat)
  | process (worker : Nat)
  | close
  | join
deriving DecidableEq, Repr

def QueueFullException (maxSize : Nat) : Throwable := ⟨"QueueFullException", s!"Queue is full. MaxSize: {maxSize}"⟩

def QueueClosedException : Throwable := ⟨"QueueClosedException", "Queue is closed"⟩

variable {α β σ : Type}

def init (maxConcurrency : Nat) (store : σ) : State σ where
  running := true
  queue := []
  workers := List.replicate maxConcurrency .test
  adds _ := .notCalled
  closing := .notCalled
  processed := []
  store := store

/-- `Try` takes what `process` throws, and what its future fails with. -/
def processItem (process : α → Effect Throwable σ β) (item : α) (store : σ) : σ := (exec (process item) store).2

def step (maxSize : Nat) (item : Nat → α) (process : α → Effect Throwable σ β) (s : State σ) : Label → Option (State σ)
  | .readRunning c => match s.adds c with
    | .notCalled =>
      some { s with adds := Function.update s.adds c (if s.running then .running else .returned (.error QueueClosedException)) }
    | _ => none
  | .offer c => match s.adds c with
    | .running =>
      if s.queue.length < maxSize then
        some { s with adds := Function.update s.adds c (.returned (.ok ())), queue := s.queue ++ [c] }
      else some { s with adds := Function.update s.adds c (.returned (.error (QueueFullException maxSize))) }
    | _ => none
  | .loop w => match s.workers[w]? with
    | some .test => some { s with workers := s.workers.set w (if s.running || !s.queue.isEmpty then .poll else .ended) }
    | _ => none
  | .poll w => match s.workers[w]?, s.queue with
    | some .poll, c :: queue => some { s with workers := s.workers.set w (.process c), queue := queue }
    -- after 500 milliseconds without an item
    | some .poll, [] => some { s with workers := s.workers.set w .test }
    | _, _ => none
  | .process w => match s.workers[w]? with
    | some (.process c) => some { s with
        workers := s.workers.set w .test, processed := s.processed ++ [c], store := processItem process (item c) s.store }
    | _ => none
  | .close => match s.closing with
    | .notCalled => some { s with running := false, closing := .joining }
    | _ => none
  | .join => match s.closing with
    | .joining => if s.workers.all (· = .ended) then some { s with closing := .completed } else none
    | _ => none

/-! ## What a step can do -/

section Step
variable (maxSize : Nat) (item : Nat → α) (process : α → Effect Throwable σ β)

inductive Step : State σ → Label → State σ → Prop where
  | readRunning {s : State σ} (c : Nat) (hadd : s.adds c = .notCalled) : Step s (.readRunning c)
      { s with adds := Function.update s.adds c (if s.running then .running else .returned (.error QueueClosedException)) }
  | accept {s : State σ} (c : Nat) (hadd : s.adds c = .running) (hroom : s.queue.length < maxSize) : Step s (.offer c)
      { s with adds := Function.update s.adds c (.returned (.ok ())), queue := s.queue ++ [c] }
  | full {s : State σ} (c : Nat) (hadd : s.adds c = .running) (hfull : ¬ s.queue.length < maxSize) : Step s (.offer c)
      { s with adds := Function.update s.adds c (.returned (.error (QueueFullException maxSize))) }
  | goOn {s : State σ} (w : Nat) (hw : s.workers[w]? = some .test) (hloop : s.running = true ∨ s.queue ≠ []) : Step s (.loop w)
      { s with workers := s.workers.set w .poll }
  | leave {s : State σ} (w : Nat) (hw : s.workers[w]? = some .test) (hrunning : s.running = false) (hempty : s.queue = []) :
      Step s (.loop w) { s with workers := s.workers.set w .ended }
  | take {s : State σ} (w c : Nat) (queue : List Nat) (hw : s.workers[w]? = some .poll) (hqueue : s.queue = c :: queue) :
      Step s (.poll w) { s with workers := s.workers.set w (.process c), queue := queue }
  | timeout {s : State σ} (w : Nat) (hw : s.workers[w]? = some .poll) (hempty : s.queue = []) : Step s (.poll w)
      { s with workers := s.workers.set w .test }
  | process {s : State σ} (w c : Nat) (hw : s.workers[w]? = some (.process c)) : Step s (.process w)
      { s with
        workers := s.workers.set w .test, processed := s.processed ++ [c], store := processItem process (item c) s.store }
  | close {s : State σ} (hclosing : s.closing = .notCalled) : Step s .close { s with running := false, closing := .joining }
  | join {s : State σ} (hclosing : s.closing = .joining) (hended : ∀ w ∈ s.workers, w = .ended) : Step s .join
      { s with closing := .completed }

variable {maxSize item process} {s s' : State σ}

theorem step_cases {label : Label} (h : step maxSize item process s label = some s') :
    Step maxSize item process s label s' := by
  cases label with
  | readRunning c =>
    simp only [step] at h
    split at h
    · rename_i hadd
      exact Option.some.inj h ▸ .readRunning c hadd
    · cases h
  | offer c =>
    simp only [step] at h
    split at h
    · rename_i hadd
      split at h
      · rename_i hroom
        exact Option.some.inj h ▸ .accept c hadd hroom
      · rename_i hfull
        exact Option.some.inj h ▸ .full c hadd hfull
    · cases h
  | loop w =>
    simp only [step] at h
    split at h
    · rename_i hw
      obtain rfl := Option.some.inj h
      split
      · rename_i hloop
        refine .goOn w hw ?_
        simpa using hloop
      · rename_i hloop
        rw [Bool.or_eq_true, not_or] at hloop
        exact .leave w hw (by simpa using hloop.1) (by simpa using hloop.2)
    · cases h
  | poll w =>
    simp only [step] at h
    split at h
    · rename_i c queue hw hqueue
      exact Option.some.inj h ▸ .take w c queue hw hqueue
    · rename_i hw hempty
      exact Option.some.inj h ▸ .timeout w hw hempty
    · cases h
  | process w =>
    simp only [step] at h
    split at h
    · rename_i c hw
      exact Option.some.inj h ▸ .process w c hw
    · cases h
  | close =>
    simp only [step] at h
    split at h
    · rename_i hclosing
      exact Option.some.inj h ▸ .close hclosing
    · cases h
  | join =>
    simp only [step] at h
    split at h
    · rename_i hclosing
      split at h
      · rename_i hended
        refine Option.some.inj h ▸ .join hclosing (fun w hw => ?_)
        simpa using List.all_eq_true.1 hended w hw
      · cases h
    · cases h

end Step

/-! ## What is accepted -/

section Held
variable {maxSize : Nat} {item : Nat → α} {process : α → Effect Throwable σ β} {s s' : State σ} {label : Label}

/-- The item in the hands of a worker. -/
def Worker.holding : Worker → Option Nat
  | .process c => some c
  | _ => none

/-- The items in the queue, in the hands of a worker, or processed. -/
def State.held (s : State σ) : List Nat := s.queue ++ (s.workers.filterMap Worker.holding ++ s.processed)

/-- What is accepted is somewhere, once. -/
structure Accounted (s : State σ) : Prop where
  nodup : s.held.Nodup
  mem_held : ∀ c, c ∈ s.held ↔ s.adds c = .returned (.ok ())

/-- A call that has not returned, or fails, has nothing in the queue. -/
theorem Accounted.update {c : Nat} {a : Adding} (h : Accounted s) (hbefore : s.adds c ≠ .returned (.ok ()))
    (hafter : a ≠ .returned (.ok ())) : Accounted { s with adds := Function.update s.adds c a } := by
  refine ⟨h.nodup, fun d => (h.mem_held d).trans ?_⟩
  dsimp only
  by_cases hd : d = c
  · subst hd
    rw [Function.update_self]
    exact iff_of_false hbefore hafter
  · rw [Function.update_of_ne hd]

theorem Accounted.keep (h : Accounted s) (hadds : s'.adds = s.adds) (hheld : s'.held.Perm s.held) : Accounted s' :=
  ⟨hheld.nodup_iff.2 h.nodup, fun c => by rw [hheld.mem_iff, hadds, h.mem_held]⟩

theorem Accounted.accept {c : Nat} (h : Accounted s) (hbefore : s.adds c ≠ .returned (.ok ())) :
    Accounted { s with adds := Function.update s.adds c (.returned (.ok ())), queue := s.queue ++ [c] } := by
  have hheld : (({ s with adds := Function.update s.adds c (.returned (.ok ())), queue := s.queue ++ [c] } : State σ)).held.Perm
      (c :: s.held) := by
    unfold State.held
    rw [List.append_assoc]
    exact List.perm_middle
  have hnew : c ∉ s.held := fun hc => hbefore ((h.mem_held c).1 hc)
  refine ⟨hheld.nodup_iff.2 (List.nodup_cons.2 ⟨hnew, h.nodup⟩), fun d => ?_⟩
  rw [hheld.mem_iff, List.mem_cons, h.mem_held]
  dsimp only
  by_cases hd : d = c
  · subst hd
    rw [Function.update_self]
    exact iff_of_true (Or.inl rfl) rfl
  · rw [Function.update_of_ne hd, or_iff_right hd]

theorem accounted_step (h : Accounted s) (hstep : step maxSize item process s label = some s') : Accounted s' := by
  cases step_cases hstep with
  | readRunning c hadd =>
    refine h.update (by rw [hadd]; nofun) ?_
    split <;> nofun
  | accept c hadd _ => exact h.accept (by rw [hadd]; nofun)
  | full c hadd _ => exact h.update (by rw [hadd]; nofun) (by nofun)
  | goOn w hw _ => exact h.keep rfl (((Transition.filterMap_set_perm Worker.holding .poll hw).append_right _).append_left _)
  | leave w hw _ _ => exact h.keep rfl (((Transition.filterMap_set_perm Worker.holding .ended hw).append_right _).append_left _)
  | take w c queue hw hqueue =>
    have hset := Transition.filterMap_set_perm Worker.holding (.process c) hw
    refine h.keep rfl ?_
    rw [State.held, State.held, hqueue]
    exact ((hset.append_right _).append_left _).trans List.perm_middle
  | timeout w hw _ => exact h.keep rfl (((Transition.filterMap_set_perm Worker.holding .test hw).append_right _).append_left _)
  | process w c hw =>
    have hset := Transition.filterMap_set_perm Worker.holding .test hw
    refine h.keep rfl (List.Perm.append_left _ ?_)
    dsimp only
    refine (List.Perm.append_left _ (List.perm_append_singleton c s.processed)).trans ?_
    exact List.perm_middle.trans (hset.append_right s.processed)
  | close hclosing => exact h.keep rfl (.refl _)
  | join hclosing hended => exact h.keep rfl (.refl _)

end Held

/-! ## After the last worker has ended -/

section Ended
variable {maxSize : Nat} {item : Nat → α} {process : α → Effect Throwable σ β} {s s' : State σ} {label : Label}

def State.Ended (s : State σ) : Prop := ∀ w ∈ s.workers, w = .ended

theorem State.Ended.ne (h : s.Ended) {n : Nat} {w : Worker} (hw : s.workers[n]? = some w) : w = .ended :=
  h w (List.mem_of_getElem? hw)

theorem ended_step (h : s.Ended) (hstep : step maxSize item process s label = some s') :
    s'.Ended ∧ s.queue ⊆ s'.queue := by
  cases step_cases hstep with
  | readRunning | full | close | join => exact ⟨h, fun _ hc => hc⟩
  | accept => exact ⟨h, fun _ hc => List.mem_append_left _ hc⟩
  | goOn w hw _ | leave w hw _ _ | take w _ _ hw _ | timeout w hw _ | process w _ hw => cases h.ne hw

theorem completed_step (h : s.closing = .completed → s.Ended) (hstep : step maxSize item process s label = some s') :
    s'.closing = .completed → s'.Ended := by
  cases step_cases hstep with
  | readRunning | accept | full => exact h
  | goOn w hw _ | leave w hw _ _ | take w _ _ hw _ | timeout w hw _ | process w _ hw =>
    exact fun hclosing => by cases (h hclosing).ne hw
  | close => nofun
  | join _ hended => exact fun _ => hended

/-- An offer that is accepted is made before the last worker has ended. -/
def InTime (maxSize : Nat) (s : State σ) (label : Label) : Prop :=
  ∀ c, label = .offer c → s.adds c = .running → s.queue.length < maxSize → ∃ w ∈ s.workers, w ≠ .ended

instance (s : State σ) : ∀ label, Decidable (InTime maxSize s label)
  | .offer c =>
    if h : s.adds c = .running → s.queue.length < maxSize → ∃ w ∈ s.workers, w ≠ .ended then
      isTrue (fun _ heq => by cases heq; exact h)
    else isFalse (fun htime => h (htime c rfl))
  | .readRunning _ | .loop _ | .poll _ | .process _ | .close | .join => isTrue nofun

theorem empty_step (h : s.Ended → s.queue = []) (htime : InTime maxSize s label)
    (hstep : step maxSize item process s label = some s') : s'.Ended → s'.queue = [] := by
  cases step_cases hstep with
  | readRunning | full | close | join => exact h
  | accept c hadd hroom =>
    intro hended
    obtain ⟨w, hw, hne⟩ := htime c rfl hadd hroom
    exact (hne (hended w hw)).elim
  | leave w _ _ hempty => exact fun _ => hempty
  | goOn w hw _ | take w _ _ hw _ | timeout w hw _ | process w _ hw =>
    intro hended
    have hset := State.Ended.ne hended (n := w) (List.getElem?_set_self (List.getElem?_eq_some_iff.1 hw).1)
    cases hset

/-- Each item whose `add` succeeded has been processed once, and none whose `add` failed. -/
def ProcessedOnce (s : State σ) : Prop :=
  ∀ c, (s.adds c = .returned (.ok ()) → s.processed.count c = 1) ∧ ∀ e, s.adds c = .returned (.error e) → c ∉ s.processed

theorem Accounted.processedOnce (h : Accounted s) (hended : s.Ended) (hempty : s.queue = []) : ProcessedOnce s := by
  have hhands : s.workers.filterMap Worker.holding = [] :=
    List.filterMap_eq_nil_iff.2 (fun w hw => by rw [hended w hw]; rfl)
  have hheld : s.held = s.processed := by rw [State.held, hempty, hhands, List.nil_append, List.nil_append]
  refine fun c => ⟨fun hok => ?_, fun e herror hc => ?_⟩
  · exact List.count_eq_one_of_mem (hheld ▸ h.nodup) (hheld ▸ (h.mem_held c).2 hok)
  · have hok := (h.mem_held c).1 (hheld ▸ hc)
    rw [herror] at hok
    cases hok

theorem Accounted.not_processedOnce (h : Accounted s) {c : Nat} (hc : c ∈ s.queue) : ¬ ProcessedOnce s := by
  intro honce
  have hcount := (honce c).1 ((h.mem_held c).1 (List.mem_append_left _ hc))
  have hprocessed : c ∈ s.processed := List.count_pos_iff.1 (by omega)
  exact (List.nodup_append.1 h.nodup).2.2 c hc c (List.mem_append_right _ hprocessed) rfl

end Ended

/-! ## Runs -/

section Runs
variable {maxSize : Nat} {item : Nat → α} {process : α → Effect Throwable σ β} {next : State σ → Label → Option (State σ)}

/-- What the steps of a queue keep, as far as the items are concerned. -/
structure KeepsItems (maxSize : Nat) (next : State σ → Label → Option (State σ)) : Prop where
  accounted : ∀ s label s', Accounted s → next s label = some s' → Accounted s'
  ended : ∀ s label s', s.Ended → next s label = some s' → s'.Ended ∧ s.queue ⊆ s'.queue
  completed : ∀ s label s', (s.closing = .completed → s.Ended) → next s label = some s' → s'.closing = .completed → s'.Ended
  empty : ∀ s label s', (s.Ended → s.queue = []) → InTime maxSize s label → next s label = some s' → s'.Ended → s'.queue = []
  accepted : ∀ s c s', s.queue.length < maxSize → next s (.offer c) = some s' → c ∈ s'.queue

theorem keepsItems : KeepsItems maxSize (step maxSize item process) where
  accounted _ _ _ := accounted_step
  ended _ _ _ := ended_step
  completed _ _ _ := completed_step
  empty _ _ _ := empty_step
  accepted s c s' hroom hstep := by
    cases step_cases hstep with
    | accept => exact List.mem_append_right _ (List.mem_singleton_self c)
    | full _ _ hfull => exact (hfull hroom).elim

theorem accounted_init (maxConcurrency : Nat) (store : σ) : Accounted (init maxConcurrency store) := by
  have hheld : (init maxConcurrency store).held = [] := by
    refine (List.append_nil _).trans (List.filterMap_eq_nil_iff.2 (fun w hw => ?_))
    rw [List.eq_of_mem_replicate hw]
    rfl
  refine ⟨by rw [hheld]; exact List.nodup_nil, fun c => ?_⟩
  rw [hheld]
  exact iff_of_false List.not_mem_nil nofun

namespace KeepsItems
variable {maxConcurrency : Nat} {store : σ} {labels : List Label} {s s' : State σ}

theorem run_ended (h : KeepsItems maxSize next) (hended : s.Ended) (hrun : Transition.run next s labels = some s') :
    s'.Ended ∧ s.queue ⊆ s'.queue :=
  Transition.run_invariant (P := fun s' => s'.Ended ∧ s.queue ⊆ s'.queue)
    (fun _ _ _ hm hstep => ⟨(h.ended _ _ _ hm.1 hstep).1, fun _ hc => (h.ended _ _ _ hm.1 hstep).2 (hm.2 hc)⟩)
    ⟨hended, fun _ hc => hc⟩ hrun

variable (h : KeepsItems maxSize next) (hrun : Transition.run next (init maxConcurrency store) labels = some s)
include h hrun

theorem run_accounted : Accounted s :=
  Transition.run_invariant h.accounted (accounted_init maxConcurrency store) hrun

theorem run_completed : s.closing = .completed → s.Ended :=
  Transition.run_invariant (P := fun s : State σ => s.closing = .completed → s.Ended) h.completed (by nofun) hrun

theorem run_empty (hmeets : Transition.Meets next (InTime maxSize) (init maxConcurrency store) labels) :
    s.Ended → s.queue = [] :=
  Transition.run_invariant_of_meets (P := fun s : State σ => s.Ended → s.queue = []) h.empty (fun _ => rfl) hmeets hrun

theorem once_iff (hclosed : s.closing = .completed) :
    ProcessedOnce s ↔ Transition.Meets next (InTime maxSize) (init maxConcurrency store) labels := by
  constructor
  · intro honce
    by_contra hnot
    obtain ⟨before, label, after, m, m', -, -, hlate, hstep, hafter⟩ := Transition.exists_of_not_meets hrun hnot
    unfold InTime at hlate
    push Not at hlate
    obtain ⟨c, rfl, -, hroom, hnone⟩ := hlate
    -- the item is in the queue when all workers have ended, and stays there
    have hqueued := (h.run_ended (h.ended _ _ _ hnone hstep).1 hafter).2 (h.accepted _ _ _ hroom hstep)
    exact (h.run_accounted hrun).not_processedOnce hqueued honce
  · intro hmeets
    have hended := h.run_completed hrun hclosed
    exact (h.run_accounted hrun).processedOnce hended (h.run_empty hrun hmeets hended)

end KeepsItems
end Runs

/-- **When all that was accepted has been processed once `close` has completed**: no offer came after the last worker had
ended. -/
theorem processedOnce_iff (maxSize maxConcurrency : Nat) (item : Nat → α) (process : α → Effect Throwable σ β) (store : σ)
    (labels : List Label) (s : State σ)
    (hrun : Transition.run (step maxSize item process) (init maxConcurrency store) labels = some s)
    (hclosed : s.closing = .completed) :
    ProcessedOnce s ↔ Transition.Meets (step maxSize item process) (InTime maxSize) (init maxConcurrency store) labels :=
  keepsItems.once_iff hrun hclosed

/-- An instance of `process`, which keeps what it is passed. -/
def keepItem (n : Nat) : Effect Throwable (List Nat) Unit := .of fun l => (.ok (), l ++ [n])

theorem processedOnce_inTime : ∃ s, Transition.run (step 10 id keepItem) (init 1 [])
      [.readRunning 0, .offer 0, .close, .loop 0, .poll 0, .process 0, .loop 0, .join] = some s ∧
    s.closing = .completed ∧ s.store = [0] ∧ ProcessedOnce s := by
  refine ⟨_, rfl, rfl, rfl, (processedOnce_iff 10 1 id keepItem []
    [.readRunning 0, .offer 0, .close, .loop 0, .poll 0, .process 0, .loop 0, .join] _ rfl rfl).2 ?_⟩
  decide

/-- The call reads `running` before the close, and offers its item when `close` has completed. -/
theorem not_processedOnce_late : ∃ s, Transition.run (step 10 id keepItem) (init 1 [])
      [.readRunning 0, .close, .loop 0, .join, .offer 0] = some s ∧
    s.closing = .completed ∧ s.store = [] ∧ ¬ ProcessedOnce s :=
  ⟨_, rfl, rfl, rfl, fun h => absurd ((h 0).1 rfl) (by decide)⟩

end ItemQueue
end Zipkin
