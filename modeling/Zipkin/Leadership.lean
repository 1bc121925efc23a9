import Mathlib.Algebra.Group.Action.Defs
import Mathlib.Algebra.Order.BigOperators.Group.List
import Mathlib.Algebra.Order.Ring.Nat
import Zipkin.Base.Transition
/-!
# Leadership — offering leadership and giving it up

`offerLeadership` of `ZooKeeperClient.scala`.  Whoever is elected is given a command that gives the leadership up, which
`onElected` keeps in `abdicate` until `close` takes it, or executes at once if it finds that it is closed.  The calls of
`onElected`, the task that `close` puts into the pool and the defeats take their steps in any order.

`onElected` looks at `closed` before it puts the command into `abdicate`, so that `close` can find nothing there and the
command stays: that leadership is never given up (`kept_of_take`).
-/
namespace Zipkin

open Transition

/-- Where a call of `onElected` is. -/
inductive OnElected where
  /-- It found `closed`. -/
  | refused
  | gaveUp
  /-- It found that it is not closed. -/
  | accepted
  /-- `abdicate` has been set. -/
  | set
  | returned
deriving DecidableEq, Repr

/-- Where the task of `close` is. -/
inductive Closing where
  | notCalled
  | queued
  /-- `abdicate.getAndSet(null)` -/
  | took (cmd : Option Nat)
  | done (cmd : Option Nat)
deriving DecidableEq, Repr

/-- The n-th call of `onElected` has the command n. -/
structure Leadership where
  data : Bool := false
  closed : Bool := false
  abdicate : Option Nat := none
  onElected : List OnElected := []
  closing : Closing := .notCalled
  /-- The commands that were executed, latest first. -/
  executed : List Nat := []
deriving DecidableEq, Repr

namespace Leadership

inductive Event where
  /-- `onElected` is called and looks at `closed`. -/
  | elected
  /-- The call executes its command. -/
  | giveUp (cmd : Nat)
  /-- `abdicate.set(cmd)` -/
  | set (cmd : Nat)
  /-- `data.update(true)` -/
  | update (cmd : Nat)
  | defeated
  | close
  /-- The task of `close` takes what `abdicate` has. -/
  | take
  /-- It executes it, if there is a command. -/
  | abdicate
deriving DecidableEq, Repr

def step (s : Leadership) : Event → Option Leadership
  | .elected => some { s with onElected := s.onElected ++ [if s.closed then .refused else .accepted] }
  | .giveUp cmd => match s.onElected[cmd]? with
    | some .refused => some { s with onElected := s.onElected.set cmd .gaveUp, executed := cmd :: s.executed }
    | _ => none
  | .set cmd => match s.onElected[cmd]? with
    | some .accepted => some { s with onElected := s.onElected.set cmd .set, abdicate := some cmd }
    | _ => none
  | .update cmd => match s.onElected[cmd]? with
    | some .set => some { s with onElected := s.onElected.set cmd .returned, data := true }
    | _ => none
  | .defeated => some { s with data := false }
  -- `closed.getAndSet(true)`: the pool is given a task by the first call only
  | .close => some { s with closed := true, closing := if s.closed then s.closing else .queued }
  | .take => match s.closing with
    | .queued => some { s with abdicate := none, closing := .took s.abdicate }
    | _ => none
  | .abdicate => match s.closing with
    | .took cmd => some { s with closing := .done cmd, executed := cmd.toList ++ s.executed }
    | _ => none

/-- What a step can be. -/
inductive Takes (s : Leadership) : Event → Leadership → Prop
  | elected : Takes s .elected { s with onElected := s.onElected ++ [if s.closed then .refused else .accepted] }
  | giveUp {cmd : Nat} (h : s.onElected[cmd]? = some .refused) :
    Takes s (.giveUp cmd) { s with onElected := s.onElected.set cmd .gaveUp, executed := cmd :: s.executed }
  | set {cmd : Nat} (h : s.onElected[cmd]? = some .accepted) :
    Takes s (.set cmd) { s with onElected := s.onElected.set cmd .set, abdicate := some cmd }
  | update {cmd : Nat} (h : s.onElected[cmd]? = some .set) :
    Takes s (.update cmd) { s with onElected := s.onElected.set cmd .returned, data := true }
  | defeated : Takes s .defeated { s with data := false }
  | close : Takes s .close { s with closed := true, closing := if s.closed then s.closing else .queued }
  | take (h : s.closing = .queued) : Takes s .take { s with abdicate := none, closing := .took s.abdicate }
  | abdicate {cmd : Option Nat} (h : s.closing = .took cmd) :
    Takes s .abdicate { s with closing := .done cmd, executed := cmd.toList ++ s.executed }

variable {s s' : Leadership} {event : Event} {events : List Event} {cmd : Nat}

theorem takes_of_step (hstep : s.step event = some s') : Takes s event s' := by
  cases event with
  | elected => exact Option.some.inj hstep ▸ .elected
  | defeated => exact Option.some.inj hstep ▸ .defeated
  | close => exact Option.some.inj hstep ▸ .close
  | giveUp cmd | set cmd | update cmd | take | abdicate =>
    simp only [step] at hstep
    split at hstep
    · rename_i h
      obtain rfl := Option.some.inj hstep
      constructor
      exact h
    · cases hstep

/-! ## What has been executed -/

/-- The command that was put into `abdicate` last. -/
def lastSet (events : List Event) : Option Nat :=
  events.foldl (fun last event => match event with
    | .set cmd => some cmd
    | _ => last) none

/-- The call was made after `close`. -/
def Refused (events : List Event) (cmd : Nat) : Prop :=
  ∃ before, before ++ [.elected] <+: events ∧ before.count .elected = cmd ∧ .close ∈ before

/-- The task of `close` takes what was put into `abdicate` last. -/
def Taken (events : List Event) (cmd : Option Nat) : Prop :=
  ∃ before, before ++ [.take] <+: events ∧ lastSet before = cmd

/-- **Who gives up**: who is elected after `close`, and who was the last to put the command into `abdicate` before the task
of `close` took it. -/
def GivesUp (events : List Event) (cmd : Nat) : Prop := Refused events cmd ∨ Taken events (some cmd)

theorem lastSet_concat : lastSet (events ++ [event]) = match event with
    | .set cmd => some cmd
    | _ => lastSet events := by
  rw [lastSet, List.foldl_append]
  rfl

theorem exists_prefix_concat {P : List Event → Prop} {e : Event} :
    (∃ before, before ++ [e] <+: events ++ [event] ∧ P before) ↔
      (∃ before, before ++ [e] <+: events ∧ P before) ∨ event = e ∧ P events := by
  simp only [List.prefix_concat_iff, List.append_singleton_inj]
  constructor
  · rintro ⟨before, ⟨rfl, rfl⟩ | hprefix, h⟩
    · exact Or.inr ⟨rfl, h⟩
    · exact Or.inl ⟨before, hprefix, h⟩
  · rintro (⟨before, hprefix, h⟩ | ⟨rfl, h⟩)
    · exact ⟨before, Or.inr hprefix, h⟩
    · exact ⟨events, Or.inl ⟨rfl, rfl⟩, h⟩

theorem refused_concat : Refused (events ++ [event]) cmd ↔
    Refused events cmd ∨ event = .elected ∧ events.count .elected = cmd ∧ .close ∈ events :=
  exists_prefix_concat

theorem taken_concat {cmd : Option Nat} : Taken (events ++ [event]) cmd ↔
    Taken events cmd ∨ event = .take ∧ lastSet events = cmd :=
  exists_prefix_concat

/-! ## What the steps preserve -/

theorem getElem?_set_of_some {l : List OnElected} {n : Nat} {a : OnElected} (h : l[n]? = some a) (b : OnElected) (m : Nat) :
    (l.set n b)[m]? = if n = m then some b else l[m]? := by
  rw [List.getElem?_set, if_pos (List.getElem?_eq_some_iff.1 h).1]

/-- The calls of `onElected`: they are refused after the first `close`. -/
structure Called (events : List Event) (s : Leadership) : Prop where
  closed_iff : s.closed = true ↔ .close ∈ events
  length_eq : s.onElected.length = events.count .elected
  refused_iff : ∀ cmd, (s.onElected[cmd]? = some .refused ∨ s.onElected[cmd]? = some .gaveUp) ↔ Refused events cmd

/-- What `abdicate` has, and what has been taken from it. -/
structure Kept (events : List Event) (s : Leadership) : Prop where
  notCalled_iff : s.closing = .notCalled ↔ s.closed = false
  abdicate_eq : s.closing = .notCalled ∨ s.closing = .queued → s.abdicate = lastSet events
  taken_iff : ∀ cmd, (s.closing = .took cmd ∨ s.closing = .done cmd) ↔ Taken events cmd

/-- What has been executed: no command that the task of `close` has taken is one of a call that was refused. -/
structure Gave (s : Leadership) : Prop where
  accepted : ∀ cmd, s.abdicate = some cmd ∨ s.closing = .took (some cmd) ∨ s.closing = .done (some cmd) →
    s.onElected[cmd]? = some .set ∨ s.onElected[cmd]? = some .returned
  executed_iff : ∀ cmd, cmd ∈ s.executed ↔ s.onElected[cmd]? = some .gaveUp ∨ s.closing = .done (some cmd)
  nodup : s.executed.Nodup

theorem getElem?_concat {l : List OnElected} (a : OnElected) (n : Nat) :
    (l ++ [a])[n]? = if l.length = n then some a else l[n]? := by
  split
  · rename_i h
    exact h ▸ List.getElem?_concat_length
  · rename_i h
    rw [List.getElem?_append]
    split
    · rfl
    · rename_i hlt
      rw [List.getElem?_singleton, if_neg (by omega), List.getElem?_eq_none (by omega)]

theorem Called.step (h : Called events s) (hstep : s.step event = some s') : Called (events ++ [event]) s' := by
  have hmem : ∀ e : Event, e ∈ events ++ [event] ↔ e ∈ events ∨ event = e := fun e => by
    rw [List.mem_append, List.mem_singleton, eq_comm (a := e)]
  cases takes_of_step hstep with
  | elected =>
    refine ⟨by simp [hmem, h.closed_iff], by simp [h.length_eq], fun cmd => ?_⟩
    rw [refused_concat, ← h.refused_iff, ← h.closed_iff, ← h.length_eq, getElem?_concat]
    by_cases hcmd : s.onElected.length = cmd
    · subst hcmd
      cases s.closed <;> simp
    · simp [hcmd]
  | giveUp hphase | set hphase | update hphase =>
    refine ⟨by simp [hmem, h.closed_iff], by simp [h.length_eq], fun cmd => ?_⟩
    rw [refused_concat, ← h.refused_iff, getElem?_set_of_some hphase]
    split
    · rename_i heq
      subst heq
      simp [hphase]
    · simp
  | close | defeated | take | abdicate =>
    refine ⟨by simp [hmem, h.closed_iff], by simp [h.length_eq], fun cmd => ?_⟩
    rw [refused_concat, ← h.refused_iff]
    simp

theorem Kept.step (h : Kept events s) (hstep : s.step event = some s') : Kept (events ++ [event]) s' := by
  cases takes_of_step hstep with
  | elected | giveUp hphase | update hphase | defeated =>
    refine ⟨h.notCalled_iff, fun hclosing => ?_, fun cmd => ?_⟩
    · rw [lastSet_concat]
      exact h.abdicate_eq hclosing
    · rw [taken_concat, ← h.taken_iff]
      simp
  | set hphase =>
    refine ⟨h.notCalled_iff, fun hclosing => ?_, fun cmd => ?_⟩
    · rw [lastSet_concat]
    · rw [taken_concat, ← h.taken_iff]
      simp
  | close =>
    cases hclosed : s.closed with
    | true =>
      refine ⟨h.notCalled_iff.trans (by rw [hclosed]), fun hclosing => ?_, fun cmd => ?_⟩
      · rw [lastSet_concat]
        exact h.abdicate_eq hclosing
      · rw [taken_concat, ← h.taken_iff]
        simp
    | false =>
      have hclosing := h.notCalled_iff.2 hclosed
      refine ⟨iff_of_false nofun nofun, fun _ => ?_, fun cmd => ?_⟩
      · rw [lastSet_concat]
        exact h.abdicate_eq (Or.inl hclosing)
      · rw [taken_concat, ← h.taken_iff, hclosing]
        simp
  | take hclosing =>
    have hkept := h.abdicate_eq (Or.inr hclosing)
    refine ⟨iff_of_false nofun fun hclosed => ?_, nofun, fun cmd => ?_⟩
    · cases hclosing.symm.trans (h.notCalled_iff.2 hclosed)
    · rw [taken_concat, ← h.taken_iff, hclosing, ← hkept]
      simp
  | @abdicate cmd hclosing =>
    refine ⟨iff_of_false nofun fun hclosed => ?_, nofun, fun cmd => ?_⟩
    · cases hclosing.symm.trans (h.notCalled_iff.2 hclosed)
    · rw [taken_concat, ← h.taken_iff, hclosing]
      simp

theorem Gave.accepted_step (h : Gave s) (htakes : Takes s event s') (cmd : Nat)
    (hcmd : s'.abdicate = some cmd ∨ s'.closing = .took (some cmd) ∨ s'.closing = .done (some cmd)) :
    s'.onElected[cmd]? = some .set ∨ s'.onElected[cmd]? = some .returned := by
  cases htakes with
  | elected =>
    rw [getElem?_concat, if_neg]
    · exact h.accepted cmd hcmd
    · rintro rfl
      simpa using h.accepted _ hcmd
  | giveUp hphase =>
    rw [getElem?_set_of_some hphase, if_neg]
    · exact h.accepted cmd hcmd
    · rintro rfl
      simpa [hphase] using h.accepted _ hcmd
  | set hphase | update hphase =>
    rw [getElem?_set_of_some hphase]
    split
    · simp
    · rename_i hne
      refine h.accepted cmd (hcmd.imp_left fun habdicate => ?_)
      first
        | exact habdicate
        | exact absurd (Option.some.inj habdicate) hne
  | defeated => exact h.accepted cmd hcmd
  | close =>
    cases hclosed : s.closed with
    | true => exact h.accepted cmd (by simpa [hclosed] using hcmd)
    | false =>
      refine h.accepted cmd (hcmd.imp_right fun hclosing => ?_)
      rw [hclosed] at hclosing
      cases hclosing with
      | inl hclosing => cases hclosing
      | inr hclosing => cases hclosing
  | take hclosing => exact h.accepted cmd (Or.inl (by simpa using hcmd))
  | abdicate hclosing =>
    refine h.accepted cmd ?_
    rw [hclosing]
    simpa using hcmd

theorem Gave.executed_step (h : Gave s) (hkept : Kept events s) (htakes : Takes s event s') (cmd : Nat) :
    cmd ∈ s'.executed ↔ s'.onElected[cmd]? = some .gaveUp ∨ s'.closing = .done (some cmd) := by
  cases htakes with
  | elected =>
    rw [h.executed_iff, getElem?_concat]
    split
    · rename_i heq
      subst heq
      cases s.closed <;> simp
    · rfl
  | giveUp hphase =>
    rw [List.mem_cons, h.executed_iff, getElem?_set_of_some hphase]
    split
    · rename_i heq
      exact iff_of_true (Or.inl heq.symm) (Or.inl rfl)
    · rename_i hcmd
      exact or_iff_right (Ne.symm hcmd)
  | set hphase | update hphase =>
    rw [h.executed_iff, getElem?_set_of_some hphase]
    split
    · rename_i heq
      subst heq
      simp [hphase]
    · rfl
  | defeated => exact h.executed_iff cmd
  | close =>
    rw [h.executed_iff]
    cases hclosed : s.closed with
    | true => simp
    | false => simp [hkept.notCalled_iff.2 hclosed]
  | take hclosing =>
    rw [h.executed_iff, hclosing]
    simp
  | abdicate hclosing =>
    rw [List.mem_append, h.executed_iff, hclosing]
    simp [or_comm]

/-- A command is executed when its call is refused or when the task of `close` has taken it, and no command is both. -/
theorem Gave.nodup_step (h : Gave s) (htakes : Takes s event s') : s'.executed.Nodup := by
  cases htakes with
  | @giveUp n hphase =>
    refine List.nodup_cons.2 ⟨fun hmem => ?_, h.nodup⟩
    rcases (h.executed_iff n).1 hmem with hgave | hdone
    · cases hphase.symm.trans hgave
    · simpa [hphase] using h.accepted n (Or.inr (Or.inr hdone))
  | @abdicate taken hclosing =>
    cases taken with
    | none => exact h.nodup
    | some n =>
      refine List.nodup_cons.2 ⟨fun hmem => ?_, h.nodup⟩
      have haccepted := h.accepted n (Or.inr (Or.inl hclosing))
      rcases (h.executed_iff n).1 hmem with hgave | hdone
      · simp [hgave] at haccepted
      · cases hclosing.symm.trans hdone
  | elected | set | update | defeated | close | take => exact h.nodup

theorem Gave.step (h : Gave s) (hkept : Kept events s) (hstep : s.step event = some s') : Gave s' :=
  have htakes := takes_of_step hstep
  ⟨h.accepted_step htakes, h.executed_step hkept htakes, h.nodup_step htakes⟩

/-! ## Every run -/

theorem called_of_run (hrun : run step {} events = some s) : Called events s :=
  run_history ⟨by simp, rfl, fun cmd => by simp [Refused]⟩ (fun _ _ _ _ => Called.step) hrun

theorem kept_of_run (hrun : run step {} events = some s) : Kept events s :=
  run_history ⟨iff_of_true rfl rfl, fun _ => rfl, fun cmd => by simp [Taken]⟩ (fun _ _ _ _ => Kept.step) hrun

theorem gave_of_run (hrun : run step {} events = some s) : Gave s := by
  have h : Kept events s ∧ Gave s := by
    refine run_history (P := fun events s => Kept events s ∧ Gave s)
      ⟨kept_of_run rfl, by simp, by simp, List.nodup_nil⟩ ?_ hrun
    exact fun _ _ _ _ ⟨hkept, hgave⟩ hstep => ⟨hkept.step hstep, hgave.step hkept hstep⟩
  exact h.2

/-- The calls and the task of `close` have returned. -/
structure Settled (s : Leadership) : Prop where
  done : ∃ cmd, s.closing = .done cmd
  returned : ∀ call ∈ s.onElected, call = .gaveUp ∨ call = .returned

/-- The task of `close` has taken `cmd`. -/
def HasTaken (cmd : Option Nat) (s : Leadership) : Prop := s.closing = .took cmd ∨ s.closing = .done cmd

theorem closed_of_hasTaken {cmd : Option Nat} (hkept : Kept events s) (h : HasTaken cmd s) : s.closed = true := by
  by_contra hopen
  rw [HasTaken, hkept.notCalled_iff.2 (Bool.not_eq_true _ ▸ hopen)] at h
  simp at h

/-- **The task takes one command**, and none later. -/
theorem hasTaken_step {cmd : Option Nat} (h : s.closed = true ∧ HasTaken cmd s) (hstep : s.step event = some s') :
    s'.closed = true ∧ HasTaken cmd s' := by
  obtain ⟨hclosed, htaken⟩ := h
  cases takes_of_step hstep with
  | elected | giveUp | set | update | defeated => exact ⟨hclosed, htaken⟩
  | close =>
    refine ⟨rfl, ?_⟩
    rw [HasTaken, if_pos hclosed]
    exact htaken
  | take hclosing => simp [HasTaken, hclosing] at htaken
  | abdicate hclosing =>
    refine ⟨hclosed, Or.inr ?_⟩
    simpa [HasTaken, hclosing] using htaken

/-- A call that has put its command into `abdicate` goes on to return, and one that has returned stays so. -/
theorem phase_step {n : Nat} {phase : OnElected} (h : phase = .gaveUp ∨ phase = .returned)
    (hphase : s.onElected[n]? = some phase) (hstep : s.step event = some s') : s'.onElected[n]? = some phase := by
  cases takes_of_step hstep with
  | elected =>
    rw [getElem?_concat, if_neg (Nat.ne_of_gt (List.getElem?_eq_some_iff.1 hphase).1)]
    exact hphase
  | giveUp hcall | set hcall | update hcall =>
    rw [getElem?_set_of_some hcall, if_neg]
    · exact hphase
    · rintro rfl
      rw [hcall] at hphase
      rcases h with rfl | rfl <;> cases hphase
  | close | defeated | take | abdicate => exact hphase

/-- A call that has put its command into `abdicate` does not execute it. -/
theorem set_step {n : Nat} (h : s.onElected[n]? = some .set ∨ s.onElected[n]? = some .returned)
    (hstep : s.step event = some s') : s'.onElected[n]? = some .set ∨ s'.onElected[n]? = some .returned := by
  rcases h with h | h
  · cases takes_of_step hstep with
    | elected =>
      rw [getElem?_concat, if_neg (Nat.ne_of_gt (List.getElem?_eq_some_iff.1 h).1)]
      exact Or.inl h
    | giveUp hcall | set hcall | update hcall =>
      rw [getElem?_set_of_some hcall]
      split
      · rename_i heq
        subst heq
        simp [h] at hcall ⊢
      · exact Or.inl h
    | close | defeated | take | abdicate => exact Or.inl h
  · exact Or.inr (phase_step (Or.inr rfl) h hstep)

theorem settled_done_step {cmd : Option Nat} (h : s.closed = true ∧ s.closing = .done cmd) (hstep : s.step event = some s') :
    s'.closed = true ∧ s'.closing = .done cmd := by
  obtain ⟨hclosed, hdone⟩ := h
  cases takes_of_step hstep with
  | elected | giveUp | set | update | defeated => exact ⟨hclosed, hdone⟩
  | close => exact ⟨rfl, (if_pos hclosed).trans hdone⟩
  | take hclosing | abdicate hclosing => cases hclosing.symm.trans hdone

/-- **Which leaderships are given up** once the calls and the task of `close` have returned, in whatever order they took their
steps: those of the calls after `close`, and that whose command was put into `abdicate` last before the task took it.  No
command is executed twice, and one that has not been executed by then never is. -/
theorem executed_iff (events more : List Event) (s s' : Leadership) (hrun : run step {} events = some s) (hsettled : Settled s)
    (hmore : run step s more = some s') :
    s'.executed.Nodup ∧ ∀ cmd < events.count .elected, cmd ∈ s'.executed ↔ GivesUp events cmd := by
  have hgave := gave_of_run (run_append.2 ⟨s, hrun, hmore⟩)
  refine ⟨hgave.nodup, fun cmd hcmd => ?_⟩
  have hcalled := called_of_run hrun
  have hkept := kept_of_run hrun
  obtain ⟨taken, hdone⟩ := hsettled.done
  obtain ⟨call, hcall⟩ : ∃ call, s.onElected[cmd]? = some call :=
    ⟨_, List.getElem?_eq_getElem (hcalled.length_eq ▸ hcmd)⟩
  have hreturned := hsettled.returned call (List.mem_of_getElem? hcall)
  have hcall' : s'.onElected[cmd]? = some call := run_invariant (fun _ _ _ => phase_step hreturned) hcall hmore
  have hclosed : s.closed = true := closed_of_hasTaken hkept (Or.inr hdone)
  obtain ⟨-, hdone'⟩ := run_invariant (fun _ _ _ => settled_done_step) ⟨hclosed, hdone⟩ hmore
  rw [hgave.executed_iff, GivesUp, ← hcalled.refused_iff, ← hkept.taken_iff, hcall, hcall', hdone, hdone']
  rcases hreturned with rfl | rfl <;> simp

/-- Two are elected before `close`, and one after it. -/
def threeElected : List Event :=
  [.elected, .set 0, .update 0, .elected, .set 1, .close, .elected, .update 1, .take, .giveUp 2, .abdicate]

theorem executed_iff_three : ¬ GivesUp threeElected 0 ∧ GivesUp threeElected 1 ∧ GivesUp threeElected 2 := by
  obtain ⟨-, hgives⟩ := executed_iff threeElected [] ⟨true, true, none, [.returned, .returned, .gaveUp], .done (some 1), [1, 2]⟩
    _ rfl ⟨⟨some 1, rfl⟩, by decide⟩ rfl
  refine ⟨fun hgives₀ => ?_, (hgives 1 (by decide)).1 (by decide), (hgives 2 (by decide)).1 (by decide)⟩
  exact absurd ((hgives 0 (by decide)).2 hgives₀) (by decide)

/-- **A leadership that comes while it is being closed is kept**: a command that is put into `abdicate` after the task of
`close` took what was there is never executed, whatever happens later. -/
theorem kept_of_take (before after : List Event) (cmd : Nat) (s : Leadership)
    (hrun : run step {} (before ++ .set cmd :: after) = some s) (htake : .take ∈ before) : cmd ∉ s.executed := by
  obtain ⟨m, hbefore, hafter⟩ := run_append.1 hrun
  obtain ⟨m', hset, hafter⟩ := run_cons.1 hafter
  obtain ⟨earlier, later, rfl⟩ := List.append_of_mem htake
  have hkept := kept_of_run hbefore
  have htaken : HasTaken (lastSet earlier) m :=
    (hkept.taken_iff _).2 ⟨earlier, ⟨later, by rw [List.append_assoc, List.singleton_append]⟩, rfl⟩
  -- the call was still to put its command into `abdicate`, so that the task took another
  obtain ⟨hcall, hcall'⟩ : m.onElected[cmd]? = some .accepted ∧ m'.onElected[cmd]? = some .set := by
    cases takes_of_step hset with
    | set hcall => exact ⟨hcall, by rw [getElem?_set_of_some hcall, if_pos rfl]⟩
  have hne : lastSet earlier ≠ some cmd := fun heq => by
    rw [heq] at htaken
    have haccepted := (gave_of_run hbefore).accepted cmd (Or.inr htaken)
    simp [hcall] at haccepted
  have hclosed := closed_of_hasTaken hkept htaken
  obtain ⟨-, htaken'⟩ := run_invariant (fun _ _ _ => hasTaken_step) (hasTaken_step ⟨hclosed, htaken⟩ hset) hafter
  have hcall'' := run_invariant (fun _ _ _ => set_step) (Or.inl hcall') hafter
  intro hmem
  rcases ((gave_of_run hrun).executed_iff cmd).1 hmem with hgave | hdone
  · simp [hgave] at hcall''
  · rcases htaken' with htook | hdone'
    · cases htook.symm.trans hdone
    · exact hne (Closing.done.inj (hdone'.symm.trans hdone))

/-- `close` comes between the look at `closed` and `abdicate.set`. -/
theorem kept_of_take_elected : 0 ∉ (⟨true, true, some 0, [.returned], .done none, []⟩ : Leadership).executed :=
  kept_of_take [.elected, .close, .take, .abdicate] [.update 0] 0 ⟨true, true, some 0, [.returned], .done none, []⟩ rfl
    (by decide)

/-! ## Coming to rest -/

/-- How many steps a call of `onElected` still has to take. -/
def callPending : OnElected → Nat
  | .accepted => 2
  | .refused | .set => 1
  | .gaveUp | .returned => 0

/-- And the task of `close`. -/
def taskPending : Closing → Nat
  | .notCalled | .queued => 2
  | .took _ => 1
  | .done _ => 0

def pending (s : Leadership) : Nat := (s.onElected.map callPending).sum + taskPending s.closing

/-- A step of a call that is under way, or of the task. -/
def IsOwn (event : Event) : Prop := event ≠ .elected ∧ event ≠ .defeated ∧ event ≠ .close

theorem sum_pending_set {l : List OnElected} {n : Nat} {a b : OnElected} (h : l[n]? = some a) :
    callPending a + ((l.set n b).map callPending).sum = callPending b + (l.map callPending).sum := by
  have hperm := (filterMap_set_perm (fun call => some (callPending call)) b h).sum_eq
  simpa [List.filterMap_eq_map'] using hperm

theorem pending_le (s : Leadership) : s.pending ≤ 2 * s.onElected.length + 2 := by
  have hcalls := List.sum_le_card_nsmul (s.onElected.map callPending) 2 fun n hn => by
    obtain ⟨call, -, rfl⟩ := List.mem_map.1 hn
    cases call <;> simp [callPending]
  have hclosing : taskPending s.closing ≤ 2 := by cases s.closing <;> simp [taskPending]
  rw [List.length_map, smul_eq_mul] at hcalls
  unfold pending
  omega

/-- **A step can be taken** unless all have returned. -/
theorem exists_step (hclosing : s.closing ≠ .notCalled) (h : ¬ Settled s) : ∃ event s', IsOwn event ∧ s.step event = some s' ∧
    s'.pending < s.pending ∧ s'.closing ≠ .notCalled := by
  by_cases hcalls : ∀ call ∈ s.onElected, call = .gaveUp ∨ call = .returned
  · cases hphase : s.closing with
    | notCalled => exact absurd hphase hclosing
    | queued =>
      refine ⟨.take, { s with abdicate := none, closing := .took s.abdicate }, by simp [IsOwn],
        by simp only [step, hphase], ?_, nofun⟩
      simp [pending, taskPending, hphase]
    | took cmd =>
      refine ⟨.abdicate, { s with closing := .done cmd, executed := cmd.toList ++ s.executed }, by simp [IsOwn],
        by simp only [step, hphase], ?_, nofun⟩
      simp [pending, taskPending, hphase]
    | done cmd => exact absurd ⟨⟨cmd, hphase⟩, hcalls⟩ h
  · push Not at hcalls
    obtain ⟨call, hmem, hgave, hreturned⟩ := hcalls
    obtain ⟨n, hcall⟩ := List.mem_iff_getElem?.1 hmem
    cases call with
    | gaveUp => exact absurd rfl hgave
    | returned => exact absurd rfl hreturned
    | refused =>
      have hsum := sum_pending_set (b := .gaveUp) hcall
      refine ⟨.giveUp n, { s with onElected := s.onElected.set n .gaveUp, executed := n :: s.executed }, by simp [IsOwn],
        by simp only [step, hcall], ?_, hclosing⟩
      simp only [pending, callPending] at hsum ⊢
      omega
    | accepted =>
      have hsum := sum_pending_set (b := .set) hcall
      refine ⟨.set n, { s with onElected := s.onElected.set n .set, abdicate := some n }, by simp [IsOwn],
        by simp only [step, hcall], ?_, hclosing⟩
      simp only [pending, callPending] at hsum ⊢
      omega
    | set =>
      have hsum := sum_pending_set (b := .returned) hcall
      refine ⟨.update n, { s with onElected := s.onElected.set n .returned, data := true }, by simp [IsOwn],
        by simp only [step, hcall], ?_, hclosing⟩
      simp only [pending, callPending] at hsum ⊢
      omega

theorem exists_run_settled : ∀ (n : Nat) {s : Leadership}, s.pending ≤ n → s.closing ≠ .notCalled →
    ∃ own s', own.length ≤ n ∧ (∀ event ∈ own, IsOwn event) ∧ run step s own = some s' ∧ Settled s'
  | n, s, hle, hclosing => by
    by_cases h : Settled s
    · exact ⟨[], s, Nat.zero_le _, fun _ hmem => (List.not_mem_nil hmem).elim, rfl, h⟩
    obtain ⟨event, m, hown, hstep, hlt, hclosing⟩ := exists_step hclosing h
    cases n with
    | zero => omega
    | succ n =>
      obtain ⟨own, s', hlength, howns, hrun, hsettled⟩ := exists_run_settled n (s := m) (by omega) hclosing
      exact ⟨event :: own, s', Nat.succ_le_succ hlength, List.forall_mem_cons.2 ⟨hown, howns⟩,
        run_cons.2 ⟨m, hstep, hrun⟩, hsettled⟩

/-- **After `close` all can return**, from wherever a run has taken them: at most two steps of each call and two of the task
bring them there, without anyone being elected or defeated meanwhile. -/
theorem exists_settled (events : List Event) (s : Leadership) (hrun : run step {} events = some s) (hclose : .close ∈ events) :
    ∃ own s', own.length ≤ 2 * events.count .elected + 2 ∧ (∀ event ∈ own, IsOwn event) ∧ run step s own = some s' ∧
      Settled s' := by
  have hcalled := called_of_run hrun
  have hclosing : s.closing ≠ .notCalled := fun hnot => by
    cases ((kept_of_run hrun).notCalled_iff.1 hnot).symm.trans (hcalled.closed_iff.2 hclose)
  exact exists_run_settled _ (hcalled.length_eq ▸ s.pending_le) hclosing

/-- A call that has looked at `closed`. -/
theorem exists_settled_elected : ∃ own s', own.length ≤ 4 ∧ (∀ event ∈ own, IsOwn event) ∧
    run step ⟨false, true, none, [.accepted], .queued, []⟩ own = some s' ∧ Settled s' :=
  exists_settled [.elected, .close] ⟨false, true, none, [.accepted], .queued, []⟩ rfl (by decide)

end Leadership
end Zipkin
