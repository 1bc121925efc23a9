import Zipkin.Base.Following
import Zipkin.Base.Transition
/-!
# ZkWatch — watching the data of a node

`watchData` of `ZooKeeperClient.scala`.  A watch reads the node and is told of the next change once, so it reads again after
each change, and shows what it has read in a `Var`.  Between a change and the next reading the node can change further, its
own answers and events are on their way, and the session has events of its own.  Many watches of one node are taken
together with whoever changes it: a run is any order of their steps.
-/
namespace Zipkin

open Following Transition

abbrev Bytes := List UInt8

/-- The promise `update` of a reading: the server or the session will fire it, or has. -/
inductive Update where
  | armed
  | fired
deriving DecidableEq, Repr

/-- Where `watch` is. -/
inductive Watching where
  /-- `ensurePath` is not done. -/
  | ensuring
  /-- The request is on its way. -/
  | reading
  /-- The answer is on its way: the data, or that there is no node. -/
  | answered (nodeData : Option Bytes) (update : Update)
  /-- The data are shown, and the rest waits for `update`. -/
  | waiting (update : Update)
  /-- The future is done, with or without an exception. -/
  | ended
deriving DecidableEq, Repr

structure ZkWatch where
  watching : Watching
  closed : Bool
  /-- What the `Var` was updated with, latest first. -/
  updates : List Bytes
deriving DecidableEq, Repr

namespace ZkWatch

def new : ZkWatch := ⟨.ensuring, false, []⟩

/-- The value of the `Var`, at first `Array.empty`. -/
def data (w : ZkWatch) : Bytes := w.updates.headD []

/-- The node changes, or the session does. -/
def fire (w : ZkWatch) : ZkWatch :=
  match w.watching with
  | .answered nodeData .armed => { w with watching := .answered nodeData .fired }
  | .waiting .armed => { w with watching := .waiting .fired }
  | _ => w

inductive Event where
  | ensured
  /-- The server reads the node, and sets the watch if there is one. -/
  | read
  /-- The client is given the answer. -/
  | answer
  /-- The client is told that `update` has fired. -/
  | notify
  /-- The session is disconnected, or expires. -/
  | session
  /-- `ensurePath` or the request fails. -/
  | fail
  | close
deriving DecidableEq, Repr

def step (node : Option Bytes) (w : ZkWatch) : Event → Option ZkWatch
  | .ensured => match w.watching with
    | .ensuring => some { w with watching := .reading }
    | _ => none
  | .read => match w.watching with
    | .reading => some { w with watching := .answered node .armed }
    | _ => none
  | .answer => match w.watching with
    | .answered (some bytes) update =>
      if w.closed then some { w with watching := .ended }
      else some { w with watching := .waiting update, updates := bytes :: w.updates }
    | .answered none _ => some { w with watching := .ended }
    | _ => none
  | .notify => match w.watching with
    | .waiting .fired => some { w with watching := .reading }
    | _ => none
  | .session => some w.fire
  | .fail => match w.watching with
    | .ensuring | .reading => some { w with watching := .ended }
    | _ => none
  | .close => some { w with closed := true }

end ZkWatch

/-- A node and those who watch it. -/
structure WatchedNode where
  /-- What the node was set to, latest first, `none` where it was deleted. -/
  history : List (Option Bytes)
  watches : List ZkWatch

namespace WatchedNode

def node (s : WatchedNode) : Option Bytes := s.history.head?.join

def new (node : Option Bytes) (n : Nat) : WatchedNode := ⟨[node], List.replicate n .new⟩

/-- Whoever sets or creates the node, or deletes it: every watch that is set fires. -/
def set (s : WatchedNode) (node : Option Bytes) : WatchedNode := ⟨node :: s.history, s.watches.map ZkWatch.fire⟩

inductive Event where
  | set (node : Option Bytes)
  | watch (n : Nat) (event : ZkWatch.Event)
deriving DecidableEq, Repr

def step (s : WatchedNode) : Event → Option WatchedNode
  | .set node => some (s.set node)
  | .watch n event => do
    let w ← s.watches[n]?
    let w' ← w.step s.node event
    some { s with watches := s.watches.set n w' }

end WatchedNode

/-! ## One watch -/

namespace ZkWatch

variable {history : List (Option Bytes)} {node : Option Bytes} {w w' : ZkWatch}

/-- What is shown next, and what was shown before: they follow what the node was, and while the watch is set they are up to
date with it. -/
def Tracks (history : List (Option Bytes)) (w : ZkWatch) : Prop :=
  match w.watching with
  | .ensuring | .reading | .ended => Follows history (w.updates.map some)
  | .answered nodeData update =>
    Follows history (nodeData :: w.updates.map some) ∧ (update = .armed → history.head? = some nodeData)
  | .waiting update => Follows history (w.updates.map some) ∧ (update = .armed → history.head? = some (some w.data)) ∧
    w.updates ≠ []

theorem Tracks.follows (h : Tracks history w) : Follows history (w.updates.map some) := by
  unfold Tracks at h
  split at h
  · exact h
  · exact h
  · exact h
  · exact h.1.of_cons
  · exact h.1

@[simp] theorem updates_fire (w : ZkWatch) : w.fire.updates = w.updates := by
  unfold fire
  split <;> rfl

/-- **The node changes**: what has been read is part of its history, and no watch is set any more. -/
theorem Tracks.set (node : Option Bytes) (h : Tracks history w) : Tracks (node :: history) w.fire := by
  obtain ⟨watching, closed, updates⟩ := w
  cases watching with
  | ensuring | reading | ended => exact h.write node
  | answered nodeData update =>
    cases update with
    | armed | fired => exact ⟨h.1.write node, nofun⟩
  | waiting update =>
    cases update with
    | armed | fired => exact ⟨h.1.write node, nofun, h.2.2⟩

theorem Tracks.fire (h : Tracks history w) : Tracks history w.fire := by
  obtain ⟨watching, closed, updates⟩ := w
  cases watching with
  | ensuring | reading | ended => exact h
  | answered nodeData update =>
    cases update with
    | armed | fired => exact ⟨h.1, nofun⟩
  | waiting update =>
    cases update with
    | armed | fired => exact ⟨h.1, nofun, h.2.2⟩

/-- What a step of a watch can be. -/
inductive Takes (node : Option Bytes) : ZkWatch → Event → ZkWatch → Prop
  | ensured {closed : Bool} {updates : List Bytes} :
    Takes node ⟨.ensuring, closed, updates⟩ .ensured ⟨.reading, closed, updates⟩
  | read {closed : Bool} {updates : List Bytes} :
    Takes node ⟨.reading, closed, updates⟩ .read ⟨.answered node .armed, closed, updates⟩
  | shows {bytes : Bytes} {update : Update} {updates : List Bytes} :
    Takes node ⟨.answered (some bytes) update, false, updates⟩ .answer ⟨.waiting update, false, bytes :: updates⟩
  | closed {bytes : Bytes} {update : Update} {updates : List Bytes} :
    Takes node ⟨.answered (some bytes) update, true, updates⟩ .answer ⟨.ended, true, updates⟩
  | noNode {update : Update} {closed : Bool} {updates : List Bytes} :
    Takes node ⟨.answered none update, closed, updates⟩ .answer ⟨.ended, closed, updates⟩
  | notify {closed : Bool} {updates : List Bytes} :
    Takes node ⟨.waiting .fired, closed, updates⟩ .notify ⟨.reading, closed, updates⟩
  | session {w : ZkWatch} : Takes node w .session w.fire
  | fail {watching : Watching} {closed : Bool} {updates : List Bytes} (h : watching = .ensuring ∨ watching = .reading) :
    Takes node ⟨watching, closed, updates⟩ .fail ⟨.ended, closed, updates⟩
  | close {w : ZkWatch} : Takes node w .close { w with closed := true }

theorem takes_of_step {event : Event} (hstep : w.step node event = some w') : Takes node w event w' := by
  obtain ⟨watching, closed, updates⟩ := w
  cases event with
  | session => exact Option.some.inj hstep ▸ .session
  | close => exact Option.some.inj hstep ▸ .close
  | ensured =>
    cases watching with
    | ensuring => exact Option.some.inj hstep ▸ .ensured
    | reading | answered | waiting | ended => cases hstep
  | read =>
    cases watching with
    | reading => exact Option.some.inj hstep ▸ .read
    | ensuring | answered | waiting | ended => cases hstep
  | answer =>
    cases watching with
    | ensuring | reading | waiting | ended => cases hstep
    | answered nodeData update =>
      cases nodeData with
      | none => exact Option.some.inj hstep ▸ .noNode
      | some bytes =>
        cases closed with
        | true => exact Option.some.inj hstep ▸ .closed
        | false => exact Option.some.inj hstep ▸ .shows
  | notify =>
    cases watching with
    | ensuring | reading | answered | ended => cases hstep
    | waiting update =>
      cases update with
      | armed => cases hstep
      | fired => exact Option.some.inj hstep ▸ .notify
  | fail =>
    cases watching with
    | ensuring => exact Option.some.inj hstep ▸ .fail (Or.inl rfl)
    | reading => exact Option.some.inj hstep ▸ .fail (Or.inr rfl)
    | answered | waiting | ended => cases hstep

/-- **The watch takes a step.** -/
theorem Tracks.step {event : Event} (h : Tracks history w) (hnode : history.head? = some node)
    (hstep : w.step node event = some w') : Tracks history w' := by
  cases takes_of_step hstep with
  | ensured => exact h
  | read => exact ⟨Follows.show_head h hnode, fun _ => hnode⟩
  | shows => exact ⟨h.1, h.2, List.cons_ne_nil _ _⟩
  | closed | noNode => exact h.1.of_cons
  | notify => exact h.1
  | session => exact h.fire
  | fail => exact h.follows
  | close => exact h

/-- The steps by which the watch itself goes on. -/
def next (w : ZkWatch) : Option Event :=
  match w.watching with
  | .ensuring => some .ensured
  | .reading => some .read
  | .answered _ _ => some .answer
  | .waiting .fired => some .notify
  | .waiting .armed => none
  | .ended => none

/-- How many of them there are until there is none, at most. -/
def remaining (w : ZkWatch) : Nat :=
  match w.watching with
  | .answered _ .fired => 4
  | .ensuring | .waiting .fired => 3
  | .reading => 2
  | .answered _ .armed => 1
  | .waiting .armed | .ended => 0

theorem remaining_le (w : ZkWatch) : w.remaining ≤ 4 := by
  unfold remaining
  split <;> decide

theorem next_eq_none_of_remaining (h : w.remaining = 0) : w.next = none := by
  obtain ⟨watching, closed, updates⟩ := w
  cases watching with
  | ensuring | reading => cases h
  | ended => rfl
  | answered nodeData update | waiting update => cases update <;> first | rfl | cases h

/-- **Each of them can be taken**, and there are fewer of them afterwards. -/
theorem exists_step_next {event : Event} (h : w.next = some event) (node : Option Bytes) :
    ∃ w', w.step node event = some w' ∧ w'.remaining < w.remaining := by
  obtain ⟨watching, closed, updates⟩ := w
  cases watching with
  | ensuring | reading =>
    obtain rfl := Option.some.inj h
    exact ⟨_, rfl, by simp [remaining]⟩
  | ended => cases h
  | waiting update =>
    cases update with
    | armed => cases h
    | fired =>
      obtain rfl := Option.some.inj h
      exact ⟨_, rfl, by simp [remaining]⟩
  | answered nodeData update =>
    obtain rfl := Option.some.inj h
    cases nodeData with
    | none => exact ⟨_, rfl, by cases update <;> simp [remaining]⟩
    | some bytes => cases closed <;> cases update <;> exact ⟨_, rfl, by simp [remaining]⟩

/-- It has been told that there is no node, or will be where nothing changes, or it stops because it is closed. -/
def Ends (node : Option Bytes) (w : ZkWatch) : Prop :=
  match w.watching with
  | .ended | .answered none _ => True
  | .waiting .armed => False
  | .answered (some _) .armed => w.closed = true
  | .ensuring | .reading | .waiting .fired | .answered (some _) .fired => w.closed = true ∨ node = none

theorem ends_step_next {event : Event} (h : w.next = some event) (hstep : w.step node event = some w') :
    w'.Ends node ↔ w.Ends node := by
  cases takes_of_step hstep with
  | ensured | notify | noNode => exact Iff.rfl
  | read => cases node <;> simp [Ends]
  | @shows bytes update | @closed bytes update => cases update <;> simp [Ends]
  | session | fail | close =>
    unfold next at h
    split at h <;> cases h

theorem ended_iff_ends (h : w.next = none) : w.watching = .ended ↔ w.Ends node := by
  obtain ⟨watching, closed, updates⟩ := w
  cases watching with
  | ensuring | reading | answered => cases h
  | ended => exact iff_of_true rfl trivial
  | waiting update =>
    cases update with
    | fired => cases h
    | armed => exact iff_of_false nofun id

/-- The step is the last of the watch: the request fails, or it is told that there is no node, or of data when it is closed. -/
def EndsBy (w : ZkWatch) : Event → Prop
  | .fail => True
  | .answer => w.closed = true ∨ ∃ update, w.watching = .answered none update
  | _ => False

theorem ended_fire : w.fire.watching = .ended ↔ w.watching = .ended := by
  unfold fire
  split <;> simp_all

theorem ended_step {event : Event} (hstep : w.step node event = some w') :
    w'.watching = .ended ↔ w.watching = .ended ∨ w.EndsBy event := by
  cases takes_of_step hstep with
  | ensured | read | shows | notify => exact iff_of_false nofun (by simp [EndsBy])
  | closed => exact iff_of_true rfl (Or.inr (Or.inl rfl))
  | noNode => exact iff_of_true rfl (Or.inr (Or.inr ⟨_, rfl⟩))
  | fail => exact iff_of_true rfl (Or.inr trivial)
  | session => exact ended_fire.trans (or_iff_left id).symm
  | close => exact (or_iff_left id).symm

theorem updates_step_of_ended {event : Event} (h : w.watching = .ended) (hstep : w.step node event = some w') :
    w'.updates = w.updates := by
  cases takes_of_step hstep with
  | shows => cases h
  | session => exact w.updates_fire
  | ensured | read | closed | noNode | notify | fail | close => rfl

end ZkWatch

/-! ## Every watch of a node -/

namespace WatchedNode

variable {s s' : WatchedNode}

/-- The watches follow the node. -/
def Tracked (s : WatchedNode) : Prop := s.history ≠ [] ∧ ∀ w ∈ s.watches, w.Tracks s.history

theorem head?_history (h : s.history ≠ []) : s.history.head? = some s.node := by
  unfold node
  cases hs : s.history with
  | nil => exact absurd hs h
  | cons => rfl

theorem tracked_new (node : Option Bytes) (n : Nat) : (new node n).Tracked := by
  refine ⟨List.cons_ne_nil _ _, fun w hw => ?_⟩
  obtain rfl := List.eq_of_mem_replicate hw
  exact Follows.nil _

theorem tracked_step {event : Event} (h : s.Tracked) (hstep : s.step event = some s') : s'.Tracked := by
  cases event with
  | set node =>
    obtain rfl := Option.some.inj hstep
    refine ⟨List.cons_ne_nil _ _, fun w' hw' => ?_⟩
    obtain ⟨w, hw, rfl⟩ := List.mem_map.1 hw'
    exact (h.2 w hw).set node
  | watch n event =>
    obtain ⟨w, hw, hstep⟩ := Option.bind_eq_some_iff.1 hstep
    obtain ⟨w', hw', hstep⟩ := Option.bind_eq_some_iff.1 hstep
    obtain rfl := Option.some.inj hstep
    refine ⟨h.1, fun v hv => ?_⟩
    rcases List.mem_or_eq_of_mem_set hv with hv | rfl
    · exact h.2 v hv
    · exact (h.2 w (List.mem_of_getElem? hw)).step (head?_history h.1) hw'

theorem tracked_run {node : Option Bytes} {n : Nat} {events : List Event}
    (hrun : run step (new node n) events = some s) : s.Tracked :=
  run_invariant (fun _ _ _ => tracked_step) (tracked_new node n) hrun

/-- A watch that has nothing of its own on its way is up to date. -/
theorem Tracked.node_eq (h : s.Tracked) {w : ZkWatch} (hw : w ∈ s.watches) (hnext : w.next = none) :
    w.watching = .ended ∨ s.node = some w.data := by
  have htracks := h.2 w hw
  obtain ⟨watching, closed, updates⟩ := w
  cases watching with
  | ensuring | reading | answered => cases hnext
  | ended => exact Or.inl rfl
  | waiting update =>
    cases update with
    | fired => cases hnext
    | armed => exact Or.inr (Option.some.inj ((head?_history h.1).symm.trans (htracks.2.1 rfl)))

/-- **A watch shows what the node was, in that order, and what it is where nothing of its own is on its way**, whatever the
node, the session and the other watches did. -/
theorem follows_of_run (node : Option Bytes) (n : Nat) (events : List Event) (s : WatchedNode)
    (hrun : run step (new node n) events = some s) : ∀ w ∈ s.watches,
      Follows s.history (w.updates.map some) ∧ (w.next = none → w.watching = .ended ∨ s.node = some w.data) := by
  have h := tracked_run hrun
  exact fun w hw => ⟨(h.2 w hw).follows, h.node_eq hw⟩

/-- A node that is set while it is watched. -/
theorem follows_of_run_set : Follows [some [50], some [49]] (([[50], [49]] : List Bytes).map some) :=
  (follows_of_run (some [49]) 1 [.watch 0 .ensured, .watch 0 .read, .watch 0 .answer, .set (some [50]), .watch 0 .notify,
    .watch 0 .read, .watch 0 .answer] ⟨[some [50], some [49]], [⟨.waiting .armed, false, [[50], [49]]⟩]⟩ rfl _
    List.mem_cons_self).1

/-! ## A watch catches up -/

theorem step_watch {n : Nat} {w w' : ZkWatch} {event : ZkWatch.Event} (hw : s.watches[n]? = some w)
    (hstep : w.step s.node event = some w') :
    s.step (.watch n event) = some { s with watches := s.watches.set n w' } := by
  rw [step, hw, Option.bind_eq_bind, Option.bind_some, hstep]
  rfl

/-- **The watch goes on until nothing of its own is on its way.** -/
theorem exists_run_next : ∀ (remaining : Nat) {s : WatchedNode} {n : Nat} {w : ZkWatch}, s.watches[n]? = some w →
    w.remaining ≤ remaining → ∃ own s' w', own.length ≤ remaining ∧ (∀ event ∈ own, ∃ e, event = .watch n e) ∧
      run step s own = some s' ∧ s'.history = s.history ∧ s'.watches = s.watches.set n w' ∧ w'.next = none ∧
      (w'.Ends s.node ↔ w.Ends s.node)
  | remaining, s, n, w, hw, hle => by
    cases hnext : w.next with
    | none =>
      refine ⟨[], s, w, Nat.zero_le _, fun _ h => (List.not_mem_nil h).elim, rfl, rfl, ?_, hnext, Iff.rfl⟩
      obtain ⟨hlt, rfl⟩ := List.getElem?_eq_some_iff.1 hw
      exact (List.set_getElem_self hlt).symm
    | some event =>
      obtain ⟨w₁, hstep, hlt⟩ := ZkWatch.exists_step_next hnext s.node
      cases remaining with
      | zero => exact absurd (ZkWatch.next_eq_none_of_remaining (Nat.le_zero.1 hle)) (by rw [hnext]; nofun)
      | succ remaining =>
        have hw₁ : (s.watches.set n w₁)[n]? = some w₁ := List.getElem?_set_self (List.getElem?_eq_some_iff.1 hw).1
        obtain ⟨own, s', w', hlength, hown, hrun, hhistory, hwatches, hdone, hends⟩ :=
          exists_run_next remaining (s := { s with watches := s.watches.set n w₁ }) hw₁ (by omega)
        refine ⟨.watch n event :: own, s', w', Nat.succ_le_succ hlength, fun e he => ?_,
          run_cons.2 ⟨_, step_watch hw hstep, hrun⟩, hhistory, ?_, hdone, ?_⟩
        · rcases List.mem_cons.1 he with rfl | he
          · exact ⟨event, rfl⟩
          · exact hown e he
        · rw [hwatches, List.set_set]
        · exact hends.trans (ZkWatch.ends_step_next hnext hstep)

/-- **At most four steps of its own bring a watch up to date**, from wherever a run has taken it, if neither the node nor the
session changes meanwhile; it ends instead where it was told that there is no node, or would read that there is none, or
would answer a reading after it was closed. -/
theorem catches_up (node : Option Bytes) (size : Nat) (events : List Event) (s : WatchedNode)
    (hrun : run step (new node size) events = some s) (n : Nat) (w : ZkWatch) (hw : s.watches[n]? = some w) :
    ∃ own s' w', own.length ≤ 4 ∧ (∀ event ∈ own, ∃ e, event = .watch n e) ∧ run step s own = some s' ∧
      s'.history = s.history ∧ s'.watches = s.watches.set n w' ∧
      (w.Ends s.node ∧ w'.watching = .ended ∨ ¬ w.Ends s.node ∧ s.node = some w'.data) := by
  obtain ⟨own, s', w', hlength, hown, hrun', hhistory, hwatches, hdone, hends⟩ := exists_run_next 4 hw w.remaining_le
  refine ⟨own, s', w', hlength, hown, hrun', hhistory, hwatches, ?_⟩
  have hmem : w' ∈ s'.watches := by
    rw [hwatches]
    exact List.mem_set (List.getElem?_eq_some_iff.1 hw).1 w'
  have hnode : s'.node = s.node := congrArg (fun h => h.head?.join) hhistory
  have hended : w'.watching = .ended ↔ w.Ends s.node := (ZkWatch.ended_iff_ends hdone).trans hends
  rcases (tracked_run (run_append.2 ⟨s, hrun, hrun'⟩)).node_eq hmem hdone with h | h
  · exact Or.inl ⟨hended.1 h, h⟩
  · by_cases he : w.Ends s.node
    · exact Or.inl ⟨he, hended.2 he⟩
    · exact Or.inr ⟨he, hnode ▸ h⟩

/-- The node was set, and the watch was not told yet. -/
theorem catches_up_set : ∃ own s' w', own.length ≤ 4 ∧ (∀ event ∈ own, ∃ e, event = .watch 0 e) ∧
    run step ⟨[some [50], some [49]], [⟨.waiting .fired, false, [[49]]⟩]⟩ own = some s' ∧ s'.watches = [w'] ∧
      some [50] = some w'.data := by
  let w : ZkWatch := ⟨.waiting .fired, false, [[49]]⟩
  obtain ⟨own, s', w', hlength, hown, hrun, -, hwatches, hends | ⟨-, hdata⟩⟩ := catches_up (some [49]) 1
    [.watch 0 .ensured, .watch 0 .read, .watch 0 .answer, .set (some [50])] ⟨[some [50], some [49]], [w]⟩ rfl 0 w rfl
  · exact absurd hends.1 (by simp [w, ZkWatch.Ends, node])
  · exact ⟨own, s', w', hlength, hown, hrun, hwatches, hdata⟩

/-! ## A watch ends -/

/-- The step is not the last one of this watch. -/
def Survives (n : Nat) (s : WatchedNode) (event : Event) : Prop :=
  ∀ e, event = .watch n e → ∀ w, s.watches[n]? = some w → ¬ w.EndsBy e

theorem length_step {event : Event} (hstep : s.step event = some s') : s'.watches.length = s.watches.length := by
  cases event with
  | set node => exact Option.some.inj hstep ▸ List.length_map _
  | watch n e =>
    obtain ⟨w, -, hstep⟩ := Option.bind_eq_some_iff.1 hstep
    obtain ⟨w', -, hstep⟩ := Option.bind_eq_some_iff.1 hstep
    exact Option.some.inj hstep ▸ List.length_set

/-- **What a step does to one of the watches**: it fires, or takes the step, or is as it was. -/
theorem getElem?_step {event : Event} {n : Nat} {w : ZkWatch} (hstep : s.step event = some s')
    (hw : s.watches[n]? = some w) :
    ∃ w', s'.watches[n]? = some w' ∧
      ((∃ node, event = .set node ∧ w' = w.fire) ∨ (∃ e, event = .watch n e ∧ w.step s.node e = some w') ∨
        (∀ e, event ≠ .watch n e) ∧ w' = w) := by
  cases event with
  | set node =>
    obtain rfl := Option.some.inj hstep
    exact ⟨w.fire, by rw [set, List.getElem?_map, hw]; rfl, Or.inl ⟨node, rfl, rfl⟩⟩
  | watch m e =>
    obtain ⟨v, hv, hstep⟩ := Option.bind_eq_some_iff.1 hstep
    obtain ⟨v', hv', hstep⟩ := Option.bind_eq_some_iff.1 hstep
    obtain rfl := Option.some.inj hstep
    by_cases hm : m = n
    · subst hm
      obtain rfl := Option.some.inj (hv.symm.trans hw)
      exact ⟨v', List.getElem?_set_self (List.getElem?_eq_some_iff.1 hw).1, Or.inr (Or.inl ⟨e, rfl, hv'⟩)⟩
    · refine ⟨w, (List.getElem?_set_ne hm).trans hw, Or.inr (Or.inr ⟨fun e' he' => ?_, rfl⟩)⟩
      cases he'
      exact hm rfl

/-- This watch has ended. -/
def IsEnded (n : Nat) (s : WatchedNode) : Prop := ∃ w, s.watches[n]? = some w ∧ w.watching = .ended

theorem isEnded_step {event : Event} {n : Nat} (hstep : s.step event = some s') :
    IsEnded n s' ↔ IsEnded n s ∨ ¬ Survives n s event := by
  cases hw : s.watches[n]? with
  | none =>
    have hnone : s'.watches[n]? = none := by
      rw [List.getElem?_eq_none_iff] at hw ⊢
      exact length_step hstep ▸ hw
    refine iff_of_false (fun ⟨w, hsome, _⟩ => by rw [hnone] at hsome; cases hsome) (not_or.2 ⟨?_, not_not_intro ?_⟩)
    · rintro ⟨w, hsome, -⟩
      rw [hw] at hsome
      cases hsome
    · intro e _ w hsome
      rw [hw] at hsome
      cases hsome
  | some w =>
    obtain ⟨w', hw', h⟩ := getElem?_step hstep hw
    have hended : IsEnded n s ↔ w.watching = .ended :=
      ⟨fun ⟨v, hv, h⟩ => Option.some.inj (hv.symm.trans hw) ▸ h, fun h => ⟨w, hw, h⟩⟩
    have hended' : IsEnded n s' ↔ w'.watching = .ended :=
      ⟨fun ⟨v, hv, h⟩ => Option.some.inj (hv.symm.trans hw') ▸ h, fun h => ⟨w', hw', h⟩⟩
    rw [hended, hended']
    rcases h with ⟨node, rfl, rfl⟩ | ⟨e, rfl, he⟩ | ⟨hne, rfl⟩
    · rw [ZkWatch.ended_fire]
      exact (or_iff_left (not_not_intro fun e he => by cases he)).symm
    · rw [ZkWatch.ended_step he]
      refine or_congr_right ⟨fun hends hsurvives => hsurvives e rfl w hw hends, fun hnot => ?_⟩
      by_contra hends
      refine hnot fun e' he' u hu => ?_
      cases he'
      obtain rfl := Option.some.inj (hu.symm.trans hw)
      exact hends
    · exact (or_iff_left (not_not_intro fun e he => absurd he (hne e))).symm

/-- It shows what it showed when it ended. -/
theorem data_step_of_ended {event : Event} {n : Nat} {bytes : Bytes} (hstep : s.step event = some s')
    (h : ∃ w, s.watches[n]? = some w ∧ w.watching = .ended ∧ w.data = bytes) :
    ∃ w, s'.watches[n]? = some w ∧ w.watching = .ended ∧ w.data = bytes := by
  obtain ⟨w, hw, hended, rfl⟩ := h
  obtain ⟨w', hw', hended'⟩ := (isEnded_step hstep).2 (Or.inl ⟨w, hw, hended⟩)
  obtain ⟨v, hv, h⟩ := getElem?_step hstep hw
  obtain rfl := Option.some.inj (hv.symm.trans hw')
  refine ⟨v, hv, hended', congrArg (List.headD · []) ?_⟩
  rcases h with ⟨node, rfl, rfl⟩ | ⟨e, rfl, he⟩ | ⟨-, rfl⟩
  · exact w.updates_fire
  · exact ZkWatch.updates_step_of_ended hended he
  · rfl

/-- **A watch has ended exactly if one of its steps ended it**, and nothing that happens later brings it back: it shows what
it showed then, whatever the node is set to. -/
theorem ended_iff (node : Option Bytes) (size n : Nat) (events : List Event) (s : WatchedNode) (w : ZkWatch)
    (hrun : run step (new node size) events = some s) (hw : s.watches[n]? = some w) :
    (w.watching = .ended ↔ ¬ Meets step (Survives n) (new node size) events) ∧
      (w.watching = .ended → ∀ more s', run step s more = some s' →
        ∃ w', s'.watches[n]? = some w' ∧ w'.watching = .ended ∧ w'.data = w.data) := by
  have hnew : ¬ IsEnded n (new node size) := by
    rintro ⟨v, hv, hended⟩
    obtain rfl := List.eq_of_mem_replicate (List.mem_of_getElem? hv)
    cases hended
  have hiff := run_iff_not_meets (fun _ _ _ => isEnded_step (n := n)) hrun
  have hended : w.watching = .ended ↔ IsEnded n s :=
    ⟨fun h => ⟨w, hw, h⟩, fun ⟨v, hv, h⟩ => Option.some.inj (hv.symm.trans hw) ▸ h⟩
  refine ⟨hended.trans (hiff.trans (or_iff_right hnew)), fun hended more s' hmore => ?_⟩
  exact run_invariant (fun _ _ _ h hstep => data_step_of_ended hstep h) ⟨w, hw, hended, rfl⟩ hmore

/-- It was closed before the answer came. -/
theorem ended_iff_closed : ¬ Meets step (Survives 0) (new (some [49]) 1)
    [.watch 0 .ensured, .watch 0 .read, .watch 0 .close, .watch 0 .answer] :=
  (ended_iff (some [49]) 1 0 [.watch 0 .ensured, .watch 0 .read, .watch 0 .close, .watch 0 .answer]
    ⟨[some [49]], [⟨.ended, true, []⟩]⟩ ⟨.ended, true, []⟩ rfl rfl).1.1 rfl

end WatchedNode
end Zipkin
