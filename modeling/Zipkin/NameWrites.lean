import Zipkin.Base.Transition
import Zipkin.WrittenNames
/-!
# NameWrites — names whose writes fail

One thread stores names within one interval, so that its set in `writtenNames` is never replaced.  A name is put into the
set before it is written, and taken out again if the statement cannot be bound or submitted.  The execution of a
submitted statement ends at any later time, and nothing is done where it fails: the name then stays in the set, and is
not written again in the interval (`alwaysRetries_iff`).
-/
namespace Zipkin
namespace NameWrites

open Repository

/-- `rejected`: the statement could not be bound or submitted.  `failed`: its execution failed. -/
inductive Status where
  | pending
  | succeeded
  | rejected
  | failed
deriving DecidableEq, Repr

structure Write where
  name : StoredName
  status : Status
deriving DecidableEq

/-- The set of the thread, and the writes so far. -/
structure State where
  names : List String
  writes : List Write
deriving DecidableEq

def init : State := ⟨[], []⟩

/-- What a call of `storeServiceName` or `storeSpanName` gives its caller. -/
inductive Answer where
  /-- The future of the write of that number. -/
  | future (write : Nat)
  /-- `Futures.immediateFuture(null)` -/
  | done
  /-- `Futures.immediateFailedFuture` -/
  | failed (ex : Throwable)
  | thrown (ex : Throwable)
deriving DecidableEq

/-- The one rethrows what binding or submitting raises, the other returns it. -/
def failure (ex : Throwable) : StoredName → Answer
  | .service _ => .thrown ex
  | .span _ _ => .failed ex

/-- `storeServiceName` and `storeSpanName`; `submission` is what becomes of binding and submitting the statement. -/
def store (s : State) (name : StoredName) (submission : Except Throwable Unit) : Answer × State :=
  if !name.accepted then (.thrown ⟨"IllegalArgumentException", ""⟩, s)
  else if s.names.contains name.text then (.done, s)
  else
    let names := s.names ++ [name.text]
    match submission with
    | .ok () => (.future s.writes.length, ⟨names, s.writes ++ [⟨name, .pending⟩]⟩)
    | .error ex => (failure ex name, ⟨names.erase name.text, s.writes ++ [⟨name, .rejected⟩]⟩)

inductive Event where
  | store (name : StoredName) (submission : Except Throwable Unit)
  /-- The execution of a submitted write ends. -/
  | complete (write : Nat) (succeeds : Bool)

/-- `resultSetToVoidFunction` is all that is done with the future of a write. -/
def step (s : State) : Event → Option State
  | .store name submission => some (store s name submission).2
  | .complete n succeeds => match s.writes[n]? with
    | some ⟨name, .pending⟩ =>
      some { s with writes := s.writes.set n ⟨name, if succeeds then .succeeded else .failed⟩ }
    | _ => none

/-! ## What a step can do -/

inductive Step : State → Event → State → Prop where
  | nothing {s : State} (name : StoredName) (submission : Except Throwable Unit)
      (h : name.accepted = false ∨ name.text ∈ s.names) : Step s (.store name submission) s
  | submit {s : State} (name : StoredName) (haccepted : name.accepted = true) (hnew : name.text ∉ s.names) :
      Step s (.store name (.ok ())) ⟨s.names ++ [name.text], s.writes ++ [⟨name, .pending⟩]⟩
  | reject {s : State} (name : StoredName) (ex : Throwable) (haccepted : name.accepted = true)
      (hnew : name.text ∉ s.names) :
      Step s (.store name (.error ex)) ⟨s.names, s.writes ++ [⟨name, .rejected⟩]⟩
  | complete {s : State} (n : Nat) (name : StoredName) (succeeds : Bool) (hpending : s.writes[n]? = some ⟨name, .pending⟩) :
      Step s (.complete n succeeds)
        { s with writes := s.writes.set n ⟨name, if succeeds then .succeeded else .failed⟩ }

variable {s s' : State} {event : Event}

theorem step_cases (h : step s event = some s') : Step s event s' := by
  cases event with
  | store name submission =>
    obtain rfl := Option.some.inj h
    unfold store
    by_cases haccepted : name.accepted = true
    · rw [haccepted, Bool.not_true, if_neg Bool.false_ne_true]
      by_cases hmem : name.text ∈ s.names
      · rw [if_pos (List.contains_iff_mem.2 hmem)]
        exact .nothing name submission (Or.inr hmem)
      · rw [if_neg (fun hc => hmem (List.contains_iff_mem.1 hc))]
        cases submission with
        | ok => exact .submit name haccepted hmem
        | error ex =>
          have herase : (s.names ++ [name.text]).erase name.text = s.names := by
            rw [List.erase_append_right _ hmem, List.erase_cons_head, List.append_nil]
          dsimp only
          rw [herase]
          exact .reject name ex haccepted hmem
    · rw [Bool.not_eq_true] at haccepted
      rw [haccepted, Bool.not_false, if_pos rfl]
      exact .nothing name submission (Or.inl haccepted)
  | complete n succeeds =>
    simp only [step] at h
    split at h
    · rename_i name hpending
      exact Option.some.inj h ▸ .complete n name succeeds hpending
    · cases h

/-! ## The set and the writes -/

/-- The text of a write that was submitted. -/
def submittedText (w : Write) : Option String := if w.status = .rejected then none else some w.name.text

/-- **The set has the texts of the submitted writes**, each once. -/
structure Cached (s : State) : Prop where
  names : s.names = s.writes.filterMap submittedText
  nodup : s.names.Nodup

theorem cached_init : Cached init := ⟨rfl, List.nodup_nil⟩

theorem cached_step (h : Cached s) (hstep : step s event = some s') : Cached s' := by
  cases step_cases hstep with
  | nothing => exact h
  | submit name _ hnew =>
    refine ⟨?_, ?_⟩
    · rw [List.filterMap_append, ← h.names]
      rfl
    · exact List.nodup_append.2 ⟨h.nodup, List.nodup_singleton _, fun a ha b hb hab => hnew (by
        rwa [hab, List.mem_singleton.1 hb] at ha)⟩
  | reject name ex _ _ =>
    refine ⟨?_, h.nodup⟩
    rw [List.filterMap_append, ← h.names]
    exact (List.append_nil _).symm
  | complete n name succeeds hpending =>
    refine ⟨h.names.trans (Transition.filterMap_set_of_eq hpending ?_).symm, h.nodup⟩
    cases succeeds <;> rfl

theorem cached_run {events : List Event} (hrun : Transition.run step init events = some s) : Cached s :=
  Transition.run_invariant (fun _ _ _ => cached_step) cached_init hrun

/-- **Within an interval, and where every statement succeeds, this is the repository's own call**: the set of the thread
is the same, and a write is the execution of the name's statement. -/
theorem names_store_eq (machine : Machine) (thread : Nat) (r : Repository) (name : StoredName) (writes : List Write)
    (hinterval : r.cacheInterval = toCacheInterval (machine.currentTimeMillis r.reads)) :
    let r' := WrittenNames.step machine r ⟨thread, name⟩
    let s' := (store ⟨r.names thread, writes⟩ name (.ok ())).2
    r'.names thread = s'.names ∧
      r'.session = if s'.writes.length = writes.length then r.session else r.session.execute name.insert := by
  have hrefreshed : (refreshed machine thread r).names = r.names := by
    rw [refreshed, if_neg (not_not.2 hinterval)]
  unfold store
  by_cases haccepted : name.accepted = true
  · rw [@WrittenNames.step_of_accepted machine ⟨thread, name⟩ r haccepted]
    dsimp only
    rw [hrefreshed, session_refreshed, haccepted, Bool.not_true, if_neg Bool.false_ne_true]
    by_cases hmem : name.text ∈ r.names thread
    · rw [if_pos hmem, if_pos (List.contains_iff_mem.2 hmem)]
      exact ⟨congrFun hrefreshed thread, by rw [if_pos rfl]; exact session_refreshed machine thread r⟩
    · rw [if_neg hmem, if_neg (fun hc => hmem (List.contains_iff_mem.1 hc))]
      refine ⟨Function.update_self _ _ _, ?_⟩
      rw [if_neg (by simp)]
  · rw [Bool.not_eq_true] at haccepted
    rw [@WrittenNames.step_of_not_accepted machine ⟨thread, name⟩ r haccepted, haccepted, Bool.not_false, if_pos rfl]
    exact ⟨rfl, (if_pos rfl).symm⟩

/-! ## Names whose write has failed -/

/-- The write succeeded or is still pending. -/
def Write.Lives (w : Write) : Prop := w.status = .pending ∨ w.status = .succeeded

instance (w : Write) : Decidable w.Lives := inferInstanceAs (Decidable (_ ∨ _))

/-- A name is in the set only if some write of it succeeded or is still pending, and a name with writes of which none does
is written when it is stored. -/
structure Retries (s : State) : Prop where
  lives : ∀ text ∈ s.names, ∃ w ∈ s.writes, w.name.text = text ∧ w.Lives
  reissues : ∀ (name : StoredName) (submission : Except Throwable Unit), name.accepted = true →
    (∃ w ∈ s.writes, w.name.text = name.text) → (∀ w ∈ s.writes, w.name.text = name.text → ¬ w.Lives) →
    (store s name submission).2.writes.length = s.writes.length + 1

theorem retries_of_lives (h : ∀ text ∈ s.names, ∃ w ∈ s.writes, w.name.text = text ∧ w.Lives) : Retries s := by
  refine ⟨h, fun name submission haccepted _ hdead => ?_⟩
  have hnew : name.text ∉ s.names := fun hmem => by
    obtain ⟨w, hw, htext, hlives⟩ := h _ hmem
    exact hdead w hw htext hlives
  unfold store
  rw [haccepted, Bool.not_true, if_neg Bool.false_ne_true, if_neg (fun hc => hnew (List.contains_iff_mem.1 hc))]
  cases submission <;> exact List.length_append

theorem retries_of_no_failure (h : Cached s) (hnone : ∀ w ∈ s.writes, w.status ≠ .failed) : Retries s := by
  refine retries_of_lives (fun text htext => ?_)
  rw [h.names, List.mem_filterMap] at htext
  obtain ⟨w, hw, hsubmitted⟩ := htext
  unfold submittedText at hsubmitted
  split at hsubmitted
  · cases hsubmitted
  · rename_i hrejected
    refine ⟨w, hw, Option.some.inj hsubmitted, ?_⟩
    have hfailed := hnone w hw
    unfold Write.Lives
    cases hstatus : w.status with
    | pending => exact Or.inl rfl
    | succeeded => exact Or.inr rfl
    | rejected => exact absurd hstatus hrejected
    | failed => exact absurd hstatus hfailed

theorem not_failed_step (hevent : ∀ n, event ≠ .complete n false) (h : ∀ w ∈ s.writes, w.status ≠ .failed)
    (hstep : step s event = some s') : ∀ w ∈ s'.writes, w.status ≠ .failed := by
  cases step_cases hstep with
  | nothing => exact h
  | submit | reject =>
    intro w hw
    rcases List.mem_append.1 hw with hw | hw
    · exact h w hw
    · rw [List.mem_singleton.1 hw]; nofun
  | complete n name succeeds =>
    intro w hw
    rcases List.mem_or_eq_of_mem_set hw with hw | rfl
    · exact h w hw
    · cases succeeds with
      | true => nofun
      | false => exact absurd rfl (hevent n)

/-- **A write whose execution fails leaves its name in the set**, with no write that lives. -/
theorem not_retries_of_failure {n : Nat} (h : Cached s) (hstep : step s (.complete n false) = some s') : ¬ Retries s' := by
  have hcached := cached_step h hstep
  cases step_cases hstep with
  | complete n name succeeds hpending =>
    intro hretries
    have hlt := (List.getElem?_eq_some_iff.1 hpending).1
    let failed : Write := ⟨name, .failed⟩
    have hmem : failed ∈ s.writes.set n failed := List.mem_iff_getElem?.2 ⟨n, List.getElem?_set_self hlt⟩
    have htext : name.text ∈ s.names := by
      have hnames : s.names = (s.writes.set n failed).filterMap submittedText := hcached.names
      rw [hnames]
      exact List.mem_filterMap.2 ⟨failed, hmem, rfl⟩
    obtain ⟨w, hw, hwtext, hlives⟩ := hretries.lives name.text htext
    have hsubmitted : submittedText w = some name.text := by
      unfold submittedText
      rw [if_neg (fun hrejected => by rcases hlives with hl | hl <;> rw [hrejected] at hl <;> cases hl), hwtext]
    -- the text is in the set once, so that there is one submitted write of it
    have heq : w = failed := by
      have hnodup : ((s.writes.set n failed).filterMap submittedText).Nodup := by
        have hnames : s.names = (s.writes.set n failed).filterMap submittedText := hcached.names
        rw [← hnames]
        exact h.nodup
      exact Transition.eq_of_nodup_filterMap hnodup hw hmem hsubmitted rfl
    rw [heq] at hlives
    rcases hlives with hl | hl <;> cases hl

/-- A name is retried in every state of the run. -/
def AlwaysRetries (events : List Event) : Prop :=
  ∀ before after s, events = before ++ after → Transition.run step init before = some s → Retries s

/-- **When failed writes are retried**, in every state of a run: exactly if the execution of no submitted write fails. -/
theorem alwaysRetries_iff (events : List Event) (s : State) (hrun : Transition.run step init events = some s) :
    AlwaysRetries events ↔ ∀ n, Event.complete n false ∉ events := by
  constructor
  · intro h n hmem
    obtain ⟨before, after, rfl⟩ := List.append_of_mem hmem
    obtain ⟨m, hbefore, hafter⟩ := Transition.run_append.1 hrun
    obtain ⟨m', hstep, -⟩ := Transition.run_cons.1 hafter
    refine not_retries_of_failure (cached_run hbefore) hstep (h (before ++ [.complete n false]) after m' (by simp) ?_)
    exact Transition.run_append.2 ⟨m, hbefore, Transition.run_cons.2 ⟨m', hstep, rfl⟩⟩
  · rintro hnone before after m rfl hbefore
    refine retries_of_no_failure (cached_run hbefore) ?_
    have hmeets : Transition.Meets step (fun _ event => ∀ n, event ≠ .complete n false) init before :=
      Transition.meets_of_forall (fun event hevent _ n heq => hnone n (heq ▸ List.mem_append_left _ hevent))
    exact Transition.run_invariant_of_meets (fun _ _ _ h hevent hstep => not_failed_step hevent h hstep)
      (fun w hw => (List.not_mem_nil hw).elim) hmeets hbefore

/-- A write that cannot be submitted, and one that succeeds when the name is stored again. -/
def rejectedOnce : List Event :=
  [.store (.service "web") (.error ⟨"NoHostAvailableException", ""⟩), .store (.service "web") (.ok ()), .complete 1 true]

theorem alwaysRetries_rejectedOnce : AlwaysRetries rejectedOnce :=
  (alwaysRetries_iff rejectedOnce ⟨["web"], [⟨.service "web", .rejected⟩, ⟨.service "web", .succeeded⟩]⟩ rfl).2
    (fun n h => by simp [rejectedOnce] at h)

/-- The execution of a write fails, and the name is not written when it is stored again. -/
theorem not_alwaysRetries_failed :
    (∃ s, Transition.run step init [.store (.service "web") (.ok ()), .complete 0 false, .store (.service "web") (.ok ())] =
      some s ∧ s.writes = [⟨.service "web", .failed⟩]) ∧
    ¬ AlwaysRetries [.store (.service "web") (.ok ()), .complete 0 false, .store (.service "web") (.ok ())] := by
  refine ⟨⟨_, rfl, rfl⟩, fun h => ?_⟩
  obtain ⟨w, hw, -, hlives⟩ := (h [.store (.service "web") (.ok ()), .complete 0 false] _ ⟨["web"],
    [⟨.service "web", .failed⟩]⟩ rfl rfl).lives "web" (by decide)
  rw [List.mem_singleton.1 hw] at hlives
  exact absurd hlives (by decide)

end NameWrites
end Zipkin
