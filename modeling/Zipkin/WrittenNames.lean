import Zipkin.RepositoryWrites
/-!
# WrittenNames — the cache of written names under any number of threads

Each thread has a set of the names it has written, and all threads share the interval in which the sets were last found
to be of the past.  The first call of a new interval replaces the set of its own thread and moves the shared interval on:
the other threads then keep the sets they have, and do not write again what is in them.  `freshNames_iff` says which
runs write every name in each interval in which it is stored.
-/
namespace Zipkin

open Effect Repository

/-- What a call stores: the name of a service, or of a span of a service. -/
inductive StoredName where
  | service (serviceName : String)
  | span (serviceName spanName : String)
deriving DecidableEq, Repr

namespace StoredName

/-- `Preconditions.checkArgument` of the call. -/
def accepted : StoredName → Bool
  | service s => s ≠ ""
  | span s n => s ≠ "" && n ≠ ""

/-- The name in the cache. -/
def text : StoredName → String
  | service s => s
  | span s n => s ++ "––" ++ n

def insert : StoredName → Insert
  | service s => .serviceName s
  | span s n => .spanName s 0 n

def store (machine : Machine) (thread : Nat) : StoredName → Effect Throwable Repository Unit
  | service s => storeServiceName machine thread s
  | span s n => storeSpanName machine thread s n

end StoredName

/-- A call of a thread. -/
structure NameCall where
  thread : Nat
  name : StoredName
deriving DecidableEq, Repr

namespace WrittenNames

variable (machine : Machine)

def step (r : Repository) (call : NameCall) : Repository := (exec (call.name.store machine call.thread) r).2

def run (calls : List NameCall) : Repository := calls.foldl (step machine) (Repository.empty machine)

/-- The clock is read once by each accepted call, and once before all calls. -/
def readings (calls : List NameCall) : Nat := (calls.filter (fun call => call.name.accepted)).length

def interval (reading : Nat) : Int := toCacheInterval (machine.currentTimeMillis reading)

/-- The interval in which an accepted call is made after others. -/
def intervalAfter (calls : List NameCall) : Int := interval machine (readings calls + 1)

/-- The call has its statement executed: it makes a row where there is none. -/
def Executes (call : NameCall) (r : Repository) : Prop :=
  (step machine { r with session := {} } call).session = Keyspace.execute {} call.name.insert

/-- **Each name is written in each interval in which it is stored.** -/
def FreshNames (calls : List NameCall) : Prop :=
  ∀ before call after, calls = before ++ call :: after → call.name.accepted = true →
    ∃ before' call' after', calls = before' ++ call' :: after' ∧ call'.name = call.name ∧
      intervalAfter machine before' = intervalAfter machine before ∧ Executes machine call' (run machine before')

/-! ## One call -/

variable {machine} {call : NameCall} {r : Repository}

theorem exec_checkArgument_bind (b : Bool) (f : Unit → Effect Throwable Repository Unit) (r : Repository) :
    exec (checkArgument b >>= f) r = if b then exec (f ()) r else (.error ⟨"IllegalArgumentException", ""⟩, r) := by
  cases b <;> rfl

theorem exec_store (name : StoredName) (thread : Nat) (r : Repository) :
    exec (name.store machine thread) r =
      if name.accepted then exec (storeName machine thread name.text name.insert) r
      else (.error ⟨"IllegalArgumentException", ""⟩, r) := by
  cases name with
  | service s => exact exec_checkArgument_bind _ _ r
  | span s n =>
    rw [StoredName.store, storeSpanName, exec_checkArgument_bind, exec_checkArgument_bind, StoredName.accepted]
    cases decide (s ≠ "") <;> rfl

theorem step_of_not_accepted (h : call.name.accepted = false) : step machine r call = r := by
  rw [step, exec_store, h]
  rfl

/-- **An accepted call executes its statement** unless the name is in the set of its thread, as the call finds it. -/
theorem step_of_accepted (h : call.name.accepted = true) : step machine r call =
    let r := refreshed machine call.thread r
    if call.name.text ∈ r.names call.thread then r
    else { r with
      names := Function.update r.names call.thread (r.names call.thread ++ [call.name.text])
      session := r.session.execute call.name.insert } := by
  rw [step, exec_store, if_pos h, exec_storeName]

variable (machine) in
theorem reads_refreshed (thread : Nat) (r : Repository) : (refreshed machine thread r).reads = r.reads + 1 := by
  unfold refreshed
  dsimp only
  split <;> rfl

variable (machine) in
theorem cacheInterval_refreshed (thread : Nat) (r : Repository) :
    (refreshed machine thread r).cacheInterval = toCacheInterval (machine.currentTimeMillis r.reads) := by
  unfold refreshed
  dsimp only
  split
  · rfl
  · rename_i h
    exact not_not.1 h

theorem names_refreshed (thread : Nat) (r : Repository) (other : Nat) : (refreshed machine thread r).names other =
    if other = thread ∧ r.cacheInterval ≠ toCacheInterval (machine.currentTimeMillis r.reads) then []
    else r.names other := by
  unfold refreshed
  dsimp only
  by_cases hopens : r.cacheInterval ≠ toCacheInterval (machine.currentTimeMillis r.reads)
  · rw [if_pos hopens]
    dsimp only
    by_cases hother : other = thread
    · rw [if_pos ⟨hother, hopens⟩, hother, Function.update_self]
    · rw [if_neg (fun h => hother h.1), Function.update_of_ne hother]
  · rw [if_neg hopens, if_neg (fun h => hopens h.2)]

theorem executes_iff (h : call.name.accepted = true) :
    Executes machine call r ↔ call.name.text ∉ (refreshed machine call.thread r).names call.thread := by
  have hnames : (refreshed machine call.thread { r with session := {} }).names =
      (refreshed machine call.thread r).names := by
    unfold refreshed
    dsimp only
    split <;> rfl
  have hsession : (refreshed machine call.thread { r with session := {} }).session = {} := session_refreshed _ _ _
  have hne : ({} : Keyspace) ≠ Keyspace.execute {} call.name.insert := by
    cases call.name <;> simp [StoredName.insert, Keyspace.execute, AssocMap.put]
  rw [Executes, step_of_accepted h]
  dsimp only
  rw [hnames]
  split
  · rename_i hmem
    rw [hsession]
    exact ⟨fun he => absurd he hne, fun hnot => absurd hmem hnot⟩
  · rename_i hmem
    rw [hsession]
    exact ⟨fun _ => hmem, fun _ => rfl⟩

/-! ## A run -/

variable {calls : List NameCall}

theorem run_append_singleton : run machine (calls ++ [call]) = step machine (run machine calls) call := by
  rw [run, List.foldl_append]
  rfl

theorem readings_append_singleton :
    readings (calls ++ [call]) = if call.name.accepted then readings calls + 1 else readings calls := by
  rw [readings, List.filter_append, List.length_append]
  cases h : call.name.accepted <;> simp [h, readings]

variable (machine) in
/-- The run has read the clock for each accepted call, and the shared interval is that of the last reading. -/
theorem clock_of_run (calls : List NameCall) : (run machine calls).reads = readings calls + 1 ∧
    (run machine calls).cacheInterval = interval machine (readings calls) := by
  induction calls using List.reverseRecOn with
  | nil => exact ⟨rfl, rfl⟩
  | append_singleton calls call ih =>
    rw [run_append_singleton, readings_append_singleton]
    cases h : call.name.accepted with
    | false =>
      rw [step_of_not_accepted h]
      exact ih
    | true =>
      have hreads := reads_refreshed machine call.thread (run machine calls)
      have hinterval := cacheInterval_refreshed machine call.thread (run machine calls)
      rw [ih.1] at hreads hinterval
      rw [step_of_accepted h]
      dsimp only
      split <;> exact ⟨hreads, hinterval⟩

/-! ## What is in the sets -/

def By (thread : Nat) (call : NameCall) : Prop := call.thread = thread ∧ call.name.accepted = true

variable (machine) in
/-- The next accepted call is the first that is made in its interval, and gets a new set. -/
def Opens (calls : List NameCall) : Prop := interval machine (readings calls) ≠ intervalAfter machine calls

instance : Decidable (Opens machine calls) := inferInstanceAs (Decidable (_ ≠ _))

variable (machine) in
/-- The thread has stored a name with this text, and has opened no interval since. -/
def Cached (calls : List NameCall) (thread : Nat) (text : String) : Prop :=
  ∃ before call after, calls = before ++ call :: after ∧ By thread call ∧ call.name.text = text ∧
    ∀ mid later rest, after = mid ++ later :: rest → By thread later → ¬ Opens machine (before ++ call :: mid)

theorem cached_append_singleton {thread : Nat} {text : String} : Cached machine (calls ++ [call]) thread text ↔
    By thread call ∧ call.name.text = text ∨
      Cached machine calls thread text ∧ ¬ (By thread call ∧ Opens machine calls) := by
  constructor
  · rintro ⟨before, first, after, heq, hby, htext, hlater⟩
    rcases List.eq_nil_or_concat after with rfl | ⟨after, last, rfl⟩
    · obtain ⟨-, hcall⟩ := List.append_inj' heq rfl
      obtain ⟨rfl, -⟩ := List.cons.inj hcall
      exact Or.inl ⟨hby, htext⟩
    · have hassoc : before ++ first :: after.concat last = (before ++ first :: after) ++ [last] := by simp
      obtain ⟨rfl, hlast⟩ := List.append_inj' (heq.trans hassoc) rfl
      obtain ⟨rfl, -⟩ := List.cons.inj hlast
      refine Or.inr ⟨⟨before, first, after, rfl, hby, htext, fun mid later rest hmid => ?_⟩, fun h => ?_⟩
      · exact hlater mid later (rest ++ [call]) (by simp [hmid])
      · exact hlater after call [] (by simp) h.1 h.2
  · rintro (⟨hby, htext⟩ | ⟨⟨before, first, after, rfl, hby, htext, hlater⟩, hnot⟩)
    · exact ⟨calls, call, [], rfl, hby, htext, fun mid later rest hnil => by simp at hnil⟩
    · refine ⟨before, first, after ++ [call], by simp, hby, htext, fun mid later rest hmid hlaterby hopens => ?_⟩
      rcases List.eq_nil_or_concat rest with rfl | ⟨rest, last, rfl⟩
      · obtain ⟨rfl, hcall⟩ := List.append_inj' hmid rfl
        obtain ⟨rfl, -⟩ := List.cons.inj hcall
        exact hnot ⟨hlaterby, hopens⟩
      · have hassoc : mid ++ later :: rest.concat last = (mid ++ later :: rest) ++ [last] := by simp
        obtain ⟨hafter, -⟩ := List.append_inj' (hmid.trans hassoc) rfl
        exact hlater mid later rest hafter hlaterby hopens

theorem names_step_of_accepted (h : call.name.accepted = true) {thread : Nat} {text : String} :
    text ∈ (step machine r call).names thread ↔ call.thread = thread ∧ call.name.text = text ∨
      text ∈ (refreshed machine call.thread r).names thread := by
  rw [step_of_accepted h]
  dsimp only
  split
  · rename_i hmem
    refine ⟨Or.inr, fun hor => hor.elim ?_ id⟩
    rintro ⟨rfl, rfl⟩
    exact hmem
  · dsimp only
    by_cases hthread : call.thread = thread
    · subst hthread
      rw [Function.update_self, List.mem_append, List.mem_singleton, or_comm, eq_comm]
      exact or_congr_left ⟨fun h => ⟨rfl, h⟩, And.right⟩
    · rw [Function.update_of_ne (Ne.symm hthread)]
      exact (or_iff_right (fun h => hthread h.1)).symm

theorem names_refreshed_run (thread other : Nat) :
    (refreshed machine thread (run machine calls)).names other =
      if other = thread ∧ Opens machine calls then [] else (run machine calls).names other := by
  obtain ⟨hreads, hinterval⟩ := clock_of_run machine calls
  rw [names_refreshed, hinterval, hreads]
  rfl

/-- **The set of a thread has what the thread has stored since it last opened an interval.** -/
theorem mem_names_run {thread : Nat} {text : String} (calls : List NameCall) :
    text ∈ (run machine calls).names thread ↔ Cached machine calls thread text := by
  induction calls using List.reverseRecOn with
  | nil =>
    refine ⟨fun h => (List.not_mem_nil h).elim, ?_⟩
    rintro ⟨before, call, after, heq, -⟩
    simp at heq
  | append_singleton calls call ih =>
    rw [run_append_singleton, cached_append_singleton, ← ih]
    cases h : call.name.accepted with
    | false =>
      have hby : ¬ By thread call := fun hby => by
        rw [hby.2] at h
        cases h
      rw [step_of_not_accepted h]
      simp [hby]
    | true =>
      rw [names_step_of_accepted h, names_refreshed_run]
      by_cases hopens : thread = call.thread ∧ Opens machine calls
      · rw [if_pos hopens]
        simp [By, h, hopens.1, hopens.2]
      · rw [if_neg hopens]
        refine or_congr (by simp [By, h]) (iff_self_and.2 (fun _ hby => hopens ⟨hby.1.1.symm, hby.2⟩))

/-! ## Fresh names -/

theorem executes_run_iff (h : call.name.accepted = true) : Executes machine call (run machine calls) ↔
    Opens machine calls ∨ ¬ Cached machine calls call.thread call.name.text := by
  rw [executes_iff h, names_refreshed_run, ← mem_names_run]
  by_cases hopens : Opens machine calls
  · rw [if_pos ⟨rfl, hopens⟩]
    exact iff_of_true List.not_mem_nil (Or.inl hopens)
  · rw [if_neg (fun h => hopens h.2), or_iff_right hopens]

/-- **When names stay fresh**: of the calls that store a name in an interval, one opens the interval, or is of a thread
that has not stored the text since it last opened one. -/
theorem freshNames_iff (machine : Machine) (calls : List NameCall) : FreshNames machine calls ↔
    ∀ before call after, calls = before ++ call :: after → call.name.accepted = true →
      ∃ before' call' after', calls = before' ++ call' :: after' ∧ call'.name = call.name ∧
        intervalAfter machine before' = intervalAfter machine before ∧
        (Opens machine before' ∨ ¬ Cached machine before' call'.thread call'.name.text) := by
  refine forall_congr' fun before => forall_congr' fun call => forall_congr' fun after =>
    forall_congr' fun _ => forall_congr' fun haccepted => exists_congr fun before' => exists_congr fun call' =>
      exists_congr fun after' => and_congr_right fun _ => and_congr_right fun hname => and_congr_right fun _ => ?_
  exact executes_run_iff (hname ▸ haccepted)

/-- The clock is read by the constructor and by one call in one interval, and in the next from then on. -/
def sampleMachine : Machine where
  locale := .ascii
  currentTimeMillis n := if n ≤ 1 then 0 else WRITTEN_NAMES_TTL
  nextInt _ := ⟨0, BUCKETS_pos⟩

/-- A thread stores a name in two intervals, and another thread opens the second. -/
def staleCalls : List NameCall := [⟨0, .service "web"⟩, ⟨1, .service "db"⟩, ⟨0, .service "web"⟩]

/-- The name is not written in the second interval. -/
theorem not_freshNames_staleCalls :
    (∀ m n, m ≤ n → sampleMachine.currentTimeMillis m ≤ sampleMachine.currentTimeMillis n) ∧
      ¬ FreshNames sampleMachine staleCalls := by
  refine ⟨fun m n hmn => ?_, fun h => ?_⟩
  · dsimp only [sampleMachine]
    split <;> split
    · exact Int.le_refl _
    · decide
    · omega
    · exact Int.le_refl _
  · obtain ⟨before, call, after, heq, hname, hinterval, hexecutes⟩ :=
      h [⟨0, .service "web"⟩, ⟨1, .service "db"⟩] ⟨0, .service "web"⟩ [] rfl (by decide)
    rcases before with _ | ⟨c₀, _ | ⟨c₁, _ | ⟨c₂, before⟩⟩⟩
    · revert hinterval
      decide
    · simp only [staleCalls, List.cons_append, List.nil_append] at heq
      cases heq
      revert hname
      decide
    · simp only [staleCalls, List.cons_append, List.nil_append] at heq
      cases heq
      revert hexecutes
      unfold Executes
      decide +kernel
    · have hlength := congrArg List.length heq
      simp [staleCalls] at hlength

end WrittenNames
end Zipkin
