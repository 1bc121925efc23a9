import Zipkin.AdaptiveSampler
import Zipkin.Base.AssocMap
import Zipkin.Base.Decimal
import Zipkin.Base.Following
import Zipkin.Base.Rounding
import Zipkin.Libs
import Mathlib.Tactic.Linarith
/-!
# RequestRates — what the collectors of a group report, and what is made of it

`FlowReportingFilter` and `GlobalSampleRateUpdater` of `AdaptiveSampler.scala`, `joinGroup` and `groupData` of
`ZooKeeperClient.scala`.  Each collector counts the spans that pass, and a timer takes the count and makes a rate of it.
The rate is passed on to the collector's node in the group by tasks of a pool, and whoever computes the sample rate lists
the nodes, reads them one by one and adds up what they say.  All of this happens in any order, and any call to ZooKeeper
can fail.
-/
namespace Zipkin

open Following Transition

namespace RequestRates

abbrev Bytes := List UInt8

open AdaptiveSampler.OutlierCheck (wrap32)

/-! ## A member of the group -/

/-- `Double.toInt` of a whole number: the range is kept. -/
def saturate (n : Int) : Int := max (-2 ^ 31) (min n (2 ^ 31 - 1))

/-- What `a / b` is rounded to, in units of `2 ^ -65`; below 1 it is only known to be there. -/
def quotient (a b : Nat) : Nat := Rounding.nearest 53 (2 * (a * 2 ^ 64 / b) + if a * 2 ^ 64 % b = 0 then 0 else 1)

/-- `(1.0 * count * 60.seconds.inNanoseconds / freq.inNanoseconds).toInt`, in `Double`: by 0 it is infinite, or no number. -/
def perMinute (freq : Nat) (count : Int) : Int :=
  if freq = 0 then saturate (count.sign * 2 ^ 31)
  else saturate (count.sign *
    (quotient (Rounding.nearest 53 (count.natAbs * 60000000000)) (Rounding.nearest 53 freq) / 2 ^ 65 : Nat))

/-- `_.toString.getBytes` -/
def toBytes (rate : Int) : Bytes := getBytesUtf8 (String.ofList (Decimal.signed rate))

inductive Membership where
  | apart
  /-- The node is created, and the witness is not registered yet. -/
  | joined
  | registered
  /-- The witness is closed, and the membership is cancelled. -/
  | cancelled
deriving DecidableEq, Repr

structure Member where
  membership : Membership
  /-- How many spans have passed the filter. -/
  passed : Nat
  spanCount : Int
  /-- What the timer has taken, latest first. -/
  counts : List Int
  /-- The values of `curReqRate`, latest first. -/
  rates : List Int
  curVal : Bytes
  /-- How many calls of `updateMemberData` wait in the pool. -/
  tasks : Nat
  /-- The call that is running, with what it was supplied with: the method is synchronized. -/
  updating : Option Bytes
  /-- The call that came to its end last has thrown. -/
  failed : Bool
  /-- What the node was set to, latest first. -/
  data : List Bytes

namespace Member

def new : Member := ⟨.apart, 0, 0, [], [0], [], 0, none, false, []⟩

def curReqRate (m : Member) : Int := m.rates.headD 0

/-- The node is there. -/
def present (m : Member) : Bool := m.membership == .joined || m.membership == .registered

inductive Event where
  | pass (spans : Nat)
  | report
  | join
  | register
  | supply
  | write
  | writeFails
  | cancel

/-- The witness: `curVal.set(newVal); pool { m.updateMemberData() }` -/
def witness (m : Member) (newVal : Int) : Member := { m with curVal := toBytes newVal, tasks := m.tasks + 1 }

/-- `curReqRate.update`, which tells the witness if there is one. -/
def updateRate (m : Member) (rate : Int) : Member :=
  if m.membership = .registered then { m with rates := rate :: m.rates }.witness rate
  else { m with rates := rate :: m.rates }

def step (freq : Nat) (m : Member) : Event → Option Member
  | .pass spans => some { m with passed := m.passed + spans, spanCount := wrap32 (m.spanCount + spans) }
  | .report => some ({ m with spanCount := 0, counts := m.spanCount :: m.counts }.updateRate (perMinute freq m.spanCount))
  | .join => if m.membership = .apart then some { m with membership := .joined, data := m.curVal :: m.data } else none
  | .register => if m.membership = .joined then some ({ m with membership := .registered }.witness m.curReqRate) else none
  | .supply =>
    if 0 < m.tasks ∧ m.updating = none then some { m with tasks := m.tasks - 1, updating := some m.curVal } else none
  | .write => match m.updating with
    | some bytes => some { m with
        updating := none, failed := !m.present, data := if m.present then bytes :: m.data else m.data }
    | none => none
  | .writeFails => if m.updating.isSome then some { m with updating := none, failed := true } else none
  | .cancel => if m.membership = .registered then some { m with membership := .cancelled } else none

/-- What a step can be. -/
inductive Takes (freq : Nat) (m : Member) : Event → Member → Prop
  | pass (spans : Nat) :
    Takes freq m (.pass spans) { m with passed := m.passed + spans, spanCount := wrap32 (m.spanCount + spans) }
  | report : Takes freq m .report
    ({ m with spanCount := 0, counts := m.spanCount :: m.counts }.updateRate (perMinute freq m.spanCount))
  | join (h : m.membership = .apart) : Takes freq m .join { m with membership := .joined, data := m.curVal :: m.data }
  | register (h : m.membership = .joined) :
    Takes freq m .register ({ m with membership := .registered }.witness m.curReqRate)
  | supply (h : 0 < m.tasks) : Takes freq m .supply { m with tasks := m.tasks - 1, updating := some m.curVal }
  | write {bytes : Bytes} (h : m.updating = some bytes) : Takes freq m .write { m with
      updating := none, failed := !m.present, data := if m.present then bytes :: m.data else m.data }
  | writeFails (h : m.updating.isSome = true) : Takes freq m .writeFails { m with updating := none, failed := true }
  | cancel (h : m.membership = .registered) : Takes freq m .cancel { m with membership := .cancelled }

theorem takes_of_step {freq : Nat} {m m' : Member} {event : Event} (hstep : m.step freq event = some m') :
    Takes freq m event m' := by
  cases event with
  | pass spans => exact Option.some.inj hstep ▸ .pass spans
  | report => exact Option.some.inj hstep ▸ .report
  | write =>
    simp only [step] at hstep
    split at hstep
    · rename_i bytes hbytes
      exact Option.some.inj hstep ▸ .write hbytes
    · cases hstep
  | supply =>
    obtain ⟨⟨htasks, -⟩, hstep⟩ := Option.ite_none_right_eq_some.1 hstep
    exact Option.some.inj hstep ▸ .supply htasks
  | join | register | writeFails | cancel =>
    obtain ⟨h, hstep⟩ := Option.ite_none_right_eq_some.1 hstep
    obtain rfl := Option.some.inj hstep
    constructor
    exact h

/-! ### What a member's node says -/

/-- The bytes the node should have had, latest first: at first there are none. -/
def reported (m : Member) : List Bytes := m.rates.map toBytes ++ [[]]

/-- What the node says follows the rates, and a call that waits or runs will bring it up to date. -/
structure Reports (m : Member) : Prop where
  follows : Follows m.reported m.data
  updating : m.present = true → ∀ bytes ∈ m.updating, Follows m.reported (bytes :: m.data)
  apart : m.membership = .apart → m.data = []
  unregistered : m.membership = .apart ∨ m.membership = .joined → m.curVal = [] ∧ m.tasks = 0 ∧ m.updating = none
  latest : m.membership = .registered → m.curVal = toBytes m.curReqRate ∧
    (m.tasks = 0 → m.updating = some m.curVal ∨
      m.updating = none ∧ (m.failed = true ∨ m.data.head? = some m.curVal))
  rates_ne_nil : m.rates ≠ []

section Steps
variable {freq : Nat} {m m' : Member} {event : Event}

theorem reports_new : new.Reports where
  follows := Follows.nil _
  updating := nofun
  apart _ := rfl
  unregistered _ := ⟨rfl, rfl, rfl⟩
  latest := nofun
  rates_ne_nil := List.cons_ne_nil _ _

theorem head?_reported (h : m.rates ≠ []) : m.reported.head? = some (toBytes m.curReqRate) := by
  unfold reported curReqRate
  cases hrates : m.rates with
  | nil => exact absurd hrates h
  | cons rate rates => rfl

/-- **A new rate** is passed on to the witness, if there is one. -/
theorem Reports.updateRate (h : m.Reports) (rate : Int) : (m.updateRate rate).Reports := by
  unfold Member.updateRate
  split
  · rename_i hregistered
    exact {
      follows := h.follows.write _
      updating := fun hpresent bytes hbytes => (h.updating hpresent bytes hbytes).write _
      apart := h.apart
      unregistered := fun hun => by rcases hun with hun | hun <;> exact absurd (hregistered.symm.trans hun) nofun
      latest := fun _ => ⟨rfl, nofun⟩
      rates_ne_nil := List.cons_ne_nil _ _ }
  · rename_i hregistered
    exact {
      follows := h.follows.write _
      updating := fun hpresent bytes hbytes => (h.updating hpresent bytes hbytes).write _
      apart := h.apart
      unregistered := h.unregistered
      latest := fun hreg => absurd hreg hregistered
      rates_ne_nil := List.cons_ne_nil _ _ }

theorem Reports.of_counts (h : m.Reports) (passed : Nat) (spanCount : Int) (counts : List Int) :
    ({ m with passed := passed, spanCount := spanCount, counts := counts } : Member).Reports :=
  ⟨h.follows, h.updating, h.apart, h.unregistered, h.latest, h.rates_ne_nil⟩

theorem present_iff : m.present = true ↔ m.membership = .joined ∨ m.membership = .registered := by
  rw [present, Bool.or_eq_true, beq_iff_eq, beq_iff_eq]

theorem Reports.supply (h : m.Reports) (htasks : 0 < m.tasks) :
    ({ m with tasks := m.tasks - 1, updating := some m.curVal } : Member).Reports where
  follows := h.follows
  updating hpresent bytes hbytes := by
    obtain rfl := Option.some.inj hbytes
    rcases present_iff.1 hpresent with hjoined | hregistered
    · exact absurd (h.unregistered (Or.inr hjoined)).2.1 htasks.ne'
    · exact h.follows.show_head ((h.latest hregistered).1 ▸ head?_reported h.rates_ne_nil)
  apart := h.apart
  unregistered hun := absurd (h.unregistered hun).2.1 htasks.ne'
  latest hregistered := ⟨(h.latest hregistered).1, fun _ => Or.inl rfl⟩
  rates_ne_nil := h.rates_ne_nil

theorem Reports.write (h : m.Reports) {bytes : Bytes} (hbytes : m.updating = some bytes) :
    ({ m with
      updating := none
      failed := !m.present
      data := if m.present then bytes :: m.data else m.data } : Member).Reports where
  follows := by
    dsimp only
    split
    · rename_i hpresent
      exact h.updating hpresent bytes hbytes
    · exact h.follows
  updating _ _ hnone := by cases hnone
  apart hapart := absurd (hbytes.symm.trans (h.unregistered (Or.inl hapart)).2.2) nofun
  unregistered hun := absurd (hbytes.symm.trans (h.unregistered hun).2.2) nofun
  latest hregistered := by
    refine ⟨(h.latest hregistered).1, fun htasks => Or.inr ⟨rfl, Or.inr ?_⟩⟩
    have hpresent : m.present = true := present_iff.2 (Or.inr hregistered)
    dsimp only
    rw [if_pos hpresent]
    rcases (h.latest hregistered).2 htasks with hsome | ⟨hnone, -⟩
    · exact hbytes.symm.trans hsome
    · exact absurd (hbytes.symm.trans hnone) nofun
  rates_ne_nil := h.rates_ne_nil

theorem Reports.writeFails (h : m.Reports) (hsome : m.updating.isSome = true) :
    ({ m with updating := none, failed := true } : Member).Reports where
  follows := h.follows
  updating _ _ hnone := by cases hnone
  apart := h.apart
  unregistered hun := by
    rw [(h.unregistered hun).2.2] at hsome
    cases hsome
  latest hregistered := ⟨(h.latest hregistered).1, fun _ => Or.inr ⟨rfl, Or.inl rfl⟩⟩
  rates_ne_nil := h.rates_ne_nil

theorem Reports.join (h : m.Reports) (hapart : m.membership = .apart) :
    ({ m with membership := .joined, data := m.curVal :: m.data } : Member).Reports where
  follows := by
    dsimp only
    rw [h.apart hapart, (h.unregistered (Or.inl hapart)).1]
    exact Follows.singleton (List.mem_append_right _ List.mem_cons_self)
  updating _ bytes hbytes := by
    rw [(h.unregistered (Or.inl hapart)).2.2] at hbytes
    cases hbytes
  apart := nofun
  unregistered _ := h.unregistered (Or.inl hapart)
  latest := nofun
  rates_ne_nil := h.rates_ne_nil

theorem Reports.register (h : m.Reports) (hjoined : m.membership = .joined) :
    ({ m with membership := .registered }.witness m.curReqRate).Reports where
  follows := h.follows
  updating _ bytes hbytes := by
    change bytes ∈ m.updating at hbytes
    rw [(h.unregistered (Or.inr hjoined)).2.2] at hbytes
    cases hbytes
  apart := nofun
  unregistered := nofun
  latest _ := ⟨rfl, nofun⟩
  rates_ne_nil := h.rates_ne_nil

/-- **A member takes a step.** -/
theorem Reports.step (h : m.Reports) (hstep : m.step freq event = some m') : m'.Reports := by
  cases takes_of_step hstep with
  | pass spans => exact h.of_counts _ _ _
  | report => exact (h.of_counts _ _ _).updateRate _
  | join hapart => exact h.join hapart
  | register hjoined => exact h.register hjoined
  | supply htasks => exact h.supply htasks
  | write hbytes => exact h.write hbytes
  | writeFails hsome => exact h.writeFails hsome
  | cancel => exact ⟨h.follows, nofun, nofun, nofun, nofun, h.rates_ne_nil⟩

/-- Nothing is on its way from the member to its node, and the last call has gone through. -/
def AtRest (m : Member) : Prop :=
  m.membership = .registered ∧ m.tasks = 0 ∧ m.updating = none ∧ m.failed = false

theorem Reports.head?_of_atRest (h : m.Reports) (hrest : m.AtRest) : m.data.head? = some (toBytes m.curReqRate) := by
  obtain ⟨hregistered, htasks, hnone, hfailed⟩ := hrest
  obtain ⟨hcur, hlatest⟩ := h.latest hregistered
  rcases hlatest htasks with hsome | ⟨-, hthrown | hdata⟩
  · exact absurd (hsome.symm.trans hnone) nofun
  · exact absurd (hfailed.symm.trans hthrown) nofun
  · rw [hdata, hcur]

/-- Every span that passed is in one count, or is not counted yet, as far as an `Int` can count. -/
structure Accounted (freq : Nat) (m : Member) : Prop where
  counted : (2 ^ 32 : Int) ∣ m.passed - (m.counts.sum + m.spanCount)
  rates_eq : m.rates = m.counts.map (perMinute freq) ++ [0]

theorem accounted_new : new.Accounted freq := ⟨⟨0, rfl⟩, rfl⟩

theorem Accounted.updateRate (h : m.Accounted freq) :
    (({ m with spanCount := 0, counts := m.spanCount :: m.counts } : Member).updateRate
      (perMinute freq m.spanCount)).Accounted freq := by
  have hcount : ((2 ^ 32 : Int) ∣ m.passed - ((m.spanCount :: m.counts).sum + 0)) := by
    rw [List.sum_cons, add_zero, add_comm]
    exact h.counted
  have hrates := congrArg (perMinute freq m.spanCount :: ·) h.rates_eq
  unfold Member.updateRate
  split <;> exact ⟨hcount, hrates⟩

theorem Accounted.step (h : m.Accounted freq) (hstep : m.step freq event = some m') : m'.Accounted freq := by
  cases takes_of_step hstep with
  | pass spans =>
    refine ⟨?_, h.rates_eq⟩
    obtain ⟨k, hk⟩ := h.counted
    have hq := Int.bmod_eq_self_sub_mul_bdiv (m.spanCount + spans) (2 ^ 32)
    refine ⟨k + Int.bdiv (m.spanCount + spans) (2 ^ 32), ?_⟩
    rw [Nat.cast_pow, Nat.cast_ofNat] at hq
    dsimp only [wrap32]
    rw [hq, Nat.cast_add]
    linarith
  | report => exact h.updateRate
  | join | register | supply | write | writeFails | cancel => exact ⟨h.counted, h.rates_eq⟩

/-- What a member's node was set to stays there, and at most one value is added. -/
theorem data_step (hstep : m.step freq event = some m') : m'.data = m.data ∨ ∃ bytes, m'.data = bytes :: m.data := by
  cases takes_of_step hstep with
  | report =>
    unfold Member.updateRate
    split <;> exact Or.inl rfl
  | join => exact Or.inr ⟨m.curVal, rfl⟩
  | @write bytes hbytes =>
    dsimp only
    split
    · exact Or.inr ⟨bytes, rfl⟩
    · exact Or.inl rfl
  | pass | register | supply | writeFails | cancel => exact Or.inl rfl

end Steps
end Member

/-! ## The group -/

/-- `update()` of `groupData`, which waits for `freq` between two calls. -/
inductive Poll where
  | waiting
  /-- The ids that were listed, and the data that have come in. -/
  | reading (ids : List Nat) (got : List (Nat × Bytes))
  /-- The future that the next call is chained to has failed. -/
  | stopped

/-- The data that have come in. -/
def Poll.got : Poll → List (Nat × Bytes)
  | .reading _ got => got
  | _ => []

structure Group where
  members : List Member
  poll : Poll
  /-- What the `Var` was updated with, latest first, each value with its member. -/
  polls : List (List (Nat × Bytes))

inductive Event where
  | member (i : Nat) (event : Member.Event)
  | list
  /-- `getMemberIds` throws, or the path of the group could not be made. -/
  | listFails
  | read (i : Nat)
  /-- `getData` fails, for another reason than that there is no node. -/
  | readFails (i : Nat)
  | deliver
  /-- `updater.raise`: whether the future that is waited for heeds the interrupt is left to it. -/
  | close (heeded : Bool)

namespace Group

def new (size : Nat) : Group := ⟨List.replicate size .new, .waiting, []⟩

/-- `getMemberIds` -/
def memberIds (s : Group) : List Nat := (s.members.zipIdx.filter fun e => e.1.present).map Prod.snd

/-- `getData` of a member's node, if it is there. -/
def memberData (s : Group) (i : Nat) : Option Bytes := do
  let m ← s.members[i]?
  if m.present then m.data.head? else none

def step (freq : Nat) (s : Group) : Event → Option Group
  | .member i event => do
    let m ← s.members[i]?
    let m' ← m.step freq event
    some { s with members := s.members.set i m' }
  | .list => match s.poll with
    | .waiting => some { s with poll := .reading s.memberIds [] }
    | _ => none
  | .listFails => match s.poll with
    | .waiting => some { s with poll := .stopped }
    | _ => none
  | .read i => match s.poll with
    | .reading ids got =>
      if i ∈ ids ∧ got.lookup i = none then
        match s.memberData i with
        | some bytes => some { s with poll := .reading ids ((i, bytes) :: got) }
        | none => some { s with poll := .stopped }
      else none
    | _ => none
  | .readFails i => match s.poll with
    | .reading ids got => if i ∈ ids ∧ got.lookup i = none then some { s with poll := .stopped } else none
    | _ => none
  | .deliver => match s.poll with
    | .reading ids got =>
      if ∀ i ∈ ids, (got.lookup i).isSome then
        some { s with poll := .waiting, polls := (ids.map fun i => (i, (got.lookup i).getD [])) :: s.polls }
      else none
    | _ => none
  | .close heeded => some (if heeded then { s with poll := .stopped } else s)

end Group

/-- `try new String(bytes).toInt catch { case e: Exception => 0 }` -/
def memberVal (libs : Libs) (bytes : Bytes) : Int :=
  ((Decimal.readSigned (libs.newString bytes).toList).filter fun n => -2 ^ 31 ≤ n ∧ n < 2 ^ 31).getD 0

/-- `memberVals.sum` -/
def globalRate (libs : Libs) (vals : List Bytes) : Int := (vals.map (memberVal libs)).foldl (fun sum n => wrap32 (sum + n)) 0

/-! ### What is read from a member -/

namespace Group

open AssocMap

variable {freq : Nat} {s s' : Group} {event : Event}

/-- What a step can be. -/
inductive Takes (freq : Nat) (s : Group) : Event → Group → Prop
  | member {i : Nat} {m m' : Member} {event : Member.Event} (hm : s.members[i]? = some m)
    (hm' : m.step freq event = some m') : Takes freq s (.member i event) { s with members := s.members.set i m' }
  | list (h : s.poll = .waiting) : Takes freq s .list { s with poll := .reading s.memberIds [] }
  | read {i : Nat} {ids : List Nat} {got : List (Nat × Bytes)} {bytes : Bytes} (h : s.poll = .reading ids got)
    (hi : i ∈ ids) (hnone : got.lookup i = none) (hbytes : s.memberData i = some bytes) :
    Takes freq s (.read i) { s with poll := .reading ids ((i, bytes) :: got) }
  | missing {i : Nat} {ids : List Nat} {got : List (Nat × Bytes)} (h : s.poll = .reading ids got)
    (hnone : s.memberData i = none) : Takes freq s (.read i) { s with poll := .stopped }
  | listFails (h : s.poll = .waiting) : Takes freq s .listFails { s with poll := .stopped }
  | readFails {i : Nat} {ids : List Nat} {got : List (Nat × Bytes)} (h : s.poll = .reading ids got) :
    Takes freq s (.readFails i) { s with poll := .stopped }
  | heeded : Takes freq s (.close true) { s with poll := .stopped }
  | unheeded : Takes freq s (.close false) s
  | deliver {ids : List Nat} {got : List (Nat × Bytes)} (h : s.poll = .reading ids got)
    (hall : ∀ i ∈ ids, (got.lookup i).isSome) : Takes freq s .deliver
      { s with poll := .waiting, polls := (ids.map fun i => (i, (got.lookup i).getD [])) :: s.polls }

theorem takes_of_step (hstep : s.step freq event = some s') : Takes freq s event s' := by
  cases event with
  | member i e =>
    obtain ⟨m, hm, hstep⟩ := Option.bind_eq_some_iff.1 hstep
    obtain ⟨m', hm', hstep⟩ := Option.bind_eq_some_iff.1 hstep
    exact Option.some.inj hstep ▸ .member hm hm'
  | list =>
    simp only [step] at hstep
    split at hstep
    · rename_i hpoll
      exact Option.some.inj hstep ▸ .list hpoll
    · cases hstep
  | read i =>
    simp only [step] at hstep
    split at hstep
    · rename_i ids got hpoll
      obtain ⟨⟨hi, hnone⟩, hstep⟩ := Option.ite_none_right_eq_some.1 hstep
      split at hstep
      · rename_i bytes hbytes
        exact Option.some.inj hstep ▸ .read hpoll hi hnone hbytes
      · rename_i hbytes
        exact Option.some.inj hstep ▸ .missing hpoll hbytes
    · cases hstep
  | listFails =>
    simp only [step] at hstep
    split at hstep
    · rename_i hpoll
      exact Option.some.inj hstep ▸ .listFails hpoll
    · cases hstep
  | readFails i =>
    simp only [step] at hstep
    split at hstep
    · rename_i ids got hpoll
      obtain ⟨-, hstep⟩ := Option.ite_none_right_eq_some.1 hstep
      exact Option.some.inj hstep ▸ .readFails hpoll
    · cases hstep
  | close heeded =>
    cases heeded with
    | true => exact Option.some.inj hstep ▸ .heeded
    | false => exact Option.some.inj hstep ▸ .unheeded
  | deliver =>
    simp only [step] at hstep
    split at hstep
    · rename_i ids got hpoll
      obtain ⟨hall, hstep⟩ := Option.ite_none_right_eq_some.1 hstep
      exact Option.some.inj hstep ▸ .deliver hpoll hall
    · cases hstep

/-- What has been read from a member's node, latest first. -/
def reads (s : Group) (i : Nat) : List Bytes := (s.poll.got.lookup i).toList ++ s.polls.filterMap (·.lookup i)

/-- A reading that is going on is one of the members that were listed. -/
structure Reading (s : Group) (ids : List Nat) (got : List (Nat × Bytes)) : Prop where
  nodup : ids.Nodup
  listed : ∀ i ∈ ids, i < s.members.length
  got_mem : ∀ i bytes, got.lookup i = some bytes → i ∈ ids

/-- Each member reports, and what is read from its node follows it. -/
structure Tracked (freq : Nat) (s : Group) : Prop where
  members : ∀ i m, s.members[i]? = some m → m.Reports ∧ m.Accounted freq ∧ Follows m.data (s.reads i)
  reading : ∀ ids got, s.poll = .reading ids got → s.Reading ids got
  polls : ∀ poll ∈ s.polls, (poll.map Prod.fst).Nodup ∧ ∀ e ∈ poll, e.1 < s.members.length

theorem tracked_new (size : Nat) : (new size).Tracked freq where
  members i m hm := by
    obtain rfl := List.eq_of_mem_replicate (List.mem_of_getElem? hm)
    exact ⟨Member.reports_new, Member.accounted_new, Follows.nil _⟩
  reading := nofun
  polls := nofun

/-- The members are as they were, and each of them was read from as much as before or less. -/
theorem Tracked.of_members (h : s.Tracked freq) (hmembers : s'.members = s.members)
    (hreads : ∀ i, s'.reads i <:+ s.reads i) (hreading : ∀ ids got, s'.poll = .reading ids got → s'.Reading ids got)
    (hpolls : ∀ poll ∈ s'.polls, (poll.map Prod.fst).Nodup ∧ ∀ e ∈ poll, e.1 < s'.members.length) : s'.Tracked freq where
  members i m hm := by
    obtain ⟨hreports, haccounted, hfollows⟩ := h.members i m (hmembers ▸ hm)
    exact ⟨hreports, haccounted, hfollows.of_suffix (hreads i)⟩
  reading := hreading
  polls := hpolls

theorem Tracked.member {i : Nat} {m m' : Member} {e : Member.Event} (h : s.Tracked freq) (hm : s.members[i]? = some m)
    (hstep : m.step freq e = some m') : ({ s with members := s.members.set i m' } : Group).Tracked freq where
  members j n hn := by
    by_cases hij : i = j
    · subst hij
      obtain rfl := Option.some.inj ((List.getElem?_set_self (List.getElem?_eq_some_iff.1 hm).1).symm.trans hn)
      obtain ⟨hreports, haccounted, hfollows⟩ := h.members i m hm
      refine ⟨hreports.step hstep, haccounted.step hstep, ?_⟩
      rcases Member.data_step hstep with heq | ⟨bytes, heq⟩
      · exact heq ▸ hfollows
      · exact heq ▸ hfollows.write bytes
    · exact h.members j n ((List.getElem?_set_ne hij).symm.trans hn)
  reading ids got hpoll := by
    obtain ⟨hnodup, hlisted, hgot⟩ := h.reading ids got hpoll
    exact ⟨hnodup, fun j hj => (hlisted j hj).trans_eq List.length_set.symm, hgot⟩
  polls poll hpoll :=
    ⟨(h.polls poll hpoll).1, fun e he => ((h.polls poll hpoll).2 e he).trans_eq List.length_set.symm⟩

theorem nodup_memberIds (s : Group) : s.memberIds.Nodup := by
  refine List.Nodup.sublist (List.filter_sublist.map Prod.snd) ?_
  rw [List.zipIdx_map_snd]
  exact List.nodup_range'

theorem mem_memberIds {i : Nat} : i ∈ s.memberIds ↔ ∃ m, s.members[i]? = some m ∧ m.present = true := by
  unfold memberIds
  constructor
  · intro hi
    obtain ⟨⟨m, j⟩, he, rfl⟩ := List.mem_map.1 hi
    obtain ⟨hmem, hpresent⟩ := List.mem_filter.1 he
    exact ⟨m, List.mk_mem_zipIdx_iff_getElem?.1 hmem, hpresent⟩
  · rintro ⟨m, hm, hpresent⟩
    exact List.mem_map.2 ⟨(m, i), List.mem_filter.2 ⟨List.mk_mem_zipIdx_iff_getElem?.2 hm, hpresent⟩, rfl⟩

theorem lt_of_mem_memberIds {i : Nat} (hi : i ∈ s.memberIds) : i < s.members.length := by
  obtain ⟨m, hm, -⟩ := mem_memberIds.1 hi
  exact (List.getElem?_eq_some_iff.1 hm).1

theorem Tracked.list (h : s.Tracked freq) (hpoll : s.poll = .waiting) :
    ({ s with poll := .reading s.memberIds [] } : Group).Tracked freq := by
  refine h.of_members rfl (fun i => ?_) (fun ids got heq => ?_) h.polls
  · rw [reads, reads, hpoll]
    exact List.suffix_refl _
  · cases heq
    exact ⟨nodup_memberIds s, fun i hi => lt_of_mem_memberIds hi, nofun⟩

theorem Tracked.fails (h : s.Tracked freq) : ({ s with poll := .stopped } : Group).Tracked freq :=
  h.of_members rfl (fun _ => List.suffix_append _ _) nofun h.polls

theorem Tracked.read {i : Nat} {ids : List Nat} {got : List (Nat × Bytes)} {bytes : Bytes} (h : s.Tracked freq)
    (hpoll : s.poll = .reading ids got) (hi : i ∈ ids) (hnone : got.lookup i = none) (hbytes : s.memberData i = some bytes) :
    ({ s with poll := .reading ids ((i, bytes) :: got) } : Group).Tracked freq where
  members j m hm := by
    obtain ⟨hreports, haccounted, hfollows⟩ := h.members j m hm
    refine ⟨hreports, haccounted, ?_⟩
    rw [reads, hpoll] at hfollows
    dsimp only [reads, Poll.got] at hfollows ⊢
    by_cases hij : j = i
    · subst hij
      -- the node said so just now
      obtain ⟨m', hm', hdata⟩ := Option.bind_eq_some_iff.1 hbytes
      obtain rfl := Option.some.inj (hm.symm.trans hm')
      obtain ⟨-, hdata⟩ := Option.ite_none_right_eq_some.1 hdata
      rw [hnone] at hfollows
      rw [List.lookup_cons_self]
      exact hfollows.show_head hdata
    · rwa [List.lookup_cons, beq_false_of_ne hij]
  reading ids' got' heq := by
    obtain ⟨hnodup, hlisted, hgot⟩ := h.reading ids got hpoll
    cases heq
    refine ⟨hnodup, hlisted, fun j bytes' hj => ?_⟩
    rw [List.lookup_cons] at hj
    split at hj
    · rename_i heq
      exact beq_iff_eq.1 heq ▸ hi
    · exact hgot j bytes' hj
  polls := h.polls

theorem lookup_map_pair {g : Nat → Bytes} {i : Nat} : ∀ {ids : List Nat}, (ids.map fun i => (i, g i)).lookup i =
    if i ∈ ids then some (g i) else none
  | [] => rfl
  | j :: ids => by
    rw [List.map_cons, List.lookup_cons, lookup_map_pair]
    by_cases hij : i = j
    · subst hij
      rw [beq_self_eq_true, if_pos List.mem_cons_self]
    · rw [beq_false_of_ne hij]
      simp only [List.mem_cons, hij, false_or]

theorem Tracked.deliver {ids : List Nat} {got : List (Nat × Bytes)} (h : s.Tracked freq)
    (hpoll : s.poll = .reading ids got) (hall : ∀ i ∈ ids, (got.lookup i).isSome) :
    ({ s with
      poll := .waiting
      polls := (ids.map fun i => (i, (got.lookup i).getD [])) :: s.polls } : Group).Tracked freq := by
  obtain ⟨hnodup, hlisted, hgot⟩ := h.reading ids got hpoll
  refine h.of_members rfl (fun i => ?_) nofun (fun poll hmem => ?_)
  · have hlookup : (ids.map fun i => (i, (got.lookup i).getD [])).lookup i = got.lookup i := by
      rw [lookup_map_pair]
      split
      · rename_i hi
        obtain ⟨bytes, hbytes⟩ := Option.isSome_iff_exists.1 (hall i hi)
        rw [hbytes]
        rfl
      · rename_i hi
        cases hlookup : got.lookup i with
        | none => rfl
        | some bytes => exact absurd (hgot i bytes hlookup) hi
    rw [reads, reads, hpoll]
    dsimp only [Poll.got]
    rw [List.lookup_nil, List.filterMap_cons, hlookup]
    cases got.lookup i <;> exact List.suffix_refl _
  · rcases List.mem_cons.1 hmem with rfl | hmem
    · refine ⟨?_, fun e he => ?_⟩
      · rw [List.map_map]
        exact (List.map_id ids).symm ▸ hnodup
      · obtain ⟨i, hi, rfl⟩ := List.mem_map.1 he
        exact hlisted i hi
    · exact h.polls poll hmem

/-- **The group takes a step.** -/
theorem Tracked.step (h : s.Tracked freq) (hstep : s.step freq event = some s') : s'.Tracked freq := by
  cases takes_of_step hstep with
  | member hm hm' => exact h.member hm hm'
  | list hpoll => exact h.list hpoll
  | read hpoll hi hnone hbytes => exact h.read hpoll hi hnone hbytes
  | missing | listFails | readFails | heeded => exact h.fails
  | unheeded => exact h
  | deliver hpoll hall => exact h.deliver hpoll hall

theorem tracked_run {size : Nat} {events : List Event} (hrun : run (step freq) (new size) events = some s) :
    s.Tracked freq :=
  run_invariant (fun _ _ _ h hstep => Tracked.step h hstep) (tracked_new size) hrun

/-- **What a member's node says, and what is read from it, are rates the member reported, in that order**: no report is
lost for good, since the node says the latest once nothing of the member's is on its way, and a rate is made of each count,
in which each span is that passed. -/
theorem reports_of_run (freq size : Nat) (events : List Event) (s : Group)
    (hrun : run (step freq) (new size) events = some s) (i : Nat) (m : Member) (hm : s.members[i]? = some m) :
    (2 ^ 32 : Int) ∣ m.passed - (m.counts.sum + m.spanCount) ∧ m.rates = m.counts.map (perMinute freq) ++ [0] ∧
      Follows m.reported m.data ∧ Follows m.reported (s.reads i) ∧
      (m.AtRest → m.data.head? = some (toBytes m.curReqRate)) := by
  obtain ⟨hreports, haccounted, hfollows⟩ := (tracked_run hrun).members i m hm
  exact ⟨haccounted.counted, haccounted.rates_eq, hreports.follows, hreports.follows.trans hfollows,
    hreports.head?_of_atRest⟩

/-- Three spans in half a minute. -/
theorem reports_of_run_report : ∃ m : Member, m.curReqRate = 6 ∧ m.data.head? = some (toBytes 6) := by
  have h := reports_of_run 30000000000 1 [.member 0 .join, .member 0 .register, .member 0 (.pass 3), .member 0 .report,
    .member 0 .supply, .member 0 .write, .member 0 .supply, .member 0 .write] _ rfl 0 _ rfl
  exact ⟨_, by decide, h.2.2.2.2 ⟨rfl, rfl, rfl, rfl⟩⟩

end Group

/-! ### What the rates add up to -/

section Sums
variable (libs : Libs)

theorem memberVal_nil : memberVal libs [] = 0 := by
  have hempty : libs.newString [] = "" := libs.newString_getBytes ""
  rw [memberVal, hempty]
  rfl

theorem memberVal_toBytes {rate : Int} (hle : -2 ^ 31 ≤ rate) (hlt : rate < 2 ^ 31) :
    memberVal libs (toBytes rate) = rate := by
  rw [memberVal, toBytes, libs.newString_getBytes, String.toList_ofList, Decimal.readSigned_signed]
  have hrange : decide (-2 ^ 31 ≤ rate ∧ rate < 2 ^ 31) = true := decide_eq_true ⟨hle, hlt⟩
  rw [Option.filter_some, if_pos hrange, Option.getD_some]

theorem saturate_range (n : Int) : -2 ^ 31 ≤ saturate n ∧ saturate n < 2 ^ 31 := by
  unfold saturate
  omega

theorem perMinute_range (freq : Nat) (count : Int) : -2 ^ 31 ≤ perMinute freq count ∧ perMinute freq count < 2 ^ 31 := by
  by_cases h : freq = 0
  · rw [perMinute, if_pos h]
    exact saturate_range _
  · rw [perMinute, if_neg h]
    exact saturate_range _

variable {freq : Nat}

theorem Member.Accounted.rate_range {m : Member} (h : m.Accounted freq) :
    ∀ rate ∈ m.rates, -2 ^ 31 ≤ rate ∧ rate < 2 ^ 31 := by
  intro rate hrate
  rw [h.rates_eq, List.mem_append, List.mem_singleton] at hrate
  rcases hrate with hrate | rfl
  · obtain ⟨count, -, rfl⟩ := List.mem_map.1 hrate
    exact perMinute_range freq count
  · decide

theorem wrap32_wrap32_add (a b : Int) : wrap32 (wrap32 a + b) = wrap32 (a + b) := Int.bmod_add_bmod

theorem globalRate_eq (vals : List Bytes) : globalRate libs vals = wrap32 ((vals.map (memberVal libs)).sum) := by
  have hfold : ∀ (l : List Int) (a : Int), l.foldl (fun sum n => wrap32 (sum + n)) (wrap32 a) = wrap32 (a + l.sum) := by
    intro l
    induction l with
    | nil =>
      intro a
      rw [List.foldl_nil, List.sum_nil, add_zero]
    | cons n l ih =>
      intro a
      rw [List.foldl_cons, wrap32_wrap32_add, ih, List.sum_cons, add_assoc]
  have h := hfold (vals.map (memberVal libs)) 0
  rwa [zero_add] at h

/-- What a member's node said is read as no rate, or as one the member reported. -/
theorem memberVal_reported {m : Member} (h : m.Accounted freq) {bytes : Bytes} (hbytes : bytes ∈ m.reported) :
    memberVal libs bytes = 0 ∨ memberVal libs bytes ∈ m.rates := by
  rw [Member.reported, List.mem_append, List.mem_singleton] at hbytes
  rcases hbytes with hbytes | rfl
  · obtain ⟨rate, hrate, rfl⟩ := List.mem_map.1 hbytes
    obtain ⟨hle, hlt⟩ := h.rate_range rate hrate
    rw [memberVal_toBytes libs hle hlt]
    exact Or.inr hrate
  · exact Or.inl (memberVal_nil libs)

/-- **The rate that is computed from is the sum of rates that the members reported**, one for each of those listed, or 0 for
one that had not reported yet. -/
theorem globalRate_of_run (size : Nat) (events : List Event) (s : Group)
    (hrun : run (Group.step freq) (Group.new size) events = some s) : ∀ poll ∈ s.polls, (poll.map Prod.fst).Nodup ∧
      ∃ rates : List Int, List.Forall₂ (fun e rate => ∃ m, s.members[e.1]? = some m ∧
      (rate = 0 ∨ rate ∈ m.rates)) poll rates ∧
        globalRate libs (poll.map Prod.snd) = wrap32 rates.sum := by
  have h := Group.tracked_run hrun
  intro poll hpoll
  obtain ⟨hnodup, hlength⟩ := h.polls poll hpoll
  refine ⟨hnodup, poll.map fun e => memberVal libs e.2, ?_, by rw [globalRate_eq, List.map_map]; rfl⟩
  rw [List.forall₂_map_right_iff, List.forall₂_same]
  intro e he
  obtain ⟨m, hm⟩ : ∃ m, s.members[e.1]? = some m := ⟨_, List.getElem?_eq_getElem (hlength e he)⟩
  obtain ⟨hreports, haccounted, hfollows⟩ := h.members e.1 m hm
  have hread : e.2 ∈ s.reads e.1 :=
    List.mem_append_right _ (List.mem_filterMap.2 ⟨poll, hpoll, AssocMap.lookup_of_mem hnodup he⟩)
  exact ⟨m, hm, memberVal_reported libs haccounted (hreports.follows.mem (hfollows.mem hread))⟩

/-- The rate changes between the listing and the reading. -/
theorem globalRate_of_run_report : ∃ poll : List (Nat × Bytes), ∃ rates : List Int, poll.map Prod.fst = [0] ∧
    rates.length = 1 ∧
    globalRate .sample (poll.map Prod.snd) = wrap32 rates.sum := by
  obtain ⟨-, rates, hrates, hsum⟩ := @globalRate_of_run .sample 30000000000 1 [.member 0 .join, .member 0 .register,
    .member 0 (.pass 3), .list, .member 0 .report, .member 0 .supply, .member 0 .write, .read 0, .deliver] _ rfl _
    List.mem_cons_self
  exact ⟨_, rates, rfl, hrates.length_eq.symm, hsum⟩

/-! ### When everything has been passed on -/

theorem run_reads {f : Nat → Bytes} {s : Group} {ids : List Nat} : ∀ {l : List Nat} {got : List (Nat × Bytes)}, l.Nodup →
    (∀ i ∈ l, i ∈ ids ∧ got.lookup i = none ∧ s.memberData i = some (f i)) →
      run (Group.step freq) { s with poll := .reading ids got } (l.map .read) =
        some { s with poll := .reading ids ((l.map fun i => (i, f i)).reverse ++ got) }
  | [], _, _, _ => rfl
  | i :: l, got, hnodup, h => by
    obtain ⟨hi, hnone, hdata⟩ := h i List.mem_cons_self
    obtain ⟨hnotin, hnodup⟩ := List.nodup_cons.1 hnodup
    have hdata' : ({ s with poll := .reading ids got } : Group).memberData i = some (f i) := hdata
    have hstep : Group.step freq { s with poll := .reading ids got } (.read i) =
        some { s with poll := .reading ids ((i, f i) :: got) } := by
      rw [Group.step]
      dsimp only
      rw [if_pos ⟨hi, hnone⟩, hdata']
    have hrest : ∀ j ∈ l, j ∈ ids ∧ ((i, f i) :: got).lookup j = none ∧ s.memberData j = some (f j) := fun j hj => by
      obtain ⟨hj', hnone', hdata'⟩ := h j (List.mem_cons_of_mem i hj)
      refine ⟨hj', ?_, hdata'⟩
      have hne : j ≠ i := fun heq => hnotin (heq ▸ hj)
      rwa [List.lookup_cons, beq_false_of_ne hne]
    rw [List.map_cons, List.map_cons, List.reverse_cons, List.append_assoc]
    exact run_cons.2 ⟨_, hstep, run_reads hnodup hrest⟩

theorem map_memberIds {s : Group} {g : Nat → Int} {f : Member → Int}
    (h : ∀ i m, s.members[i]? = some m → m.present = true → g i = f m) :
    s.memberIds.map g = (s.members.filter Member.present).map f := by
  have hfilter : s.members.filter Member.present = (s.members.zipIdx.filter fun e => e.1.present).map Prod.fst := by
    conv => lhs; rw [← List.zipIdx_map_fst 0 s.members]
    rw [List.filter_map]
    rfl
  rw [Group.memberIds, hfilter, List.map_map, List.map_map]
  refine List.map_congr_left fun e he => ?_
  obtain ⟨hmem, hpresent⟩ := List.mem_filter.1 he
  exact h e.2 e.1 (List.mem_zipIdx_iff_getElem?.1 hmem) hpresent

theorem run_poll {f : Nat → Bytes} {s : Group} (hpoll : s.poll = .waiting)
    (hdata : ∀ i ∈ s.memberIds, s.memberData i = some (f i)) {order : List Nat} (horder : order.Perm s.memberIds) :
    run (Group.step freq) s (.list :: order.map .read ++ [.deliver]) =
      some { s with polls := (s.memberIds.map fun i => (i, f i)) :: s.polls } := by
  have hlist : Group.step freq s .list = some { s with poll := .reading s.memberIds [] } := by
    rw [Group.step, hpoll]
  have hnodup : order.Nodup := horder.nodup_iff.2 s.nodup_memberIds
  have hreads : run (Group.step freq) { s with poll := .reading s.memberIds [] } (order.map .read) =
      some { s with poll := .reading s.memberIds ((order.map fun i => (i, f i)).reverse ++ []) } :=
    run_reads hnodup fun i hi => ⟨horder.mem_iff.1 hi, rfl, hdata i (horder.mem_iff.1 hi)⟩
  have hlookup : ∀ i ∈ s.memberIds, ((order.map fun i => (i, f i)).reverse ++ []).lookup i = some (f i) := fun i hi => by
    rw [List.append_nil]
    refine AssocMap.lookup_of_mem ?_ (List.mem_reverse.2 (List.mem_map_of_mem (horder.mem_iff.2 hi)))
    rw [List.map_reverse, List.nodup_reverse, List.map_map]
    exact (List.map_id order).symm ▸ hnodup
  have hpolls : (s.memberIds.map fun i => (i, (((order.map fun i => (i, f i)).reverse ++ []).lookup i).getD [])) =
      s.memberIds.map fun i => (i, f i) :=
    List.map_congr_left fun i hi => by rw [hlookup i hi, Option.getD_some]
  refine run_append.2 ⟨_, run_cons.2 ⟨_, hlist, hreads⟩, run_cons.2 ⟨_, ?_, rfl⟩⟩
  rw [Group.step]
  dsimp only
  rw [if_pos (fun i hi => by rw [hlookup i hi]; rfl), hpolls, ← hpoll]

theorem Member.Reports.curReqRate_mem {m : Member} (h : m.Reports) : m.curReqRate ∈ m.rates := by
  unfold Member.curReqRate
  cases hrates : m.rates with
  | nil => exact absurd hrates h.rates_ne_nil
  | cons rate rates => exact List.mem_cons_self

/-- **When nothing is on its way from the members to their nodes**, the next poll goes through, in whatever order the nodes
are read, and what is computed from is the sum of the members' current rates. -/
theorem globalRate_at_rest (size : Nat) (events : List Event) (s : Group)
    (hrun : run (Group.step freq) (Group.new size) events = some s) (hpoll : s.poll = .waiting)
    (hrest : ∀ m ∈ s.members, m.present = true → m.AtRest) (order : List Nat) (horder : order.Perm s.memberIds) :
    ∃ poll, run (Group.step freq) s (.list :: order.map .read ++ [.deliver]) =
        some { s with polls := poll :: s.polls } ∧
      globalRate libs (poll.map Prod.snd) = wrap32 (((s.members.filter Member.present).map Member.curReqRate).sum) := by
  have h := Group.tracked_run hrun
  let rateOf : Nat → Int := fun i => (s.members[i]?).elim 0 Member.curReqRate
  have hrate : ∀ i m, s.members[i]? = some m → rateOf i = m.curReqRate := fun i m hm => by
    dsimp only [rateOf]
    rw [hm, Option.elim_some]
  -- each of them says its current rate
  have hdata : ∀ i ∈ s.memberIds, s.memberData i = some (toBytes (rateOf i)) := fun i hi => by
    obtain ⟨m, hm, hpresent⟩ := Group.mem_memberIds.1 hi
    have hhead := (h.members i m hm).1.head?_of_atRest (hrest m (List.mem_of_getElem? hm) hpresent)
    rw [Group.memberData, hm, Option.bind_eq_bind, Option.bind_some, if_pos hpresent, hhead, hrate i m hm]
  have hval : ∀ i ∈ s.memberIds, memberVal libs (toBytes (rateOf i)) = rateOf i := fun i hi => by
    obtain ⟨m, hm, -⟩ := Group.mem_memberIds.1 hi
    obtain ⟨hreports, haccounted, -⟩ := h.members i m hm
    obtain ⟨hle, hlt⟩ := haccounted.rate_range _ hreports.curReqRate_mem
    rw [hrate i m hm]
    exact memberVal_toBytes libs hle hlt
  refine ⟨_, run_poll hpoll hdata horder, ?_⟩
  rw [globalRate_eq, List.map_map, List.map_map, ← map_memberIds fun i m hm _ => hrate i m hm]
  exact congrArg (fun l => wrap32 (List.sum l)) (List.map_congr_left hval)

/-- A member with a rate of 6. -/
theorem globalRate_at_rest_report : ∃ s poll, run (Group.step 30000000000) s [.list, .read 0, .deliver] =
    some { s with polls := poll :: s.polls } ∧ globalRate .sample (poll.map Prod.snd) = 6 := by
  obtain ⟨poll, hrun, hrate⟩ := globalRate_at_rest .sample 1 [.member 0 .join, .member 0 .register, .member 0 (.pass 3),
    .member 0 .report, .member 0 .supply, .member 0 .write, .member 0 .supply, .member 0 .write] _ rfl rfl
    (fun m hm _ => by obtain rfl := List.mem_singleton.1 hm; exact ⟨rfl, rfl, rfl, rfl⟩) [0] (List.Perm.refl _)
  exact ⟨_, poll, hrun, hrate⟩

end Sums

/-! ### When the polls stop -/

namespace Group

variable {freq : Nat} {s s' : Group} {event : Event}

/-- A node that is read is there, no other call fails, and no interrupt is heeded. -/
def Answered (s : Group) : Event → Prop
  | .read i => (s.memberData i).isSome = true
  | .listFails | .readFails _ | .close true => False
  | .member _ _ | .list | .deliver | .close false => True

theorem stopped_step (hstep : s.step freq event = some s') :
    s'.poll = .stopped ↔ s.poll = .stopped ∨ ¬ s.Answered event := by
  cases takes_of_step hstep with
  | member | unheeded => exact (or_iff_left (not_not_intro trivial)).symm
  | list hpoll | deliver hpoll =>
    exact iff_of_false nofun (not_or.2 ⟨fun h => (nomatch hpoll.symm.trans h), not_not_intro trivial⟩)
  | read hpoll hi hnone hbytes =>
    have hanswered : s.Answered (.read _) := Option.isSome_of_eq_some hbytes
    exact iff_of_false nofun (not_or.2 ⟨fun h => (nomatch hpoll.symm.trans h), not_not_intro hanswered⟩)
  | missing _ hbytes =>
    refine iff_of_true rfl (Or.inr fun h => ?_)
    rw [Answered, hbytes] at h
    cases h
  | listFails | readFails | heeded => exact iff_of_true rfl (Or.inr not_false)

theorem polls_step_of_stopped (hstep : s.step freq event = some s') (h : s.poll = .stopped) : s'.polls = s.polls := by
  cases takes_of_step hstep with
  | member | list | read | missing | listFails | readFails | heeded | unheeded => rfl
  | deliver hpoll => cases hpoll.symm.trans h

/-- **The polls stop for good exactly when a call fails or an interrupt is heeded**, and one that fails is the reading of a
node that is not there any more: a member that leaves between the listing of the group and the reading of its node ends the
updates of whoever polls, however many members are left. -/
theorem stopped_iff (freq size : Nat) (events : List Event) (s : Group) (hrun : run (step freq) (new size) events = some s) :
    (s.poll = .stopped ↔ ¬ Meets (step freq) Answered (new size) events) ∧
      (s.poll = .stopped → ∀ more s', run (step freq) s more = some s' → s'.poll = .stopped ∧ s'.polls = s.polls) := by
  have hiff := run_iff_not_meets (fun _ _ _ => stopped_step) hrun
  refine ⟨hiff.trans (or_iff_right nofun), fun hstopped more s' hmore => ?_⟩
  exact run_invariant (P := fun s' => s'.poll = .stopped ∧ s'.polls = s.polls)
    (fun _ _ _ h hstep => ⟨(stopped_step hstep).2 (Or.inl h.1), (polls_step_of_stopped hstep h.1).trans h.2⟩)
    ⟨hstopped, rfl⟩ hmore

/-- One of two leaves after it was listed. -/
theorem stopped_iff_left : ¬ Meets (step 30000000000) Answered (new 2)
    [.member 0 .join, .member 0 .register, .member 1 .join, .list, .member 0 .cancel, .read 1, .read 0] :=
  (stopped_iff 30000000000 2
    [.member 0 .join, .member 0 .register, .member 1 .join, .list, .member 0 .cancel, .read 1, .read 0] _ rfl).1.1 rfl

end Group
end RequestRates
end Zipkin
