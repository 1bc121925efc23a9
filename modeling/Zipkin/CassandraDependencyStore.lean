import Mathlib.Algebra.Order.Group.Unbundled.Int
import Mathlib.Data.List.Perm.Basic
import Mathlib.Logic.Equiv.List
import Zipkin.Base.AssocMap
import Zipkin.Base.Join
import Zipkin.ByteBuffer
import Zipkin.Common
import Zipkin.DB
import Zipkin.Dependencies
/-!
# CassandraDependencyStore — dependencies by day

`CassandraDependencyStore.scala`, and the table `dependencies` with its two statements in `Repository.java`.  A day has one
row, with the `Dependencies` that were stored last of those that start on it.  A read asks for the day of its `endTime`
and the day before, whatever its `startTime` is.  `returnsDays_iff` says when these are the days from the one to the other.
-/
namespace Zipkin

open AssocMap

namespace thriftscala

structure DependencyLink where
  parent : String
  child : String
  callCount : Int
deriving DecidableEq, Repr

structure Dependencies where
  startTime : Int
  endTime : Int
  links : List DependencyLink
deriving DecidableEq, Repr

end thriftscala

def DependencyLink.toThrift (dl : DependencyLink) : thriftscala.DependencyLink := ⟨dl.parent, dl.child, dl.callCount⟩

def thriftscala.DependencyLink.toDependencyLink (dl : thriftscala.DependencyLink) : Zipkin.DependencyLink :=
  ⟨dl.parent, dl.child, dl.callCount⟩

def Dependencies.toThrift (d : Dependencies) : thriftscala.Dependencies :=
  ⟨d.startTime, d.endTime, d.links.map DependencyLink.toThrift⟩

def thriftscala.Dependencies.toDependencies (d : thriftscala.Dependencies) : Zipkin.Dependencies :=
  ⟨d.startTime, d.endTime, d.links.map thriftscala.DependencyLink.toDependencyLink⟩

theorem Dependencies.toDependencies_toThrift (d : Dependencies) : d.toThrift.toDependencies = d := by
  have hlinks : (d.links.map DependencyLink.toThrift).map thriftscala.DependencyLink.toDependencyLink = d.links := by
    rw [List.map_map]
    exact List.map_id _
  rw [Dependencies.toThrift, thriftscala.Dependencies.toDependencies, hlinks]

namespace CassandraDependencyStore

/-- `MICROSECONDS.convert(1, DAYS)` -/
def DAY : Int := 86400000000

/-- `TimeUnit.DAYS.toMillis(1)` -/
def dayMillis : Int := 86400000

/-- The libraries of the store: `Time.floor` rounds down to a multiple of the duration, and the codec reads what it
wrote. -/
structure Libraries where
  /-- `Time.fromMicroseconds(micros).floor(Duration.fromTimeUnit(1, DAYS)).inMilliseconds` -/
  floorToDay : Int → Int
  floorToDay_eq : ∀ micros, floorToDay micros = micros / DAY * dayMillis
  encode : thriftscala.Dependencies → List UInt8
  decode : List UInt8 → thriftscala.Dependencies
  decode_encode : ∀ d, decode (encode d) = d

/-! ## `Repository` -/

/-- The table `dependencies`, a map from its day. -/
abbrev Table := List (Int × List UInt8)

/-- No time of a day is near the end of a `Long`. -/
def getDays (start stop : Int) : List Int :=
  if start ≤ stop then start :: getDays (start + dayMillis) stop else []
termination_by (stop + 1 - start).toNat
decreasing_by
  unfold dayMillis
  omega

/-- The rows of `SELECT dependencies FROM dependencies WHERE day IN days`. -/
def rowsOf (order : RowOrder) (table : Table) (days : List Int) : Table :=
  order.rows (table.filter fun r => days.contains r.1)

namespace Repository

def storeDependencies (epochDayMillis : Int) (dependencies : List UInt8) (table : Table) : Table :=
  put epochDayMillis dependencies table

def getDependencies (order : RowOrder) (table : Table) (startEpochDayMillis endEpochDayMillis : Int) : List (List UInt8) :=
  (rowsOf order table (getDays startEpochDayMillis endEpochDayMillis)).map Prod.snd

end Repository

/-! ## The store -/

section Definitions
variable (libs : Libraries)

def floorEpochMicrosToDayMillis (micros : Int) : Int := libs.floorToDay micros

def storeDependencies (table : Table) (dependencies : Dependencies) : Table :=
  Repository.storeDependencies (floorEpochMicrosToDayMillis libs dependencies.startTime)
    (libs.encode dependencies.toThrift) table

/-- `startTime` is not used. -/
def getDependencies (order : RowOrder) (now : Int) (table : Table) (_startTime endTime : Option Int) : Dependencies :=
  let endMicros := endTime.getD now
  let endEpochDayMillis := floorEpochMicrosToDayMillis libs endMicros
  let startEpochDayMillis := floorEpochMicrosToDayMillis libs (wrap64 (endMicros - DAY))
  let dependencies := (Repository.getDependencies order table startEpochDayMillis endEpochDayMillis).map fun bytes =>
    (libs.decode bytes).toDependencies
  match dependencies.head?, dependencies.getLast? with
  | some first, some last => ⟨first.startTime, last.endTime, dependencies.flatMap Dependencies.links⟩
  | _, _ => Dependencies.zero

/-- The table after a run of stores. -/
def tableOf (stored : List Dependencies) : Table := stored.foldl (storeDependencies libs) []

end Definitions

variable {libs : Libraries} {order : RowOrder} {stored : List Dependencies} {startTime endTime now : Int}

/-! ## The rows of a day -/

def dayOf (micros : Int) : Int := micros / DAY

def row (libs : Libraries) (d : Dependencies) : Int × List UInt8 :=
  (dayOf d.startTime * dayMillis, libs.encode d.toThrift)

def ofRow (libs : Libraries) (r : Int × List UInt8) : Dependencies := (libs.decode r.2).toDependencies

theorem ofRow_row (libs : Libraries) (d : Dependencies) : ofRow libs (row libs d) = d := by
  rw [ofRow, row, libs.decode_encode, d.toDependencies_toThrift]

/-- The `Dependencies` that are stored last of those that start on their day. -/
def kept (stored : List Dependencies) : List Dependencies := lasts (fun d => dayOf d.startTime * dayMillis) stored

theorem tableOf_eq (libs : Libraries) (stored : List Dependencies) : tableOf libs stored = putAll (stored.map (row libs)) [] := by
  rw [tableOf, putAll, List.foldl_map]
  refine congrFun (congrFun (congrArg List.foldl (funext fun table => funext fun d => ?_)) _) _
  rw [storeDependencies, Repository.storeDependencies, floorEpochMicrosToDayMillis, libs.floorToDay_eq]
  rfl

theorem tableOf_perm (libs : Libraries) (stored : List Dependencies) :
    (tableOf libs stored).Perm ((kept stored).map (row libs)) := by
  rw [tableOf_eq]
  exact putAll_map_perm _ _ _

/-! ## The days that are asked for -/

theorem mem_getDays (start stop day : Int) : day ∈ getDays start stop ↔ start ≤ day ∧ day ≤ stop ∧ dayMillis ∣ day - start := by
  fun_induction getDays start stop with
  | case1 start hle ih =>
    rw [List.mem_cons, ih]
    unfold dayMillis at *
    omega
  | case2 start hlt => exact iff_of_false List.not_mem_nil (by omega)

theorem mem_getDays_mul (i j k : Int) : k * dayMillis ∈ getDays (i * dayMillis) (j * dayMillis) ↔ i ≤ k ∧ k ≤ j := by
  have hdvd : dayMillis ∣ k * dayMillis - i * dayMillis := ⟨k - i, by rw [← Int.sub_mul, Int.mul_comm]⟩
  rw [mem_getDays, and_iff_left hdvd]
  unfold dayMillis
  omega

/-- It starts on the day of `endTime` or the day before, which there is unless it would be before the first `Long`. -/
def LastTwoDays (endTime : Int) (d : Dependencies) : Prop :=
  -2 ^ 63 + DAY ≤ endTime ∧ dayOf endTime - 1 ≤ dayOf d.startTime ∧ dayOf d.startTime ≤ dayOf endTime

instance (endTime : Int) (d : Dependencies) : Decidable (LastTwoDays endTime d) := inferInstanceAs (Decidable (_ ∧ _))

/-- The days that `getDependencies` asks for. -/
def daysOf (libs : Libraries) (endTime : Int) : List Int :=
  getDays (floorEpochMicrosToDayMillis libs (wrap64 (endTime - DAY))) (floorEpochMicrosToDayMillis libs endTime)

theorem mem_daysOf (libs : Libraries) (hlong : -2 ^ 63 ≤ endTime ∧ endTime < 2 ^ 63) (d : Dependencies) :
    dayOf d.startTime * dayMillis ∈ daysOf libs endTime ↔ LastTwoDays endTime d := by
  rw [daysOf, floorEpochMicrosToDayMillis, floorEpochMicrosToDayMillis, libs.floorToDay_eq, libs.floorToDay_eq,
    mem_getDays_mul, LastTwoDays]
  obtain ⟨q, hq, hle, hlt⟩ := wrap64_spec (endTime - DAY)
  rw [hq] at hle hlt ⊢
  unfold dayOf DAY at *
  -- the subtraction wraps once, or not at all
  obtain rfl | rfl : q = -1 ∨ q = 0 := by omega
  · omega
  · omega

/-! ## What is read -/

/-- The `Dependencies` of the rows, in the order in which they come. -/
def readDays (libs : Libraries) (order : RowOrder) (table : Table) (endTime : Int) : List Dependencies :=
  (rowsOf order table (daysOf libs endTime)).map (ofRow libs)

theorem readDays_perm (order : RowOrder) (hlong : -2 ^ 63 ≤ endTime ∧ endTime < 2 ^ 63) :
    (readDays libs order (tableOf libs stored) endTime).Perm ((kept stored).filter fun d => decide (LastTwoDays endTime d)) := by
  refine (((order.rows_perm _).trans ((tableOf_perm libs stored).filter _)).map _).trans (.of_eq ?_)
  rw [List.filter_map, List.map_map]
  have hid : ofRow libs ∘ row libs = id := funext (ofRow_row libs)
  rw [hid, List.map_id]
  refine List.filter_congr (fun d _ => ?_)
  rw [Bool.eq_iff_iff, decide_eq_true_eq, ← mem_daysOf libs hlong d]
  exact List.contains_iff_mem

theorem map_row_readDays (order : RowOrder) (endTime : Int) : (readDays libs order (tableOf libs stored) endTime).map (row libs) =
    rowsOf order (tableOf libs stored) (daysOf libs endTime) := by
  rw [readDays, List.map_map]
  refine (List.map_congr_left (fun r hr => ?_)).trans (List.map_id _)
  obtain ⟨d, -, rfl⟩ := List.mem_map.1 ((tableOf_perm libs stored).mem_iff.1
    (List.mem_of_mem_filter ((order.rows_perm _).mem_iff.1 hr)))
  rw [Function.comp_apply, ofRow_row, id]

/-- From the start of the first to the end of the last, with the links of all. -/
def joined (ds : List Dependencies) : Dependencies :=
  match ds.head?, ds.getLast? with
  | some first, some last => ⟨first.startTime, last.endTime, ds.flatMap Dependencies.links⟩
  | _, _ => Dependencies.zero

theorem getDependencies_eq (order : RowOrder) (now : Int) (table : Table) (startTime endTime : Option Int) :
    getDependencies libs order now table startTime endTime = joined (readDays libs order table (endTime.getD now)) := by
  have hread : (Repository.getDependencies order table
      (floorEpochMicrosToDayMillis libs (wrap64 (endTime.getD now - DAY)))
      (floorEpochMicrosToDayMillis libs (endTime.getD now))).map (fun bytes => (libs.decode bytes).toDependencies) =
        readDays libs order table (endTime.getD now) := List.map_map
  rw [getDependencies, hread, joined]

theorem links_joined : ∀ ds : List Dependencies, (joined ds).links = ds.flatMap Dependencies.links
  | [] => rfl
  | d :: ds => by rw [joined, List.head?_cons, List.getLast?_cons]

/-! ## The days of a range -/

/-- At most one is stored for a day, and it lies within its day. -/
structure OnePerDay (stored : List Dependencies) : Prop where
  le : ∀ d ∈ stored, d.startTime ≤ d.endTime
  within : ∀ d ∈ stored, dayOf d.endTime = dayOf d.startTime
  nodup : (stored.map fun d => dayOf d.startTime).Nodup

/-- Its day is in the range of days. -/
def OfDays (startTime endTime : Int) (d : Dependencies) : Prop :=
  dayOf startTime ≤ dayOf d.startTime ∧ dayOf d.startTime ≤ dayOf endTime

instance (startTime endTime : Int) (d : Dependencies) : Decidable (OfDays startTime endTime d) :=
  inferInstanceAs (Decidable (_ ∧ _))

/-- The links of exactly the days of the range, and a start and end that enclose what is stored for them. -/
structure ReturnsDays (result : Dependencies) (stored : List Dependencies) (startTime endTime : Int) : Prop where
  links : result.links.Perm ((stored.filter fun d => decide (OfDays startTime endTime d)).flatMap Dependencies.links)
  encloses : ∀ d ∈ stored, OfDays startTime endTime d → result.startTime ≤ d.startTime ∧ d.endTime ≤ result.endTime

/-- Of the days of the range, only the last two have something stored, of the last two those outside of the range have no
links, and the row of the first comes first.  Without the last two, `Dependencies.zero` can be stored for the epoch. -/
structure AnswersRange (libs : Libraries) (order : RowOrder) (stored : List Dependencies) (startTime endTime : Int) : Prop where
  reached : ∀ d ∈ stored, OfDays startTime endTime d →
    LastTwoDays endTime d ∨ d = Dependencies.zero ∧ ∀ e ∈ stored, ¬ LastTwoDays endTime e
  nothingElse : ∀ d ∈ stored, LastTwoDays endTime d → ¬ OfDays startTime endTime d → d.links = []
  ordered : (rowsOf order (tableOf libs stored) (daysOf libs endTime)).Pairwise fun r r' => r.1 ≤ r'.1

namespace OnePerDay
variable (h : OnePerDay stored)
include h

theorem kept_eq : kept stored = stored := by
  refine lasts_eq_self (List.Nodup.of_map (fun millis => millis / dayMillis) ?_)
  rw [List.map_map]
  refine (congrArg List.Nodup (List.map_congr_left (fun d _ => ?_))).mpr h.nodup
  exact Int.mul_ediv_cancel _ (by decide)

theorem lt_of_day_lt {d e : Dependencies} (hd : d ∈ stored) (hlt : dayOf d.startTime < dayOf e.startTime) :
    d.endTime < e.startTime := by
  have hwithin := h.within d hd
  unfold dayOf DAY at *
  omega

end OnePerDay

section Range
variable {ds : List Dependencies}

theorem pairwise_rowsOf_iff : (rowsOf order (tableOf libs stored) (daysOf libs endTime)).Pairwise (fun r r' => r.1 ≤ r'.1) ↔
    (readDays libs order (tableOf libs stored) endTime).Pairwise fun d e => dayOf d.startTime ≤ dayOf e.startTime := by
  rw [← map_row_readDays, List.pairwise_map]
  exact List.Pairwise.iff (fun d e => Int.mul_le_mul_right (by decide))

/-- What is read of the days that have one row each. -/
structure Reads (stored : List Dependencies) (endTime : Int) (ds : List Dependencies) : Prop where
  perm : ds.Perm (stored.filter fun d => decide (LastTwoDays endTime d))
  nodup : (ds.map fun d => dayOf d.startTime).Nodup

theorem OnePerDay.reads (h : OnePerDay stored) (hlong : -2 ^ 63 ≤ endTime ∧ endTime < 2 ^ 63) :
    Reads stored endTime (readDays libs order (tableOf libs stored) endTime) := by
  have hperm : (readDays libs order (tableOf libs stored) endTime).Perm
      ((kept stored).filter fun d => decide (LastTwoDays endTime d)) := readDays_perm order hlong
  rw [h.kept_eq] at hperm
  exact ⟨hperm, (hperm.map _).nodup_iff.2 (h.nodup.sublist (List.filter_sublist.map _))⟩

theorem Reads.mem_iff (h : Reads stored endTime ds) {d : Dependencies} : d ∈ ds ↔ d ∈ stored ∧ LastTwoDays endTime d := by
  rw [h.perm.mem_iff, List.mem_filter, decide_eq_true_eq]

theorem Reads.encloses (h : Reads stored endTime ds) (hday : OnePerDay stored)
    (hordered : ds.Pairwise fun d e => dayOf d.startTime ≤ dayOf e.startTime) {d : Dependencies} (hd : d ∈ ds) :
    (joined ds).startTime ≤ d.startTime ∧ d.endTime ≤ (joined ds).endTime := by
  have hlt : ds.Pairwise fun d e => dayOf d.startTime < dayOf e.startTime :=
    (hordered.and (List.pairwise_map.1 h.nodup)).imp (fun hde => lt_of_le_of_ne hde.1 hde.2)
  have hbefore : ∀ d e, d ∈ ds → e ∈ ds → dayOf d.startTime < dayOf e.startTime →
      d.startTime ≤ e.startTime ∧ d.endTime ≤ e.endTime := fun d e hd he hde => by
    have := hday.lt_of_day_lt (h.mem_iff.1 hd).1 hde
    have := hday.le d (h.mem_iff.1 hd).1
    have := hday.le e (h.mem_iff.1 he).1
    omega
  have hnil := List.ne_nil_of_mem hd
  have hfirst := List.head?_eq_some_head hnil
  have hlast := List.getLast?_eq_some_getLast hnil
  rw [joined, hfirst, hlast]
  obtain ⟨rest, hrest⟩ := List.head?_eq_some_iff.1 hfirst
  obtain ⟨before, hend⟩ := List.getLast?_eq_some_iff.1 hlast
  constructor
  · have hcons := hlt
    rw [hrest] at hd hcons
    rcases List.mem_cons.1 hd with rfl | hd'
    · exact Int.le_refl _
    · exact (hbefore _ _ (List.head_mem hnil) (hrest ▸ hd) (List.rel_of_pairwise_cons hcons hd')).1
  · have happend := hlt
    rw [hend] at hd happend
    rcases List.mem_append.1 hd with hd' | hd'
    · exact (hbefore _ _ (hend ▸ hd) (List.getLast_mem hnil)
        ((List.pairwise_append.1 happend).2.2 _ hd' _ (List.mem_singleton_self _))).2
    · rw [List.mem_singleton.1 hd']

/-- A row of the last two days ends no earlier than the days before them. -/
theorem Reads.not_encloses (h : Reads stored endTime ds) (hday : OnePerDay stored) (hnil : ds ≠ []) {d : Dependencies}
    (hd : d ∈ stored) (hbefore : dayOf d.startTime < dayOf endTime - 1) : d.startTime < (joined ds).startTime := by
  have hfirst := List.head?_eq_some_head hnil
  have hlast := List.getLast?_eq_some_getLast hnil
  have hread := (h.mem_iff.1 (List.head_mem hnil)).2.2
  rw [joined, hfirst, hlast]
  have hlt := hday.lt_of_day_lt hd (e := ds.head hnil) (by omega)
  exact lt_of_le_of_lt (hday.le d hd) hlt

theorem Reads.cases (h : Reads stored endTime ds) : ds = [] ∨ (∃ a, ds = [a]) ∨
    ∃ a b, ds = [a, b] ∧ dayOf a.startTime ≠ dayOf b.startTime := by
  have hday : ∀ d ∈ ds, dayOf d.startTime = dayOf endTime - 1 ∨ dayOf d.startTime = dayOf endTime := fun d hd => by
    have := (h.mem_iff.1 hd).2.2
    omega
  have hnodup := h.nodup
  match ds, hday, hnodup with
  | [], _, _ => exact Or.inl rfl
  | [a], _, _ => exact Or.inr (Or.inl ⟨a, rfl⟩)
  | [a, b], _, hnodup => exact Or.inr (Or.inr ⟨a, b, rfl, fun heq => by simp [heq] at hnodup⟩)
  | a :: b :: c :: ds, hday, hnodup =>
    have ha := hday a (by simp)
    have hb := hday b (by simp)
    have hc := hday c (by simp)
    simp only [List.map_cons, List.nodup_cons, List.mem_cons, not_or] at hnodup
    omega

/-- **What is read answers for a range of days** if nothing else is stored for it that matters and it is in order. -/
theorem Reads.returnsDays_of (h : Reads stored endTime ds) (hday : OnePerDay stored)
    (hreached : ∀ d ∈ stored, OfDays startTime endTime d →
      LastTwoDays endTime d ∨ d = Dependencies.zero ∧ ∀ e ∈ stored, ¬ LastTwoDays endTime e)
    (helse : ∀ d ∈ stored, LastTwoDays endTime d → ¬ OfDays startTime endTime d → d.links = [])
    (hordered : ds.Pairwise fun d e => dayOf d.startTime ≤ dayOf e.startTime) :
    ReturnsDays (joined ds) stored startTime endTime := by
  by_cases hnil : ds = []
  · subst hnil
    have hzero : ∀ d ∈ stored, OfDays startTime endTime d → d = Dependencies.zero := fun d hd hof =>
      ((hreached d hd hof).resolve_left (fun hlast => List.not_mem_nil (h.mem_iff.2 ⟨hd, hlast⟩))).1
    have hnone : (stored.filter fun d => decide (OfDays startTime endTime d)).flatMap Dependencies.links = [] := by
      rw [List.flatMap_eq_nil_iff]
      intro d hd
      rw [List.mem_filter, decide_eq_true_eq] at hd
      rw [hzero d hd.1 hd.2]
      rfl
    refine ⟨.of_eq hnone.symm, fun d hd hof => ?_⟩
    rw [hzero d hd hof]
    exact ⟨Int.le_refl _, Int.le_refl _⟩
  · have hlast : ∀ d ∈ stored, OfDays startTime endTime d → LastTwoDays endTime d := fun d hd hof => by
      obtain ⟨e, he⟩ := List.exists_mem_of_ne_nil _ hnil
      obtain ⟨he, helast⟩ := h.mem_iff.1 he
      exact (hreached d hd hof).resolve_right (fun hnone => hnone.2 e he helast)
    refine ⟨?_, fun d hd hof => h.encloses hday hordered (h.mem_iff.2 ⟨hd, hlast d hd hof⟩)⟩
    rw [links_joined]
    refine (h.perm.flatMap_right _).trans ((Join.flatMap_filter_perm_iff ?_).2 ?_)
    · simpa only [decide_eq_true_eq] using hlast
    · simpa only [decide_eq_true_eq, decide_eq_false_iff_not] using helse

theorem Reads.reached_of (h : Reads stored endTime ds) (hday : OnePerDay stored)
    (hreturns : ReturnsDays (joined ds) stored startTime endTime) {d : Dependencies} (hd : d ∈ stored)
    (hof : OfDays startTime endTime d) :
    LastTwoDays endTime d ∨ d = Dependencies.zero ∧ ∀ e ∈ stored, ¬ LastTwoDays endTime e := by
  by_cases hnil : ds = []
  · subst hnil
    -- nothing is read, and `d` lies in the interval of `Dependencies.zero`
    obtain ⟨hstart, hend⟩ := hreturns.encloses d hd hof
    have hle := hday.le d hd
    have hlinks : d.links = [] := List.flatMap_eq_nil_iff.1 (List.nil_perm.1 hreturns.links) d
      (List.mem_filter.2 ⟨hd, decide_eq_true hof⟩)
    refine Or.inr ⟨?_, fun e he hlast => List.not_mem_nil (h.mem_iff.2 ⟨he, hlast⟩)⟩
    obtain ⟨start, stop, links⟩ := d
    exact (Dependencies.mk.injEq ..).mpr ⟨le_antisymm (le_trans hle hend) hstart, le_antisymm hend (le_trans hstart hle), hlinks⟩
  · refine Or.inl (Decidable.by_contra (fun hnot => ?_))
    have hlong := (h.mem_iff.1 (List.head_mem hnil)).2.1
    have hbefore : dayOf d.startTime < dayOf endTime - 1 := Int.not_le.1 (fun hle => hnot ⟨hlong, hle, hof.2⟩)
    exact Int.not_le.2 (h.not_encloses hday hnil hd hbefore) (hreturns.encloses d hd hof).1

theorem Reads.nothingElse_of (h : Reads stored endTime ds) (hdays : dayOf startTime ≤ dayOf endTime)
    (hreturns : ReturnsDays (joined ds) stored startTime endTime) {d : Dependencies} (hd : d ∈ stored)
    (hlast : LastTwoDays endTime d) (hof : ¬ OfDays startTime endTime d) : d.links = [] := by
  -- the day of `d` is outside, so the range is of the last day alone
  have hof' : ∀ e ∈ stored, decide (OfDays startTime endTime e) = true → decide (LastTwoDays endTime e) = true :=
    fun e _ he => by
      rw [decide_eq_true_eq] at he ⊢
      obtain ⟨hlong, hfrom, hto⟩ := hlast
      have hout : ¬ dayOf startTime ≤ dayOf d.startTime := fun hle => hof ⟨hle, hto⟩
      exact ⟨hlong, by have := he.1; omega, he.2⟩
  have hperm := h.perm.flatMap_right Dependencies.links
  rw [← links_joined] at hperm
  exact (Join.flatMap_filter_perm_iff hof').1 (hperm.symm.trans hreturns.links) d hd (decide_eq_true hlast)
    (decide_eq_false hof)

theorem Reads.ordered_of (h : Reads stored endTime ds) (hday : OnePerDay stored) (hdays : dayOf startTime ≤ dayOf endTime)
    (hreturns : ReturnsDays (joined ds) stored startTime endTime) :
    ds.Pairwise fun d e => dayOf d.startTime ≤ dayOf e.startTime := by
  rcases h.cases with rfl | ⟨a, rfl⟩ | ⟨a, b, rfl, hne⟩
  · exact .nil
  · exact List.pairwise_singleton _ _
  · rw [List.pairwise_pair]
    refine Int.not_lt.1 (fun hlt => ?_)
    obtain ⟨ha, -, -, halast⟩ := h.mem_iff.1 (List.mem_cons_self (a := a) (l := [b]))
    obtain ⟨hb, -, hbfirst, -⟩ := h.mem_iff.1 (List.mem_cons_of_mem a (List.mem_singleton_self b))
    -- the first row is of the day of `endTime`, and the last ends before it
    have hend : a.endTime ≤ b.endTime := (hreturns.encloses a ha ⟨by omega, halast⟩).2
    exact Int.not_lt.2 (le_trans (hday.le a ha) hend) (hday.lt_of_day_lt hb hlt)

end Range

/-- **When a range of days is answered.** -/
theorem returnsDays_iff (libs : Libraries) (order : RowOrder) (now : Int) (stored : List Dependencies)
    (startTime endTime : Int) (h : OnePerDay stored) (hle : startTime ≤ endTime)
    (hlong : -2 ^ 63 ≤ endTime ∧ endTime < 2 ^ 63) :
    ReturnsDays (getDependencies libs order now (tableOf libs stored) (some startTime) (some endTime))
      stored startTime endTime ↔ AnswersRange libs order stored startTime endTime := by
  have hreads : Reads stored endTime (readDays libs order (tableOf libs stored) endTime) := h.reads hlong
  have hdays : dayOf startTime ≤ dayOf endTime := Int.ediv_le_ediv (by decide) hle
  rw [getDependencies_eq, Option.getD_some]
  constructor
  · intro hreturns
    exact ⟨fun d hd hof => hreads.reached_of h hreturns hd hof,
      fun d hd hlast hof => hreads.nothingElse_of hdays hreturns hd hlast hof,
      pairwise_rowsOf_iff.2 (hreads.ordered_of h hdays hreturns)⟩
  · intro hrange
    exact hreads.returnsDays_of h hrange.reached hrange.nothingElse (pairwise_rowsOf_iff.1 hrange.ordered)

/-! ## An instance -/

namespace Libraries

def linkCode (dl : thriftscala.DependencyLink) : List Nat × List Nat × Int :=
  (dl.parent.toList.map Char.toNat, dl.child.toList.map Char.toNat, dl.callCount)

def ofLinkCode (code : List Nat × List Nat × Int) : thriftscala.DependencyLink :=
  ⟨.ofList (code.1.map Char.ofNat), .ofList (code.2.1.map Char.ofNat), code.2.2⟩

theorem ofLinkCode_linkCode (dl : thriftscala.DependencyLink) : ofLinkCode (linkCode dl) = dl := by
  have hchar : Char.ofNat ∘ Char.toNat = id := funext Char.ofNat_toNat
  have hchars : ∀ s : String, String.ofList ((s.toList.map Char.toNat).map Char.ofNat) = s := fun s => by
    rw [List.map_map, hchar, List.map_id, String.ofList_toList]
  rw [ofLinkCode, linkCode, hchars, hchars]

/-- The fields are numbered, and a number is as many bytes. -/
def sample : Libraries where
  floorToDay micros := micros / DAY * dayMillis
  floorToDay_eq _ := rfl
  encode d := List.replicate (Encodable.encode (d.startTime, d.endTime, d.links.map linkCode)) 0
  decode bytes := match Encodable.decode (α := Int × Int × List (List Nat × List Nat × Int)) bytes.length with
    | some (startTime, endTime, links) => ⟨startTime, endTime, links.map ofLinkCode⟩
    | none => ⟨0, 0, []⟩
  decode_encode d := by
    have hlink : ofLinkCode ∘ linkCode = id := funext ofLinkCode_linkCode
    have hlinks : (d.links.map linkCode).map ofLinkCode = d.links := by rw [List.map_map, hlink, List.map_id]
    rw [List.length_replicate, Encodable.encodek]
    dsimp only
    rw [hlinks]

end Libraries

/-- One after the other. -/
def twoDays : List Dependencies :=
  [⟨DAY, DAY + 1000, [⟨"web", "query", 18⟩]⟩, ⟨2 * DAY, 2 * DAY + 1000, [⟨"web", "query", 3⟩, ⟨"query", "db", 5⟩]⟩]

/-- Of two days, both are answered. -/
theorem returnsDays_twoDays :
    ReturnsDays (getDependencies .sample .insertion 0 (tableOf .sample twoDays) (some DAY) (some (2 * DAY + 1000)))
      twoDays DAY (2 * DAY + 1000) := by
  have hlast : ∀ d ∈ twoDays, LastTwoDays (2 * DAY + 1000) d := by decide
  have hdays : ∀ d ∈ twoDays, OfDays DAY (2 * DAY + 1000) d := by decide
  -- the bytes of the rows are not looked at
  have htable : (tableOf .sample twoDays).Pairwise fun r r' => r.1 ≤ r'.1 := by decide +kernel
  have hordered : (rowsOf .insertion (tableOf .sample twoDays) (daysOf .sample (2 * DAY + 1000))).Pairwise
      fun r r' => r.1 ≤ r'.1 := htable.sublist List.filter_sublist
  exact (returnsDays_iff .sample .insertion 0 twoDays _ _ ⟨by decide, by decide, by decide⟩ (by decide) (by decide)).2
    ⟨fun d hd _ => Or.inl (hlast d hd), fun d hd _ hof => (hof (hdays d hd)).elim, hordered⟩

/-- What was stored for the first day is not in the answer for the first four days. -/
theorem not_returnsDays_fourDays : OnePerDay [⟨DAY, DAY + 1000, [⟨"web", "query", 18⟩]⟩] ∧ DAY ≤ 4 * DAY ∧
    ¬ ReturnsDays (getDependencies .sample .insertion 0 (tableOf .sample [⟨DAY, DAY + 1000, [⟨"web", "query", 18⟩]⟩])
      (some DAY) (some (4 * DAY))) [⟨DAY, DAY + 1000, [⟨"web", "query", 18⟩]⟩] DAY (4 * DAY) := by
  have hday : OnePerDay [⟨DAY, DAY + 1000, [⟨"web", "query", 18⟩]⟩] := ⟨by decide, by decide, by decide⟩
  refine ⟨hday, by decide, fun hreturns => ?_⟩
  rw [getDependencies_eq] at hreturns
  have hreached := (hday.reads (by decide)).reached_of hday hreturns (List.mem_singleton_self _) (by decide)
  exact absurd (hreached.imp_right And.left) (by decide)

end CassandraDependencyStore
end Zipkin
