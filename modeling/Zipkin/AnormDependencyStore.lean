import Mathlib.Data.List.Perm.Basic
import Zipkin.Base.Join
import Zipkin.Base.StableSort
import Zipkin.ByteBuffer
import Zipkin.Common
import Zipkin.DB
import Zipkin.Dependencies
/-!
# AnormDependencyStore — dependencies in two tables

`AnormDependencyStore.scala`.  `zipkin_dependencies` has the interval of each `Dependencies`, and `zipkin_dependency_links`
its links, with its id.  A read asks the first for the intervals inside another, and the second for all links from the
least of their ids to the greatest.  `returnsLinks_iff` says when these are the links of the intervals inside.
-/
namespace Zipkin

open Effect Transaction StableSort

structure DependenciesRow where
  dlid : Int
  start_ts : Int
  end_ts : Int
deriving DecidableEq, Repr

structure DependencyLinkRow where
  dlid : Int
  parent : String
  child : String
  call_count : Int
deriving DecidableEq, Repr

structure DependencyTables where
  zipkin_dependencies : List DependenciesRow := []
  zipkin_dependency_links : List DependencyLinkRow := []
deriving DecidableEq, Repr

/-- The ids that the database assigns to the rows it inserts, in the order in which they come. -/
structure AutoIncrement where
  dlid : Nat → Int
  dlid_lt : ∀ m n, m < n → dlid m < dlid n

theorem AutoIncrement.le_of_dlid_le (ids : AutoIncrement) {m n : Nat} (h : ids.dlid m ≤ ids.dlid n) : m ≤ n :=
  Nat.le_of_not_lt (fun hlt => Int.not_lt.2 h (ids.dlid_lt n m hlt))

theorem AutoIncrement.dlid_le (ids : AutoIncrement) {m n : Nat} (h : m ≤ n) : ids.dlid m ≤ ids.dlid n := by
  rcases Nat.lt_or_eq_of_le h with hlt | rfl
  · exact Int.le_of_lt (ids.dlid_lt m n hlt)
  · exact Int.le_refl _

namespace AnormDependencyStore

/-! ## Storing -/

section Definitions
variable (ids : AutoIncrement) (faults : Nat → Option Throwable) (isSQLRecoverableException : Throwable → Bool)

/-- `executeInsert` returns the id of the row. -/
def insertDependencies (dependencies : Dependencies) : Effect Throwable DependencyTables Int :=
  .of fun t => (.ok (ids.dlid t.zipkin_dependencies.length), { t with zipkin_dependencies := t.zipkin_dependencies ++
    [⟨ids.dlid t.zipkin_dependencies.length, dependencies.startTime, dependencies.endTime⟩] })

def insertLink (dlid : Int) (link : DependencyLink) : Effect Throwable DependencyTables Unit :=
  .of fun t => (.ok (), { t with zipkin_dependency_links := t.zipkin_dependency_links ++
    [⟨dlid, link.parent, link.child, link.callCount⟩] })

/-- The block of statements of `storeDependencies`. -/
def inserts (dependencies : Dependencies) : Program Throwable DependencyTables Unit :=
  .statement (insertDependencies ids dependencies) fun dlid => .each dependencies.links (insertLink dlid) (.done ())

def storeDependencies (dependencies : Dependencies) : Effect Throwable DependencyTables Unit :=
  (fun _ => ()) <$> DB.withPooledConnection
    (DB.withRecoverableTransaction faults isSQLRecoverableException (inserts ids dependencies))

end Definitions

/-! ## Reading -/

structure DependencyInterval where
  startMicros : Int
  endMicros : Int
  startId : Int
  endId : Int

/-- `SELECT min(start_ts), max(end_ts), min(dlid), max(dlid)`, which are all null if there is no row. -/
def interval (t : DependencyTables) (startTs endTs : Int) : Option DependencyInterval :=
  let rows := t.zipkin_dependencies.filter fun r => decide (startTs ≤ r.start_ts ∧ r.end_ts ≤ endTs)
  do
    let startMicros ← (rows.map DependenciesRow.start_ts).min?
    let endMicros ← (rows.map DependenciesRow.end_ts).max?
    let startId ← (rows.map DependenciesRow.dlid).min?
    let endId ← (rows.map DependenciesRow.dlid).max?
    pure ⟨startMicros, endMicros, startId, endId⟩

def links (order : RowOrder) (t : DependencyTables) (interval : DependencyInterval) : List DependencyLink :=
  (sorted (fun a b => compare b.dlid a.dlid) (order.rows (t.zipkin_dependency_links.filter
    fun r => decide (interval.startId ≤ r.dlid ∧ r.dlid ≤ interval.endId)))).map
      fun r => ⟨r.parent, r.child, r.call_count⟩

/-- Microseconds. -/
def DAY : Int := 86400000000

def getDependencies (order : RowOrder) (now : Int) (t : DependencyTables) (startTime endTime : Option Int) : Dependencies :=
  let endTs := endTime.getD now
  let startTs := startTime.getD (wrap64 (endTs - DAY))
  match interval t startTs endTs with
  | some interval => ⟨interval.startMicros, interval.endMicros, links order t interval⟩
  | none => Dependencies.zero

variable {ids : AutoIncrement} {order : RowOrder} {stored : List Dependencies} {startTime endTime now : Int}

/-! ## What is stored -/

/-- The stored `Dependencies` with their ids. -/
def entries (ids : AutoIncrement) (stored : List Dependencies) : List (Int × Dependencies) :=
  stored.zipIdx.map fun (d, i) => (ids.dlid i, d)

def dependenciesRow (e : Int × Dependencies) : DependenciesRow := ⟨e.1, e.2.startTime, e.2.endTime⟩

def linkRow (dlid : Int) (link : DependencyLink) : DependencyLinkRow := ⟨dlid, link.parent, link.child, link.callCount⟩

def tablesOf (ids : AutoIncrement) (stored : List Dependencies) : DependencyTables where
  zipkin_dependencies := (entries ids stored).map dependenciesRow
  zipkin_dependency_links := (entries ids stored).flatMap fun e => e.2.links.map (linkRow e.1)

theorem entries_append (stored : List Dependencies) (d : Dependencies) :
    entries ids (stored ++ [d]) = entries ids stored ++ [(ids.dlid stored.length, d)] := by
  rw [entries, List.zipIdx_append, List.map_append]
  simp [entries]

theorem length_entries (stored : List Dependencies) : (entries ids stored).length = stored.length := by
  rw [entries, List.length_map, List.length_zipIdx]

theorem exec_inserts (d : Dependencies) :
    exec (inserts ids d).run (tablesOf ids stored) = (.ok (), tablesOf ids (stored ++ [d])) := by
  have hlength : (tablesOf ids stored).zipkin_dependencies.length = stored.length := by
    rw [tablesOf, List.length_map, length_entries]
  have hinsert : exec (insertDependencies ids d) (tablesOf ids stored) = (.ok (ids.dlid stored.length),
      { tablesOf ids stored with zipkin_dependencies := (tablesOf ids stored).zipkin_dependencies ++
        [⟨ids.dlid stored.length, d.startTime, d.endTime⟩] }) := by
    rw [insertDependencies, exec_of, hlength]
  rw [inserts, Program.run, exec_bind_ok hinsert,
    exec_run_each (x := insertLink (ids.dlid stored.length)) (g := linkRow (ids.dlid stored.length))
      (u := fun t rows => { t with zipkin_dependency_links := t.zipkin_dependency_links ++ rows }) (fun _ _ => rfl)
      (fun _ => by simp) (fun _ _ _ => by simp)]
  simp only [Program.run, exec_pure, tablesOf, entries_append, List.map_append, List.flatMap_append,
    List.flatMap_singleton, List.map_cons, List.map_nil, dependenciesRow]

/-- **Stored dependencies are in the tables**, in the order in which they came. -/
theorem exec_storeDependencies {isSQLRecoverableException : Throwable → Bool} (stored : List Dependencies) :
    exec (stored.mapM (storeDependencies ids (fun _ => none) isSQLRecoverableException)) {} =
      (.ok (stored.map fun _ => ()), tablesOf ids stored) := by
  have hstore : ∀ before d, exec (storeDependencies ids (fun _ => none) isSQLRecoverableException d) (tablesOf ids before) =
      (.ok (), tablesOf ids (before ++ [d])) := fun before d => by
    rw [storeDependencies, exec_map, DB.exec_pooled_none (exec_inserts d)]
    rfl
  exact exec_mapM_snoc hstore stored []

/-! ## What is read -/

/-- The interval lies in that of the query. -/
def Inside (startTime endTime : Int) (d : Dependencies) : Prop := startTime ≤ d.startTime ∧ d.endTime ≤ endTime

instance (startTime endTime : Int) (d : Dependencies) : Decidable (Inside startTime endTime d) :=
  inferInstanceAs (Decidable (_ ∧ _))

theorem mem_entries {e : Int × Dependencies} : e ∈ entries ids stored ↔ ∃ i, stored[i]? = some e.2 ∧ ids.dlid i = e.1 := by
  rw [entries, List.mem_map]
  constructor
  · rintro ⟨⟨d, i⟩, hmem, rfl⟩
    exact ⟨i, List.mem_zipIdx_iff_getElem?.1 hmem, rfl⟩
  · rintro ⟨i, hget, hid⟩
    exact ⟨(e.2, i), List.mem_zipIdx_iff_getElem?.2 hget, Prod.ext hid rfl⟩

theorem map_snd_entries (stored : List Dependencies) : (entries ids stored).map Prod.snd = stored := by
  rw [entries, List.map_map]
  exact List.zipIdx_map_fst 0 stored

def linksOf (l : List (Int × Dependencies)) : List DependencyLink := l.flatMap fun e => e.2.links

variable (ids) in
theorem linksOf_filter (p : Dependencies → Bool) :
    linksOf ((entries ids stored).filter fun e => p e.2) = (stored.filter p).flatMap Dependencies.links := by
  have hfilter : stored.filter p = ((entries ids stored).filter fun e => p e.2).map Prod.snd :=
    (congrArg (List.filter p) (map_snd_entries stored).symm).trans List.filter_map
  rw [hfilter, List.flatMap_map]
  rfl

theorem map_filter_links (p : Int → Bool) : ∀ l : List (Int × Dependencies),
    ((l.flatMap fun e => e.2.links.map (linkRow e.1)).filter fun r => p r.dlid).map
      (fun r => ⟨r.parent, r.child, r.call_count⟩) = linksOf (l.filter fun e => p e.1)
  | [] => rfl
  | (dlid, d) :: l => by
    have hlinks : (d.links.map (linkRow dlid)).map (fun r => (⟨r.parent, r.child, r.call_count⟩ : DependencyLink)) =
        d.links := by
      rw [List.map_map]
      exact List.map_id _
    have hone : ((d.links.map (linkRow dlid)).filter fun r => p r.dlid) =
        if p dlid then d.links.map (linkRow dlid) else [] := by
      rw [List.filter_map]
      cases hp : p dlid with
      | false => exact congrArg _ (List.filter_eq_nil_iff.2 (fun _ _ h => by simp [linkRow, hp] at h))
      | true => exact congrArg _ (List.filter_eq_self.2 (fun _ _ => by simp [linkRow, hp]))
    rw [List.flatMap_cons, List.filter_append, List.map_append, hone, map_filter_links p l, List.filter_cons]
    cases p dlid with
    | false => rfl
    | true =>
      rw [if_pos rfl, if_pos rfl, hlinks]
      rfl

variable (order) in
/-- **The links of a range of ids.** -/
theorem links_perm (i : DependencyInterval) : (links order (tablesOf ids stored) i).Perm
    (linksOf ((entries ids stored).filter fun e => decide (i.startId ≤ e.1 ∧ e.1 ≤ i.endId))) := by
  unfold links
  refine (((sorted_perm _ _).trans (order.rows_perm _)).map _).trans (.of_eq ?_)
  exact map_filter_links (fun dlid => decide (i.startId ≤ dlid ∧ dlid ≤ i.endId)) _

/-- The entries of the intervals inside. -/
def insideEntries (ids : AutoIncrement) (stored : List Dependencies) (startTime endTime : Int) : List (Int × Dependencies) :=
  (entries ids stored).filter fun e => decide (Inside startTime endTime e.2)

theorem mem_insideEntries {e : Int × Dependencies} : e ∈ insideEntries ids stored startTime endTime ↔
    ∃ i, stored[i]? = some e.2 ∧ ids.dlid i = e.1 ∧ Inside startTime endTime e.2 := by
  rw [insideEntries, List.mem_filter, mem_entries, decide_eq_true_eq]
  exact ⟨fun ⟨⟨i, hget, hid⟩, h⟩ => ⟨i, hget, hid, h⟩, fun ⟨i, hget, hid, h⟩ => ⟨⟨i, hget, hid⟩, h⟩⟩

theorem filter_dependencies (ids : AutoIncrement) (stored : List Dependencies) (startTime endTime : Int) :
    (tablesOf ids stored).zipkin_dependencies.filter
      (fun r => decide (startTime ≤ r.start_ts ∧ r.end_ts ≤ endTime)) =
        (insideEntries ids stored startTime endTime).map dependenciesRow :=
  List.filter_map

/-- The ids of the interval are the least and the greatest of the entries. -/
structure RangeOf (l : List (Int × Dependencies)) (i : DependencyInterval) : Prop where
  least : ∃ a ∈ l, a.1 = i.startId
  greatest : ∃ b ∈ l, b.1 = i.endId
  within : ∀ e ∈ l, i.startId ≤ e.1 ∧ e.1 ≤ i.endId

/-- **The interval of ids** is that of the intervals inside, where there are any. -/
theorem interval_spec (ids : AutoIncrement) (stored : List Dependencies) (startTime endTime : Int) :
    insideEntries ids stored startTime endTime = [] ∧ interval (tablesOf ids stored) startTime endTime = none ∨
      ∃ i, interval (tablesOf ids stored) startTime endTime = some i ∧
        RangeOf (insideEntries ids stored startTime endTime) i := by
  unfold interval
  rw [filter_dependencies]
  generalize insideEntries ids stored startTime endTime = l
  by_cases hnil : l = []
  · subst hnil
    exact Or.inl ⟨rfl, rfl⟩
  · have hmin : ∀ f : DependenciesRow → Int, ∃ m, ((l.map dependenciesRow).map f).min? = some m :=
      fun f => Option.isSome_iff_exists.1 (List.isSome_min?_of_ne_nil (by simp [hnil]))
    have hmax : ∀ f : DependenciesRow → Int, ∃ m, ((l.map dependenciesRow).map f).max? = some m :=
      fun f => Option.isSome_iff_exists.1 (List.isSome_max?_of_ne_nil (by simp [hnil]))
    obtain ⟨startMicros, hstart⟩ := hmin DependenciesRow.start_ts
    obtain ⟨endMicros, hend⟩ := hmax DependenciesRow.end_ts
    obtain ⟨startId, hstartId⟩ := hmin DependenciesRow.dlid
    obtain ⟨endId, hendId⟩ := hmax DependenciesRow.dlid
    refine Or.inr ⟨⟨startMicros, endMicros, startId, endId⟩, ?_, ?_⟩
    · dsimp only
      rw [hstart, hend, hstartId, hendId]
      rfl
    · have hids : (l.map dependenciesRow).map DependenciesRow.dlid = l.map Prod.fst := List.map_map
      rw [hids] at hstartId hendId
      obtain ⟨hmem, hleast⟩ := List.min?_eq_some_iff.1 hstartId
      obtain ⟨hmem', hgreatest⟩ := List.max?_eq_some_iff.1 hendId
      exact ⟨List.mem_map.1 hmem, List.mem_map.1 hmem',
        fun e he => ⟨hleast _ (List.mem_map_of_mem he), hgreatest _ (List.mem_map_of_mem he)⟩⟩

/-- The links that are returned are those of the intervals inside, each as often as it was stored. -/
def ReturnsLinks (order : RowOrder) (now : Int) (t : DependencyTables) (stored : List Dependencies)
    (startTime endTime : Int) : Prop :=
  (getDependencies order now t (some startTime) (some endTime)).links.Perm
    ((stored.filter fun d => decide (Inside startTime endTime d)).flatMap Dependencies.links)

/-- What is stored between two intervals inside, and is not inside itself, has no links. -/
def NothingBetween (stored : List Dependencies) (startTime endTime : Int) : Prop :=
  ∀ i j k : Nat, i < j → j < k → ∀ a ∈ stored[i]?, ∀ d ∈ stored[j]?, ∀ b ∈ stored[k]?,
    Inside startTime endTime a → Inside startTime endTime b → ¬ Inside startTime endTime d → d.links = []

/-- What else is in the range of ids was stored between two intervals inside. -/
theorem nothingBetween_iff {i : DependencyInterval} (h : RangeOf (insideEntries ids stored startTime endTime) i) :
    NothingBetween stored startTime endTime ↔ ∀ e ∈ entries ids stored, i.startId ≤ e.1 ∧ e.1 ≤ i.endId →
      ¬ Inside startTime endTime e.2 → e.2.links = [] := by
  constructor
  · intro hbetween e he hrange hout
    obtain ⟨j, hj, hjid⟩ := mem_entries.1 he
    obtain ⟨a, ha, haid⟩ := h.least
    obtain ⟨b, hb, hbid⟩ := h.greatest
    obtain ⟨m, hm, hmid, hmin⟩ := mem_insideEntries.1 ha
    obtain ⟨n, hn, hnid, hnin⟩ := mem_insideEntries.1 hb
    have hne : ∀ l c, stored[l]? = some c → Inside startTime endTime c → l ≠ j := by
      rintro l c hl hcin rfl
      rw [hj] at hl
      exact hout (Option.some.inj hl ▸ hcin)
    have hmj : m ≤ j := ids.le_of_dlid_le (by omega)
    have hjn : j ≤ n := ids.le_of_dlid_le (by omega)
    exact hbetween m j n (lt_of_le_of_ne hmj (hne m _ hm hmin)) (lt_of_le_of_ne hjn (hne n _ hn hnin).symm)
      _ hm _ hj _ hn hmin hnin hout
  · intro hempty m j n hmj hjn a ha d hd b hb hain hbin hdin
    have hlo := (h.within (ids.dlid m, a) (mem_insideEntries.2 ⟨m, ha, rfl, hain⟩)).1
    have hhi := (h.within (ids.dlid n, b) (mem_insideEntries.2 ⟨n, hb, rfl, hbin⟩)).2
    have hm := ids.dlid_lt _ _ hmj
    have hn := ids.dlid_lt _ _ hjn
    exact hempty (ids.dlid j, d) (mem_entries.2 ⟨j, hd, rfl⟩) ⟨by omega, by omega⟩ hdin

theorem links_getDependencies (t : DependencyTables) : (getDependencies order now t (some startTime) (some endTime)).links =
    ((interval t startTime endTime).map (links order t)).getD [] := by
  rw [getDependencies]
  dsimp only [Option.getD_some]
  cases interval t startTime endTime <;> rfl

/-- **When the links of exactly the intervals inside are returned**: nothing else with links was stored between two of
them. -/
theorem returnsLinks_iff (ids : AutoIncrement) (order : RowOrder) (isSQLRecoverableException : Throwable → Bool) (now : Int)
    (stored : List Dependencies) (startTime endTime : Int) :
    ∃ t, exec (stored.mapM (storeDependencies ids (fun _ => none) isSQLRecoverableException)) {} =
        (.ok (stored.map fun _ => ()), t) ∧
      (ReturnsLinks order now t stored startTime endTime ↔ NothingBetween stored startTime endTime) := by
  refine ⟨_, exec_storeDependencies stored, ?_⟩
  rw [ReturnsLinks, ← linksOf_filter ids (fun d => decide (Inside startTime endTime d)), links_getDependencies]
  rcases interval_spec ids stored startTime endTime with ⟨hnil, hnone⟩ | ⟨i, hsome, hi⟩
  · refine iff_of_true ?_ (fun i j k _ _ a ha d _ b _ hin => ?_)
    · rw [hnone, ← insideEntries, hnil]
      exact .refl _
    · have hmem : (ids.dlid i, a) ∈ insideEntries ids stored startTime endTime :=
        mem_insideEntries.2 ⟨i, ha, rfl, hin⟩
      rw [hnil] at hmem
      exact (List.not_mem_nil hmem).elim
  · have hinside : ∀ e ∈ entries ids stored, decide (Inside startTime endTime e.2) = true →
        decide (i.startId ≤ e.1 ∧ e.1 ≤ i.endId) = true := fun e he hin =>
      decide_eq_true (hi.within e (List.mem_filter.2 ⟨he, hin⟩))
    rw [hsome, Option.map_some, Option.getD_some, (links_perm order i).congr_left, linksOf, linksOf,
      Join.flatMap_filter_perm_iff hinside, nothingBetween_iff hi]
    simp only [decide_eq_true_eq, decide_eq_false_iff_not]

/-- `[50, 60]` is stored between `[10, 20]` and `[20, 30]`, and its link is returned for `[10, 30]`. -/
theorem not_returnsLinks_between : ∃ t,
    exec ([⟨10, 20, [⟨"a", "b", 1⟩]⟩, ⟨50, 60, [⟨"c", "d", 2⟩]⟩, ⟨20, 30, [⟨"e", "f", 3⟩]⟩].mapM
      (storeDependencies ⟨fun n => n + 1, fun _ _ h => Int.add_lt_add_right (Int.ofNat_lt.2 h) 1⟩ (fun _ => none)
        (fun _ => false))) {} = (.ok [(), (), ()], t) ∧
      ¬ ReturnsLinks RowOrder.insertion 0 t
        [⟨10, 20, [⟨"a", "b", 1⟩]⟩, ⟨50, 60, [⟨"c", "d", 2⟩]⟩, ⟨20, 30, [⟨"e", "f", 3⟩]⟩] 10 30 := by
  refine ⟨_, exec_storeDependencies _, fun hperm => ?_⟩
  exact absurd hperm.length_eq (by decide)

end AnormDependencyStore
end Zipkin
