import Zipkin.Base.Table
import Zipkin.RedisIndexed
/-!
# RedisLatest — the timestamps of a trace index

A sorted set has one score for each member, and `ZADD` replaces it.  A trace index that is told of a trace several times
so keeps the timestamp that it was told last, whatever the others were: it lists the greatest one exactly if that came
last (`listsLatest_iff`).
-/
namespace Zipkin
namespace TraceIndex

open Effect AssocMap RedisIndex Table

variable {κ : Type} (index : TraceIndex κ) (key : κ)

/-- The calls of `add` for one key, each with its timestamp and trace id. -/
def addAll (calls : List (Int × Int64)) : Effect Throwable Redis Unit :=
  each calls fun call => index.add key call.1 call.2

def listed (r : Redis) (calls : List (Int × Int64)) (endTs : Int64) (limit : Int) : List (Int64 × Int) :=
  (index.list none (exec (index.addAll key calls) r).2 key endTs limit).map fun e => (e.traceId, e.timestamp)

/-- The timestamps are exact as doubles, the end is not before them, and the limit leaves out no trace. -/
structure Covers (calls : List (Int × Int64)) (endTs : Int64) (limit : Int) : Prop where
  exact : ∀ call ∈ calls, 0 ≤ call.1 ∧ call.1 ≤ 2 ^ 53
  until_end : ∀ call ∈ calls, call.1 ≤ endTs.toInt
  limit : ((calls.map Prod.snd).dedup.length : Int) ≤ limit

/-- Of the calls for a trace id, the last has the greatest timestamp. -/
def LatestComesLast (calls : List (Int × Int64)) : Prop :=
  ∀ call, LastWith (fun c => c.2 = call.2) calls call → ∀ c ∈ calls, c.2 = call.2 → c.1 ≤ call.1

/-! ## The sorted set -/

theorem toDouble_eq_self {n : Int} (h : 0 ≤ n ∧ n ≤ 2 ^ 53) : toDouble n = n := by
  obtain ⟨m, rfl⟩ := Int.eq_ofNat_of_zero_le h.1
  exact congrArg Int.ofNat (Rounding.nearest_eq_self (by decide) (Int.ofNat_le.1 h.2))

theorem toLong_eq_self {n : Int} (h : 0 ≤ n ∧ n ≤ 2 ^ 53) : toLong n = n := by
  unfold toLong
  omega

def stored (calls : List (Int × Int64)) : List ((String × Int64) × Int) :=
  putAll (calls.map fun call => ((index.encodeKey key, call.2), toDouble call.1)) []

variable {index key} {r : Redis} {calls : List (Int × Int64)} {endTs : Int64} {limit : Int}

/-- **In the set is the last score of each trace id.** -/
theorem mem_stored {e : (String × Int64) × Int} : e ∈ index.stored key calls ↔
    ∃ call, LastWith (fun c => c.2 = call.2) calls call ∧ e = ((index.encodeKey key, call.2), toDouble call.1) := by
  rw [stored, (putAll_map_perm (fun call : Int × Int64 => (index.encodeKey key, call.2))
    (fun call => toDouble call.1) calls).mem_iff, List.mem_map]
  refine exists_congr fun call => ?_
  rw [mem_lasts]
  simp only [Prod.mk.injEq, true_and, eq_comm]

theorem nodup_keys_stored : ((index.stored key calls).map fun e => e.1.2).Nodup := by
  have hkeys := nodup_keys_putAll_nil (calls.map fun call => ((index.encodeKey key, call.2), toDouble call.1))
  refine (List.Nodup.map_on (f := Prod.snd) (fun k hk k' hk' hid => ?_) hkeys |> fun h => by rwa [List.map_map] at h)
  obtain ⟨e, he, rfl⟩ := List.mem_map.1 hk
  obtain ⟨e', he', rfl⟩ := List.mem_map.1 hk'
  obtain ⟨_, -, rfl⟩ := mem_stored.1 he
  obtain ⟨_, -, rfl⟩ := mem_stored.1 he'
  exact Prod.ext rfl hid

theorem length_stored_le : (index.stored key calls).length ≤ (calls.map Prod.snd).dedup.length := by
  have hsub : ((index.stored key calls).map fun e => e.1.2) ⊆ (calls.map Prod.snd).dedup := fun id hid => by
    obtain ⟨e, he, rfl⟩ := List.mem_map.1 hid
    obtain ⟨call, hlast, rfl⟩ := mem_stored.1 he
    exact List.mem_dedup.2 (List.mem_map_of_mem hlast.mem)
  have hle := (List.subperm_of_subset nodup_keys_stored hsub).length_le
  rwa [List.length_map] at hle

theorem zsets_addAll (hnew : ∀ e ∈ r.zsets, e.1.1 ≠ index.encodeKey key) :
    (exec (index.addAll key calls) r).2.zsets = r.zsets ++ index.stored key calls := by
  have hputs := puts_each (l := calls) (fun call _ => puts_add index key call.1 call.2)
  rw [← List.map_eq_flatMap] at hputs
  rw [addAll, hputs r, ← List.append_nil r.zsets]
  dsimp only
  rw [putAll_append_of_not_mem, List.append_nil]
  · rfl
  · intro e he hmem
    obtain ⟨call, -, rfl⟩ := List.mem_map.1 he
    obtain ⟨e', he', hkey⟩ := List.mem_map.1 hmem
    exact hnew e' he' (congrArg Prod.fst hkey)

instance : Std.Total Redis.rev := ⟨fun a b => by
  unfold Redis.rev
  rcases Int.lt_trichotomy a.2 b.2 with h | h | h
  · exact Or.inr (Or.inl h)
  · exact (Std.Total.total (r := (· ≤ ·)) b.1.2.toUInt64 a.1.2.toUInt64).imp (fun hle => Or.inr ⟨h.symm, hle⟩)
      (fun hle => Or.inr ⟨h, hle⟩)
  · exact Or.inl (Or.inl h)⟩

instance : IsTrans ((String × Int64) × Int) Redis.rev := ⟨fun a b c hab hbc => by
  unfold Redis.rev at *
  rcases hab with hab | ⟨hab, hab'⟩ <;> rcases hbc with hbc | ⟨hbc, hbc'⟩
  · exact Or.inl (by omega)
  · exact Or.inl (by omega)
  · exact Or.inl (by omega)
  · exact Or.inr ⟨hbc.trans hab, UInt64.le_trans hbc' hab'⟩⟩

/-- **What is listed is the sorted set**, the greatest scores first. -/
theorem listed_eq (hnew : ∀ e ∈ r.zsets, e.1.1 ≠ index.encodeKey key) (hcovers : Covers calls endTs limit) :
    index.listed key r calls endTs limit =
      ((index.stored key calls).insertionSort Redis.rev).map fun e => (e.1.2, toLong e.2) := by
  have hfound : (exec (index.addAll key calls) r).2.zsets.filter (fun e => e.1.1 == index.encodeKey key &&
      decide (toDouble (startTs none endTs).toInt ≤ e.2 ∧ e.2 ≤ toDouble endTs.toInt)) = index.stored key calls := by
    rw [zsets_addAll hnew, List.filter_append, List.filter_eq_nil_iff.2 (fun e he => ?_), List.nil_append,
      List.filter_eq_self.2 (fun e he => ?_)]
    · obtain ⟨call, hlast, rfl⟩ := mem_stored.1 he
      have hexact := hcovers.exact call hlast.mem
      have hle := toDouble_mono (hcovers.until_end call hlast.mem)
      have hzero : toDouble (startTs none endTs).toInt = 0 := toDouble_eq_self (n := 0) (by decide)
      rw [toDouble_eq_self hexact] at hle ⊢
      rw [hzero]
      simp [hexact.1, hle]
    · simp [hnew e he]
  have hlength : (index.stored key calls).length ≤ limit.toNat := by
    have hle : (index.stored key calls).length ≤ (calls.map Prod.snd).dedup.length := length_stored_le
    have hlimit := hcovers.limit
    omega
  have hnonneg : ¬ limit < 0 := by
    have hlimit := hcovers.limit
    omega
  simp only [listed, list, Redis.zRevRangeByScore, hfound, if_neg hnonneg, List.map_map]
  rw [List.take_of_length_le (by rwa [List.length_insertionSort])]
  rfl

/-- **What is listed of a trace is its last timestamp.** -/
theorem mem_listed (hnew : ∀ e ∈ r.zsets, e.1.1 ≠ index.encodeKey key) (hcovers : Covers calls endTs limit) {id : Int64}
    {ts : Int} : (id, ts) ∈ index.listed key r calls endTs limit ↔ LastWith (fun c => c.2 = id) calls (ts, id) := by
  have hexact : ∀ call ∈ calls, toLong (toDouble call.1) = call.1 := fun call hcall => by
    rw [toDouble_eq_self (hcovers.exact call hcall), toLong_eq_self (hcovers.exact call hcall)]
  rw [listed_eq hnew hcovers, List.mem_map]
  constructor
  · rintro ⟨e, he, heq⟩
    obtain ⟨call, hlast, rfl⟩ := mem_stored.1 ((List.mem_insertionSort _).1 he)
    rw [hexact call hlast.mem] at heq
    obtain ⟨rfl, rfl⟩ := Prod.mk.inj heq
    exact hlast
  · intro hlast
    refine ⟨_, (List.mem_insertionSort _).2 (mem_stored.2 ⟨(ts, id), hlast, rfl⟩), ?_⟩
    rw [hexact (ts, id) hlast.mem]

theorem keys_listed (hnew : ∀ e ∈ r.zsets, e.1.1 ≠ index.encodeKey key) (hcovers : Covers calls endTs limit) :
    ((index.listed key r calls endTs limit).map Prod.fst).Nodup := by
  rw [listed_eq hnew hcovers, List.map_map]
  exact (((List.perm_insertionSort Redis.rev _).map _).nodup_iff).2 nodup_keys_stored

theorem descending_listed (hnew : ∀ e ∈ r.zsets, e.1.1 ≠ index.encodeKey key) (hcovers : Covers calls endTs limit) :
    (index.listed key r calls endTs limit).Pairwise fun a b => b.2 ≤ a.2 := by
  rw [listed_eq hnew hcovers, List.pairwise_map]
  refine (List.pairwise_insertionSort Redis.rev _).imp fun {a b} hrev => ?_
  have hle : b.2 ≤ a.2 := by
    unfold Redis.rev at hrev
    omega
  unfold toLong
  dsimp only
  omega

/-! ## The greatest timestamps -/

/-- **When the greatest timestamps are listed**: exactly if they come last. -/
theorem latestFirst_listed_iff (hnew : ∀ e ∈ r.zsets, e.1.1 ≠ index.encodeKey key)
    (hcovers : Covers calls endTs limit) :
    LatestFirst calls (index.listed key r calls endTs limit) ↔ LatestComesLast calls := by
  constructor
  · intro h call hlast
    exact ((h.latest call.2 call.1).1 ((mem_listed hnew hcovers).2 hlast)).2
  · intro h
    refine ⟨keys_listed hnew hcovers, fun id ts => ?_, descending_listed hnew hcovers⟩
    rw [mem_listed hnew hcovers]
    constructor
    · exact fun hlast => ⟨hlast.mem, h (ts, id) hlast⟩
    · rintro ⟨hmem, hmax⟩
      obtain ⟨call, hlast⟩ := exists_lastWith (P := fun c : Int × Int64 => c.2 = id) hmem rfl
      have hid : call.2 = id := hlast.prop
      have hle := hmax call hlast.mem hid
      have hge := h call (by rw [hid]; exact hlast) _ hmem hid.symm
      have heq : (ts, id) = call := Prod.ext (Int.le_antisymm hge hle) hid.symm
      rwa [heq]

theorem Covers.perm {calls' : List (Int × Int64)} (h : Covers calls endTs limit) (hperm : calls'.Perm calls) :
    Covers calls' endTs limit :=
  ⟨fun call hcall => h.exact call (hperm.mem_iff.1 hcall), fun call hcall => h.until_end call (hperm.mem_iff.1 hcall),
    by rw [((hperm.map Prod.snd).dedup).length_eq]; exact h.limit⟩

/-- With one timestamp for each trace the order of the calls leaves no trace in the sorted set. -/
theorem listed_eq_of_perm {calls' : List (Int × Int64)} (hnew : ∀ e ∈ r.zsets, e.1.1 ≠ index.encodeKey key)
    (hcovers : Covers calls endTs limit) (hone : OneTimestampEach calls) (hperm : calls'.Perm calls) :
    index.listed key r calls' endTs limit = index.listed key r calls endTs limit := by
  have hlast : ∀ {l : List (Int × Int64)}, l.Perm calls → ∀ call,
      LastWith (fun c => c.2 = call.2) l call ↔ call ∈ calls := fun {l} hl call => by
    refine ⟨fun h => hl.mem_iff.1 h.mem, fun h => ?_⟩
    obtain ⟨call', hlast⟩ := exists_lastWith (P := fun c : Int × Int64 => c.2 = call.2) (hl.mem_iff.2 h) rfl
    have heq : call' = call := Prod.ext (hone call' (hl.mem_iff.1 hlast.mem) call h hlast.prop) hlast.prop
    rwa [← heq] at hlast ⊢
  have hstored : (index.stored key calls').Perm (index.stored key calls) := by
    refine (List.perm_ext_iff_of_nodup nodup_keys_stored.of_map nodup_keys_stored.of_map).2 fun e => ?_
    simp only [mem_stored, hlast hperm, hlast (.refl calls)]
  have hsort : (index.stored key calls').insertionSort Redis.rev = (index.stored key calls).insertionSort Redis.rev := by
    have hsorted := ((List.perm_insertionSort Redis.rev _).trans hstored).trans
      (List.perm_insertionSort Redis.rev (index.stored key calls)).symm
    refine hsorted.eq_of_pairwise (fun a b ha hb hab hba => ?_) (List.pairwise_insertionSort _ _)
      (List.pairwise_insertionSort _ _)
    obtain ⟨c, -, rfl⟩ := mem_stored.1 ((List.mem_insertionSort _).1 ha)
    obtain ⟨d, -, rfl⟩ := mem_stored.1 ((List.mem_insertionSort _).1 hb)
    unfold Redis.rev at hab hba
    have hscore : toDouble c.1 = toDouble d.1 := by omega
    have hbytes : c.2.toUInt64 = d.2.toUInt64 :=
      UInt64.le_antisymm (hba.resolve_left (by omega)).2 (hab.resolve_left (by omega)).2
    have hid : c.2 = d.2 := congrArg Int64.ofUInt64 hbytes
    rw [hscore, hid]
  rw [listed_eq hnew (hcovers.perm hperm), listed_eq hnew hcovers, hsort]

/-- Two timestamps of a trace are listed one after the other, whichever call comes last. -/
theorem oneTimestampEach_of_any_order (hnew : ∀ e ∈ r.zsets, e.1.1 ≠ index.encodeKey key)
    (hcovers : Covers calls endTs limit)
    (h : ∀ calls', calls'.Perm calls → index.listed key r calls' endTs limit = index.listed key r calls endTs limit) :
    OneTimestampEach calls := by
  have hlisted : ∀ call ∈ calls, (call.2, call.1) ∈ index.listed key r calls endTs limit := fun call hcall => by
    have hperm : (calls.erase call ++ [call]).Perm calls :=
      List.perm_append_comm.trans (List.perm_cons_erase hcall).symm
    rw [← h _ hperm, mem_listed hnew (hcovers.perm hperm)]
    exact lastWith_append_singleton.2 (Or.inl ⟨rfl, rfl⟩)
  intro call hcall call' hcall' hid
  have hlast := (mem_listed hnew hcovers).1 (hlisted call hcall)
  have hlast' := (mem_listed hnew hcovers).1 (hlisted call' hcall')
  rw [← hid] at hlast'
  have heq := lastWith_unique hlast hlast'
  exact (Prod.mk.inj heq).1

/-- **When an index lists the greatest timestamps**: if these come last; and in any order of the calls exactly if no trace
has two. -/
theorem listsLatest_iff (index : TraceIndex κ) (key : κ) (r : Redis) (calls : List (Int × Int64)) (endTs : Int64)
    (limit : Int) (hnew : ∀ e ∈ r.zsets, e.1.1 ≠ index.encodeKey key) (hcovers : Covers calls endTs limit) :
    (LatestFirst calls (index.listed key r calls endTs limit) ↔ LatestComesLast calls) ∧
    (LatestFirst calls (index.listed key r calls endTs limit) ∧ (∀ calls', calls'.Perm calls →
      index.listed key r calls' endTs limit = index.listed key r calls endTs limit) ↔ OneTimestampEach calls) := by
  refine ⟨latestFirst_listed_iff hnew hcovers, fun h => oneTimestampEach_of_any_order hnew hcovers h.2, fun h => ⟨?_, ?_⟩⟩
  · exact (latestFirst_listed_iff hnew hcovers).2 fun call hlast c hc hid => Int.le_of_eq (h c hc call hlast.mem hid)
  · exact fun calls' hperm => listed_eq_of_perm hnew hcovers h hperm

/-- Two traces with one timestamp each. -/
theorem listsLatest_twoTraces : LatestFirst [(1, 1234), (2, 5678)] (serviceIndex.listed "web" {} [(1, 1234), (2, 5678)] 100 100) ∧
    ∀ calls', calls'.Perm [(1, 1234), (2, 5678)] → serviceIndex.listed "web" {} calls' 100 100 =
      serviceIndex.listed "web" {} [(1, 1234), (2, 5678)] 100 100 :=
  have hcovers : Covers [(1, 1234), (2, 5678)] 100 100 := ⟨by decide, by decide, by decide⟩
  (listsLatest_iff serviceIndex "web" {} [(1, 1234), (2, 5678)] 100 100 (fun _ he => (List.not_mem_nil he).elim)
    hcovers).2.2 (by unfold OneTimestampEach; decide)

/-- The later timestamp is indexed first, and the earlier one is listed. -/
theorem not_listsLatest_descending : Covers [(2, 1234), (1, 1234)] 100 100 ∧
    serviceIndex.listed "web" {} [(2, 1234), (1, 1234)] 100 100 = [(1234, 1)] ∧
    ¬ LatestFirst [(2, 1234), (1, 1234)] (serviceIndex.listed "web" {} [(2, 1234), (1, 1234)] 100 100) := by
  have hlisted : serviceIndex.listed "web" {} [(2, 1234), (1, 1234)] 100 100 = [(1234, 1)] := by decide +kernel
  refine ⟨⟨by decide, by decide, by decide⟩, hlisted, fun h => ?_⟩
  rw [hlisted] at h
  have hlatest := ((h.latest 1234 1).1 (by decide)).2 (2, 1234) (by decide) rfl
  exact absurd hlatest (by decide)

end TraceIndex
end Zipkin
