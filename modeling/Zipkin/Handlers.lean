import Zipkin.TraceSummary
import Zipkin.Util
import Zipkin.Base.Sweep
/-!
# Handlers — the list of traces on the index page

`traceSummaryToMustache` of the web server's `Handlers.scala`.  The service time of a trace is to be the time that some
span of the service is running.  `totalServiceTime` takes the earliest span timestamp, drops it and what lies within it, and
goes on with the rest: the lengths that it adds up are those of a sweep, so what overlaps is counted again.

A percentage is computed in `Float`, which is a parameter here.
-/
namespace Zipkin
namespace Handlers

open SpanTimestamp

structure MustacheServiceDuration where
  name : String
  count : Nat
  max : Int
deriving DecidableEq

structure MustacheTraceSummary where
  traceId : String
  startTime : String
  timestamp : Int
  duration : Int
  durationStr : String
  servicePercentage : Int
  spanCount : Nat
  serviceDurations : List MustacheServiceDuration
  width : Int
deriving DecidableEq

/-- The library's functions, and the iteration orders. -/
structure Env where
  setOrder : SetOrder
  /-- `fmt.format(new java.util.Date(ms))` -/
  formatDate : Int → String
  /-- `((a.toFloat / b.toFloat) * 100).toInt`.  Rounding is monotone, and 0 over 0 is turned into 0. -/
  percent : Int → Int → Int
  percent_le : ∀ a b, 0 ≤ a → a ≤ b → percent a b ≤ 100

/-- The first of the stamps with the least start. -/
def earliest (stamps : List SpanTimestamp) : Option SpanTimestamp := do
  let start ← (stamps.map startTimestamp).min?
  stamps.find? (fun t => t.startTimestamp == start)

/-- The stamp is taken together with `ts`. -/
def within (ts t : SpanTimestamp) : Bool :=
  decide (t.startTimestamp ≥ ts.startTimestamp) && decide (t.endTimestamp ≤ ts.endTimestamp)

theorem mem_of_earliest {stamps : List SpanTimestamp} {ts : SpanTimestamp} (h : earliest stamps = some ts) : ts ∈ stamps := by
  obtain ⟨start, -, hfind⟩ := Option.bind_eq_some_iff.1 h
  exact List.mem_of_find?_eq_some hfind

theorem length_next_lt {stamps : List SpanTimestamp} {ts : SpanTimestamp} (h : earliest stamps = some ts) :
    (stamps.partition (within ts)).2.length < stamps.length := by
  rw [List.partition_eq_filter_filter]
  exact List.length_filter_lt_length_iff_exists.2 ⟨ts, mem_of_earliest h, by simp [within]⟩

def totalServiceTime (stamps : List SpanTimestamp) (acc : Int) : Int :=
  match _h : earliest stamps with
  | none => acc
  | some ts =>
    let parts := stamps.partition (within ts)
    let stop := ((parts.1.map endTimestamp).max?).getD 0
    totalServiceTime parts.2 (wrap64 (acc + wrap64 (stop - ts.startTimestamp)))
termination_by stamps.length
decreasing_by exact length_next_lt _h

variable (env : Env)

/-- `spanTimestamps.groupBy(_.name)` -/
def groupedSpanTimestamps (t : TraceSummary) : List (String × List SpanTimestamp) :=
  (env.setOrder.names (t.spanTimestamps.map name)).map fun n => (n, t.spanTimestamps.filter (fun st => st.name == n))

def serviceTime (serviceName : Option String) (t : TraceSummary) : Option Int := do
  let name ← serviceName
  let timestamps ← (groupedSpanTimestamps env t).lookup name
  pure (totalServiceTime timestamps 0)

def maxDuration (ts : List TraceSummary) : Int :=
  ts.foldl (fun maxD t => max (t.durationMicro.tdiv 1000) maxD) (-2 ^ 63)

def mustacheOf (serviceName : Option String) (maxDuration : Int) (t : TraceSummary) : MustacheTraceSummary where
  traceId := t.traceId
  startTime := env.formatDate (t.startTimestamp.tdiv 1000)
  timestamp := t.startTimestamp
  duration := t.durationMicro.tdiv 1000
  durationStr := Util.durationStr (wrap64 (t.durationMicro * 1000))
  servicePercentage := ((serviceTime env serviceName t).map (fun st => env.percent st t.durationMicro)).getD 0
  spanCount := ((groupedSpanTimestamps env t).map (fun g => g.2.length)).sum
  serviceDurations := (groupedSpanTimestamps env t).map fun (n, sts) =>
    ⟨n, sts.length, (((sts.map SpanTimestamp.duration).max?).getD 0).tdiv 1000⟩
  width := env.percent (t.durationMicro.tdiv 1000) maxDuration

/-- The traces of the page: by duration, the longest first. -/
def traceSummaryToMustache (serviceName : Option String) (ts : List TraceSummary) : List MustacheTraceSummary :=
  (StableSort.sorted (compareOn MustacheTraceSummary.duration)
    (ts.map (mustacheOf env serviceName (maxDuration ts)))).reverse

/-! ## The service time -/

abbrev byStart : SpanTimestamp → SpanTimestamp → Ordering := compareOn startTimestamp

theorem le_byStart {s t : SpanTimestamp} : StableSort.le byStart s t ↔ s.startTimestamp ≤ t.startTimestamp := by
  rw [StableSort.le, byStart, compareOn, Int.isLE_compare]

theorem earliest_cons (a : SpanTimestamp) (l : List SpanTimestamp) : earliest (a :: l) = match earliest l with
    | none => some a
    | some b => if StableSort.le byStart a b then some a else some b := by
  cases hmin : (l.map startTimestamp).min? with
  | none =>
    obtain rfl := List.map_eq_nil_iff.1 (List.min?_eq_none_iff.1 hmin)
    simp [earliest]
  | some m =>
    obtain ⟨b, hb, rfl⟩ := List.mem_map.1 (List.min?_mem hmin)
    have hfind : (l.find? (fun t => t.startTimestamp == b.startTimestamp)).isSome :=
      List.find?_isSome.2 ⟨b, hb, beq_iff_eq.2 rfl⟩
    obtain ⟨b', hb'⟩ := Option.isSome_iff_exists.1 hfind
    have hstart : b'.startTimestamp = b.startTimestamp :=
      beq_iff_eq.1 (List.find?_some (p := fun t : SpanTimestamp => t.startTimestamp == b.startTimestamp) hb')
    have hl : earliest l = some b' := by rw [earliest, hmin]; exact hb'
    have hmincons : ((a :: l).map startTimestamp).min? = some (min a.startTimestamp b.startTimestamp) := by
      rw [List.map_cons, List.min?_cons, hmin]
      rfl
    rw [hl, earliest, hmincons]
    change (a :: l).find? (fun t => t.startTimestamp == min a.startTimestamp b.startTimestamp) =
      if StableSort.le byStart a b' then some a else some b'
    by_cases hle : StableSort.le byStart a b'
    · have hmin' : min a.startTimestamp b.startTimestamp = a.startTimestamp :=
        min_eq_left (hstart ▸ le_byStart.1 hle)
      rw [if_pos hle, hmin', List.find?_cons]
      simp
    · have hlt : b.startTimestamp < a.startTimestamp := hstart ▸ not_le.1 (mt le_byStart.2 hle)
      have hne : (a.startTimestamp == b.startTimestamp) = false := beq_eq_false_iff_ne.2 hlt.ne'
      rw [if_neg hle, min_eq_right hlt.le, List.find?_cons, hne]
      exact hb'

theorem earliest_eq_head? (stamps : List SpanTimestamp) :
    earliest stamps = (StableSort.sorted byStart stamps).head? := by
  induction stamps with
  | nil => rfl
  | cons a l ih =>
    rw [earliest_cons, StableSort.head?_sorted_cons, ih]
    cases (StableSort.sorted byStart l).head? <;> rfl

/-- **One step**: the earliest stamp is counted, and what reaches no further than it is dropped. -/
theorem totalServiceTime_step {stamps rest : List SpanTimestamp} {ts : SpanTimestamp}
    (hsorted : StableSort.sorted byStart stamps = ts :: rest) (acc : Int) : totalServiceTime stamps acc =
      totalServiceTime (stamps.filter (fun t => decide (ts.endTimestamp < t.endTimestamp)))
        (wrap64 (acc + (ts.endTimestamp - ts.startTimestamp))) := by
  have hearliest : earliest stamps = some ts := by rw [earliest_eq_head?, hsorted]; rfl
  have hmem := mem_of_earliest hearliest
  have hfirst : ∀ t ∈ stamps, ts.startTimestamp ≤ t.startTimestamp := by
    intro t ht
    have hpairwise := StableSort.pairwise_sorted byStart stamps
    have ht : t ∈ StableSort.sorted byStart stamps := (StableSort.sorted_perm byStart stamps).mem_iff.2 ht
    rw [hsorted] at hpairwise ht
    rcases List.mem_cons.1 ht with rfl | ht
    · exact le_refl _
    · exact le_byStart.1 (List.rel_of_pairwise_cons hpairwise ht)
  have hnext : (stamps.partition (within ts)).2 = stamps.filter (fun t => decide (ts.endTimestamp < t.endTimestamp)) := by
    rw [List.partition_eq_filter_filter]
    refine List.filter_congr fun t ht => ?_
    rw [Bool.eq_iff_iff]
    simp [within, hfirst t ht]
  -- all that is taken with the stamp ends with it at the latest
  have hstop : ((stamps.partition (within ts)).1.map endTimestamp).max? = some ts.endTimestamp := by
    rw [List.partition_eq_filter_filter, List.max?_eq_some_iff]
    refine ⟨List.mem_map_of_mem (List.mem_filter.2 ⟨hmem, by simp [within]⟩), fun x hx => ?_⟩
    obtain ⟨t, ht, rfl⟩ := List.mem_map.1 hx
    have hwithin := (List.mem_filter.1 ht).2
    simp only [within, Bool.and_eq_true, decide_eq_true_eq] at hwithin
    exact hwithin.2
  rw [totalServiceTime]
  split
  · rename_i hnone
    rw [hearliest] at hnone
    cases hnone
  · rename_i ts' hsome
    obtain rfl : ts = ts' := Option.some.inj (hearliest.symm.trans hsome)
    simp only [hnext, hstop, Option.getD_some, wrap64, Int.add_bmod_bmod]

theorem totalServiceTime_nil (acc : Int) : totalServiceTime [] acc = acc := by
  rw [totalServiceTime]
  rfl

/-- **The sum of the counted stamps**, as the sweep has it. -/
theorem totalServiceTime_eq_lengths (n : Nat) : ∀ (stamps : List SpanTimestamp), stamps.length ≤ n → ∀ (reached acc : Int),
    (∀ t ∈ stamps, reached < t.endTimestamp) → totalServiceTime stamps (wrap64 acc) =
      wrap64 (acc + Sweep.lengths startTimestamp endTimestamp reached (StableSort.sorted byStart stamps)) := by
  induction n with
  | zero =>
    intro stamps hlength reached acc _
    obtain rfl := List.length_eq_zero_iff.1 (Nat.le_zero.1 hlength)
    rw [totalServiceTime_nil]
    exact congrArg wrap64 (add_zero acc).symm
  | succ n ih =>
    intro stamps hlength reached acc hreached
    cases hsorted : StableSort.sorted byStart stamps with
    | nil =>
      obtain rfl := List.perm_nil.1 ((StableSort.sorted_perm byStart stamps).symm.trans (.of_eq hsorted))
      rw [totalServiceTime_nil]
      exact congrArg wrap64 (add_zero acc).symm
    | cons ts rest =>
      have hts : ts ∈ stamps := (StableSort.sorted_perm byStart stamps).mem_iff.1 (hsorted ▸ List.mem_cons_self)
      have hnext : (stamps.filter (fun t => decide (ts.endTimestamp < t.endTimestamp))).length ≤ n := by
        have hlt : (stamps.filter (fun t => decide (ts.endTimestamp < t.endTimestamp))).length < stamps.length :=
          List.length_filter_lt_length_iff_exists.2 ⟨ts, hts, by simp⟩
        omega
      have hsplit : StableSort.sorted byStart (stamps.filter (fun t => decide (ts.endTimestamp < t.endTimestamp))) =
          rest.filter (fun t => decide (ts.endTimestamp < t.endTimestamp)) := by
        rw [← StableSort.filter_sorted, hsorted, List.filter_cons, if_neg (by simp)]
      have hstep : wrap64 (wrap64 acc + (ts.endTimestamp - ts.startTimestamp)) =
          wrap64 (acc + (ts.endTimestamp - ts.startTimestamp)) := Int.bmod_add_bmod
      rw [totalServiceTime_step hsorted, hstep, ih _ hnext ts.endTimestamp _ fun t ht => by
        simpa using (List.mem_filter.1 ht).2]
      rw [hsplit, Sweep.lengths_filter _ _ _ (le_refl _), Sweep.lengths, if_neg (not_le.2 (hreached ts hts)), add_assoc]

/-! ## The union -/

def unionLength (stamps : List SpanTimestamp) : Int := Sweep.unionLength startTimestamp endTimestamp stamps

/-- A time before all stamps. -/
def before (stamps : List SpanTimestamp) : Int := ((stamps.map startTimestamp).min?).getD 0 - 1

/-- How much the stamps that are counted overlap with those before them. -/
def overlap (stamps : List SpanTimestamp) : Int :=
  Sweep.overlaps startTimestamp endTimestamp (before stamps) (StableSort.sorted byStart stamps)

/-- By start, and then by position, each stamp lies within one before it, or starts where all before it have ended. -/
def EachNestedOrApart (stamps : List SpanTimestamp) : Prop :=
  ∀ earlier t later, StableSort.sorted byStart stamps = earlier ++ t :: later →
    Sweep.NestedOrApart startTimestamp endTimestamp earlier t

theorem before_lt {stamps : List SpanTimestamp} {t : SpanTimestamp} (ht : t ∈ stamps) :
    before stamps < t.startTimestamp := by
  cases hmin : (stamps.map startTimestamp).min? with
  | none =>
    obtain rfl := List.map_eq_nil_iff.1 (List.min?_eq_none_iff.1 hmin)
    cases ht
  | some m =>
    have hle := (List.min?_eq_some_iff.1 hmin).2 _ (List.mem_map_of_mem ht)
    rw [before, hmin, Option.getD_some]
    omega

variable {stamps : List SpanTimestamp}

/-- **What is added up**: the union, and the overlaps once more. -/
theorem totalServiceTime_eq (horder : ∀ t ∈ stamps, t.startTimestamp ≤ t.endTimestamp) :
    totalServiceTime stamps 0 = wrap64 (unionLength stamps + overlap stamps) := by
  have hmem {t : SpanTimestamp} : t ∈ StableSort.sorted byStart stamps ↔ t ∈ stamps :=
    (StableSort.sorted_perm byStart stamps).mem_iff
  have hsum := totalServiceTime_eq_lengths stamps.length stamps (le_refl _) (before stamps) 0
    fun t ht => (before_lt ht).trans_le (horder t ht)
  have hpairwise : (StableSort.sorted byStart stamps).Pairwise (fun s t => s.startTimestamp ≤ t.startTimestamp) :=
    (StableSort.pairwise_sorted byStart stamps).imp le_byStart.1
  have hunion : unionLength stamps =
      (Sweep.beyond startTimestamp endTimestamp (before stamps) (StableSort.sorted byStart stamps)).card := by
    rw [← Sweep.unionLength_eq_beyond startTimestamp endTimestamp fun t ht => (before_lt (hmem.1 ht)).le]
    exact congrArg (fun c : Finset ℤ => (c.card : ℤ)) (Sweep.covered_congr startTimestamp endTimestamp fun t => hmem.symm)
  rw [Sweep.lengths_eq startTimestamp endTimestamp hpairwise (fun t ht => horder t (hmem.1 ht)), zero_add,
    ← hunion] at hsum
  exact hsum

theorem overlap_eq_zero_iff (horder : ∀ t ∈ stamps, t.startTimestamp ≤ t.endTimestamp) :
    overlap stamps = 0 ↔ EachNestedOrApart stamps :=
  Sweep.overlaps_eq_zero_iff startTimestamp endTimestamp fun t ht => by
    have hlt := before_lt ((StableSort.sorted_perm byStart stamps).mem_iff.1 ht)
    exact ⟨hlt.le, hlt.trans_le (horder t ((StableSort.sorted_perm byStart stamps).mem_iff.1 ht))⟩

theorem unionLength_nonneg (stamps : List SpanTimestamp) : 0 ≤ unionLength stamps := Int.natCast_nonneg _

/-- A sum in a `Long` is the union if the union fits and the overlaps make up nothing in it. -/
theorem totalServiceTime_eq_unionLength_iff (horder : ∀ t ∈ stamps, t.startTimestamp ≤ t.endTimestamp) :
    totalServiceTime stamps 0 = unionLength stamps ↔ unionLength stamps < 2 ^ 63 ∧ (2 ^ 64 : Int) ∣ overlap stamps := by
  have hnonneg := unionLength_nonneg stamps
  rw [totalServiceTime_eq horder, wrap64_eq_iff, sub_add_cancel_left, Int.dvd_neg]
  exact and_congr_left' (and_iff_right (by omega))

theorem lookup_groupedSpanTimestamps {summary : TraceSummary} {n : String}
    (h : (groupedSpanTimestamps env summary).lookup n = some stamps) :
    stamps = summary.spanTimestamps.filter (fun st => st.name == n) := by
  have hmem := AssocMap.mem_of_lookup h
  obtain ⟨n', -, heq⟩ := List.mem_map.1 hmem
  obtain ⟨rfl, hstamps⟩ := Prod.mk.inj heq
  exact hstamps.symm

/-- **The union is within the trace.** -/
theorem unionLength_le_of_lookup {β : Type} {summaryEnv : TraceSummary.Env β} {t : Trace β} {summary : TraceSummary}
    {n : String} (h : TraceSummary.apply summaryEnv t = some summary)
    (hstamps : (groupedSpanTimestamps env summary).lookup n = some stamps) :
    unionLength stamps ≤ summary.endTimestamp - summary.startTimestamp := by
  obtain rfl := lookup_groupedSpanTimestamps env hstamps
  refine Sweep.unionLength_le _ _ (TraceSummary.start_le_end h) fun st hst => ?_
  obtain ⟨hstart, -, hend⟩ := TraceSummary.within_of_mem h (List.mem_of_mem_filter hst)
  exact ⟨hstart, hend⟩

/-- **When the service time is the union** of a service's spans: when no stamp overlaps with those before it.  Then it is
no longer than the trace. -/
theorem serviceTime_iff (horder : ∀ t ∈ stamps, t.startTimestamp ≤ t.endTimestamp) :
    (totalServiceTime stamps 0 = unionLength stamps ↔ unionLength stamps < 2 ^ 63 ∧ (2 ^ 64 : Int) ∣ overlap stamps) ∧
    (overlap stamps = 0 ↔ EachNestedOrApart stamps) ∧
    ∀ {β : Type} (summaryEnv : TraceSummary.Env β) (env : Env) (t : Trace β) (summary : TraceSummary) (name : String),
      TraceSummary.apply summaryEnv t = some summary → (groupedSpanTimestamps env summary).lookup name = some stamps →
      totalServiceTime stamps 0 = unionLength stamps →
        totalServiceTime stamps 0 ≤ summary.endTimestamp - summary.startTimestamp ∧
        (summary.durationMicro = summary.endTimestamp - summary.startTimestamp →
          ∀ longest, (mustacheOf env (some name) longest summary).servicePercentage ≤ 100) := by
  refine ⟨totalServiceTime_eq_unionLength_iff horder, overlap_eq_zero_iff horder, ?_⟩
  intro β summaryEnv env t summary name h hstamps htotal
  have hle := unionLength_le_of_lookup env h hstamps
  refine ⟨htotal.trans_le hle, fun hduration longest => ?_⟩
  have htime : serviceTime env (some name) summary = some (totalServiceTime stamps 0) := by
    rw [serviceTime]
    change ((groupedSpanTimestamps env summary).lookup name).bind _ = _
    rw [hstamps]
    rfl
  rw [mustacheOf, htime, htotal, hduration]
  exact env.percent_le _ _ (unionLength_nonneg _) hle

/-- An instance: dates are left out, and a percentage is exact but for its fraction. -/
def Env.sample : Env where
  setOrder := .insertion
  formatDate _ := ""
  percent a b := (100 * a).tdiv b
  percent_le a b ha hab := by
    rw [Int.tdiv_eq_ediv_of_nonneg (by omega)]
    rcases (ha.trans hab).eq_or_lt with rfl | hb
    · rw [Int.ediv_zero]
      decide
    · exact Int.le_of_lt_add_one (Int.ediv_lt_of_lt_mul hb (by omega))

/-- A span within another, and one after both. -/
theorem serviceTime_nested : totalServiceTime [⟨"web", 0, 10⟩, ⟨"web", 2, 8⟩, ⟨"web", 10, 15⟩] 0 =
    unionLength [⟨"web", 0, 10⟩, ⟨"web", 2, 8⟩, ⟨"web", 10, 15⟩] :=
  (serviceTime_iff (by decide)).1.2 ⟨by decide, by decide⟩

/-- Two calls of one service, the second sent before the first was answered. -/
def overlappingTrace : Trace Unit :=
  ⟨[Span.apply 1 "get" 1 none [⟨0, "sr", some ⟨1, 80, "web"⟩⟩, ⟨10, "ss", some ⟨1, 80, "web"⟩⟩] [],
    Span.apply 1 "get" 2 none [⟨5, "sr", some ⟨1, 80, "web"⟩⟩, ⟨15, "ss", some ⟨1, 80, "web"⟩⟩] []]⟩

def summaryEnv : TraceSummary.Env Unit := ⟨.insertion Unit, .insertion, id, fun _ => ""⟩

theorem not_serviceTime_overlapping :
    totalServiceTime [⟨"web", 0, 10⟩, ⟨"web", 5, 15⟩] 0 = 20 ∧ unionLength [⟨"web", 0, 10⟩, ⟨"web", 5, 15⟩] = 15 ∧
    ∃ summary, TraceSummary.apply summaryEnv overlappingTrace = some summary ∧
      (mustacheOf .sample (some "web") 0 summary).servicePercentage = 133 := by
  have hunion : unionLength [⟨"web", 0, 10⟩, ⟨"web", 5, 15⟩] = 15 := by decide
  have htotal : totalServiceTime [⟨"web", 0, 10⟩, ⟨"web", 5, 15⟩] 0 = 20 := by
    rw [totalServiceTime_eq (by decide), hunion]
    decide
  have happly : TraceSummary.apply summaryEnv overlappingTrace = some
      ⟨"", 0, 15, 15, [⟨"web", 0, 10⟩, ⟨"web", 5, 15⟩], [⟨1, 80, "web"⟩]⟩ := by decide
  refine ⟨htotal, hunion, _, happly, ?_⟩
  have htime : serviceTime .sample (some "web")
      ⟨"", 0, 15, 15, [⟨"web", 0, 10⟩, ⟨"web", 5, 15⟩], [⟨1, 80, "web"⟩]⟩ =
        some (totalServiceTime [⟨"web", 0, 10⟩, ⟨"web", 5, 15⟩] 0) := rfl
  rw [mustacheOf, htime, htotal]
  decide

/-! ## The durations on the page -/

/-- The milliseconds from the first annotation of a trace to its last. -/
def trueDuration (t : TraceSummary) : Int := (t.endTimestamp - t.startTimestamp).tdiv 1000

def trueMaxDuration (ts : List TraceSummary) : Int := ts.foldl (fun maxD t => max (trueDuration t) maxD) (-2 ^ 63)

/-- The page shows how long the traces ran: the longest first, and each with a width in percent of the longest. -/
structure ShowsTimes (serviceName : Option String) (ts : List TraceSummary) : Prop where
  durations : ((traceSummaryToMustache env serviceName ts).map MustacheTraceSummary.duration).Perm (ts.map trueDuration)
  descending : ((traceSummaryToMustache env serviceName ts).map MustacheTraceSummary.duration).Pairwise (· ≥ ·)
  widths : ∀ e ∈ traceSummaryToMustache env serviceName ts, e.width = env.percent e.duration (trueMaxDuration ts)

theorem traceSummaryToMustache_perm (serviceName : Option String) (ts : List TraceSummary) :
    (traceSummaryToMustache env serviceName ts).Perm (ts.map (mustacheOf env serviceName (maxDuration ts))) :=
  (List.reverse_perm _).trans (StableSort.sorted_perm _ _)

/-- **The longest trace comes first.** -/
theorem pairwise_duration (serviceName : Option String) (ts : List TraceSummary) :
    ((traceSummaryToMustache env serviceName ts).map MustacheTraceSummary.duration).Pairwise (· ≥ ·) := by
  rw [traceSummaryToMustache, List.map_reverse, List.pairwise_reverse, List.pairwise_map]
  refine (StableSort.pairwise_sorted (compareOn MustacheTraceSummary.duration) _).imp fun {a b} hab => ?_
  rwa [StableSort.le, compareOn, Int.isLE_compare] at hab

theorem map_duration_perm (serviceName : Option String) (ts : List TraceSummary) :
    ((traceSummaryToMustache env serviceName ts).map MustacheTraceSummary.duration).Perm
      (ts.map fun t => t.durationMicro.tdiv 1000) := by
  have hperm := (traceSummaryToMustache_perm env serviceName ts).map MustacheTraceSummary.duration
  rw [List.map_map] at hperm
  exact hperm

/-- **Traces with exact summaries are shown with their times.** -/
theorem showsTimes_of_exact (serviceName : Option String) {ts : List TraceSummary}
    (h : ∀ t ∈ ts, t.durationMicro = t.endTimestamp - t.startTimestamp) : ShowsTimes env serviceName ts := by
  have hmap : ts.map (fun t => t.durationMicro.tdiv 1000) = ts.map trueDuration :=
    List.map_congr_left fun t ht => by rw [h t ht, trueDuration]
  have hmax : maxDuration ts = trueMaxDuration ts := by
    rw [maxDuration, trueMaxDuration]
    exact List.foldl_ext _ _ _ fun maxD t ht => by rw [h t ht, trueDuration]
  refine ⟨hmap ▸ map_duration_perm env serviceName ts, pairwise_duration env serviceName ts, fun e he => ?_⟩
  obtain ⟨t, -, rfl⟩ := List.mem_map.1 ((traceSummaryToMustache_perm env serviceName ts).mem_iff.1 he)
  rw [← hmax]
  rfl

theorem tdiv_toInt_eq_iff {x : Int} (hx : 0 ≤ x) : (toInt x).tdiv 1000 = x.tdiv 1000 ↔ x < 2 ^ 31 := by
  constructor
  · intro h
    have hmod : toInt x = x - 2 ^ 32 * x.bdiv (2 ^ 32) := by
      rw [toInt, Int.bmod_eq_self_sub_mul_bdiv]
      rfl
    have hlt : toInt x < (2 ^ 32 + 1) / 2 := Int.bmod_lt (x := x) (m := 2 ^ 32) (by decide)
    rw [Int.tdiv_eq_ediv_of_nonneg hx] at h
    rcases le_or_gt 0 (toInt x) with hnonneg | hneg
    · rw [Int.tdiv_eq_ediv_of_nonneg hnonneg] at h
      omega
    · have hopposite : (toInt x).tdiv 1000 = -((-toInt x) / 1000) := by
        rw [← Int.tdiv_eq_ediv_of_nonneg (by omega), Int.neg_tdiv, neg_neg]
      omega
  · intro h
    rw [(TraceSummary.toInt_eq_iff hx).2 h]

/-- A page of one trace shows its milliseconds, or others. -/
theorem showsTimes_singleton_iff {β : Type} {summaryEnv : TraceSummary.Env β} {t : Trace β} {summary : TraceSummary}
    (h : TraceSummary.apply summaryEnv t = some summary) (serviceName : Option String)
    (hfits : summary.endTimestamp - summary.startTimestamp < 2 ^ 63) :
    ShowsTimes env serviceName [summary] ↔ summary.endTimestamp - summary.startTimestamp < 2 ^ 31 := by
  have hle := TraceSummary.start_le_end h
  constructor
  · intro hshows
    have hperm := (map_duration_perm env serviceName [summary]).symm.trans hshows.durations
    have heq : summary.durationMicro.tdiv 1000 = (summary.endTimestamp - summary.startTimestamp).tdiv 1000 :=
      List.singleton_inj.1 (List.perm_singleton.1 hperm)
    rw [(TraceSummary.apply_eq_some h).2.2.1, wrap64_of_mem (by omega) hfits] at heq
    exact (tdiv_toInt_eq_iff (by omega)).1 heq
  · intro hlt
    refine showsTimes_of_exact env serviceName (List.forall_mem_singleton.2 ?_)
    exact (TraceSummary.duration_eq_iff h hfits).2 hlt

/-- **When a page shows how long a trace ran**: if the trace is shorter than 2^31 microseconds. -/
theorem exact_and_shown_iff {β : Type} (summaryEnv : TraceSummary.Env β) (t : Trace β) (serviceName : Option String)
    {lo hi : Int} (hlo : IsLeast {x | x ∈ t.timestamps summaryEnv.hashOrder} lo)
    (hhi : IsGreatest {x | x ∈ t.timestamps summaryEnv.hashOrder} hi) (hfits : hi - lo < 2 ^ 63) :
    (∃ summary, TraceSummary.apply summaryEnv t = some summary ∧
      (TraceSummary.Exact summaryEnv t summary ↔ hi - lo < 2 ^ 31) ∧
      (ShowsTimes env serviceName [summary] ↔ hi - lo < 2 ^ 31)) ∧
    ∀ ts : List TraceSummary, (∀ s ∈ ts, ∃ t' : Trace β, TraceSummary.apply summaryEnv t' = some s ∧
      s.endTimestamp - s.startTimestamp < 2 ^ 31) → ShowsTimes env serviceName ts := by
  constructor
  · obtain ⟨summary, h⟩ := TraceSummary.exists_apply summaryEnv (t := t) (List.ne_nil_of_mem hlo.1)
    have hstart := (TraceSummary.isLeast_startTimestamp h).unique hlo
    have hend := (TraceSummary.isGreatest_endTimestamp h).unique hhi
    have hexact := TraceSummary.exact_iff h (by rwa [hstart, hend])
    have hshows := showsTimes_singleton_iff env h serviceName (by rwa [hstart, hend])
    rw [hstart, hend] at hexact hshows
    exact ⟨summary, h, hexact, hshows⟩
  · intro ts hts
    refine showsTimes_of_exact env serviceName fun s hs => ?_
    obtain ⟨t', h, hlt⟩ := hts s hs
    exact (TraceSummary.duration_eq_iff h (hlt.trans (by decide))).2 hlt

/-- A trace of one span, from 0 on. -/
def lastingTrace (stop : Int) : Trace Unit :=
  ⟨[Span.apply 1 "get" 1 none [⟨0, "sr", some ⟨1, 80, "web"⟩⟩, ⟨stop, "ss", some ⟨1, 80, "web"⟩⟩] []]⟩

theorem exact_and_shown_second : ∃ summary, TraceSummary.apply summaryEnv (lastingTrace 1000000) = some summary ∧
    TraceSummary.Exact summaryEnv (lastingTrace 1000000) summary ∧ ShowsTimes .sample none [summary] := by
  have htimes : (lastingTrace 1000000).timestamps summaryEnv.hashOrder = [0, 1000000] := by decide
  have hlo : IsLeast {x | x ∈ (lastingTrace 1000000).timestamps summaryEnv.hashOrder} 0 := by
    rw [htimes]
    exact ⟨by simp, by simp [lowerBounds]⟩
  have hhi : IsGreatest {x | x ∈ (lastingTrace 1000000).timestamps summaryEnv.hashOrder} 1000000 := by
    rw [htimes]
    exact ⟨by simp, by simp [upperBounds]⟩
  obtain ⟨⟨summary, h, hexact, hshows⟩, -⟩ := exact_and_shown_iff .sample summaryEnv (lastingTrace 1000000) none hlo hhi
    (by decide)
  exact ⟨summary, h, hexact.2 (by decide), hshows.2 (by decide)⟩

/-- A trace of an hour: its summary has a negative duration. -/
theorem not_exact_hour : ∃ summary, TraceSummary.apply summaryEnv (lastingTrace 3600000000) = some summary ∧
    summary.startTimestamp = 0 ∧ summary.endTimestamp = 3600000000 ∧ summary.durationMicro = -694967296 ∧
    ¬ TraceSummary.Exact summaryEnv (lastingTrace 3600000000) summary := by
  have h : TraceSummary.apply summaryEnv (lastingTrace 3600000000) = some
      ⟨"", 0, 3600000000, -694967296, [⟨"web", 0, 3600000000⟩], [⟨1, 80, "web"⟩]⟩ := by decide
  exact ⟨_, h, rfl, rfl, rfl, fun hexact => absurd hexact.duration_eq (by decide)⟩

end Handlers
end Zipkin
