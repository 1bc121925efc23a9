import Mathlib.Data.List.Forall2
import Zipkin.Base.Decimal
import Zipkin.Base.Words
/-!
# Util — durations as the pages show them

`durationStr` of the web server's `Util.scala`.  It shows a duration below a minute in the largest of seconds, milliseconds
and microseconds that is not 0, and a longer one as days, hours and minutes, with what is left of the minute after them.
Read as a sum of its parts the text is the duration, rounded down to a whole microsecond, or to a whole millisecond where
the last part is in seconds (`durationStr_denotes`).

`TimeUnit.convert` truncates towards zero.  `%.3f` of a number over 1000 has its last three digits after the point.
-/
namespace Zipkin

inductive TimeUnit where
  | DAYS | HOURS | MINUTES | SECONDS | MILLISECONDS | MICROSECONDS
deriving DecidableEq, Repr

def TimeUnit.nanos : TimeUnit → Nat
  | DAYS => 86400000000000
  | HOURS => 3600000000000
  | MINUTES => 60000000000
  | SECONDS => 1000000000
  | MILLISECONDS => 1000000
  | MICROSECONDS => 1000

/-- `convert(ns, NANOSECONDS)` -/
def TimeUnit.convert (u : TimeUnit) (ns : Int) : Int := ns.tdiv u.nanos

namespace Util

open TimeUnit

def TimeUnits : List TimeUnit := [DAYS, HOURS, MINUTES, SECONDS, MILLISECONDS, MICROSECONDS]

/-- In the order in which a map of three is iterated: that of its entries. -/
def TimeUnitNames : List (TimeUnit × String × String) :=
  [(DAYS, "days", "day"), (HOURS, "hrs", "hr"), (MINUTES, "min", "min")]

/-- `"%.3f".format(n / 1000.0)` -/
def format3f (n : Int) : String := (if n < 0 then "-" else "") ++ String.ofList (Decimal.fixed 3 n.natAbs)

/-- The body of the loop over the names, on `ns` and the text so far. -/
def appendUnit (state : Int × String) (entry : TimeUnit × String × String) : Int × String :=
  let (ns, s) := state
  let (u, pName, sName) := entry
  let v := u.convert ns
  if v ≠ 0 then
    let s := if v > 0 ∧ s ≠ "" then s ++ " " else s
    (ns - v * u.nanos, s ++ toString v ++ (if v = 0 ∨ v > 1 then pName else sName))
  else (ns, s)

def leadingZeros (ns : Int) : List TimeUnit := TimeUnits.dropWhile (fun u => u.convert ns == 0)

theorem natAbs_tmod_lt (ns : Int) {k : Nat} (hk : 0 < k) : (ns.tmod k).natAbs < k := by
  rw [Int.natAbs_tmod, Int.natAbs_natCast]
  exact Nat.mod_lt _ hk

theorem appendUnit_fst (state : Int × String) (entry : TimeUnit × String × String) :
    (appendUnit state entry).1 = state.1.tmod entry.1.nanos := by
  have hmod := Int.tmod_def state.1 entry.1.nanos
  unfold appendUnit
  simp only
  split
  · rw [hmod, Int.mul_comm]
    rfl
  · rename_i hzero
    have hzero : state.1.tdiv entry.1.nanos = 0 := not_ne_iff.1 hzero
    rw [hmod, hzero, Int.mul_zero, Int.sub_zero]

theorem natAbs_foldl_appendUnit_lt (ns : Int) (s : String) :
    (TimeUnitNames.foldl appendUnit (ns, s)).1.natAbs < MINUTES.nanos := by
  rw [TimeUnitNames, List.foldl_cons, List.foldl_cons, List.foldl_cons, List.foldl_nil, appendUnit_fst]
  exact natAbs_tmod_lt _ (by decide)

theorem convert_eq_zero_iff (u : TimeUnit) (ns : Int) : u.convert ns = 0 ↔ ns.natAbs < u.nanos := by
  have hpos : 0 < u.nanos := by cases u <;> decide
  rw [TimeUnit.convert, ← Int.natAbs_eq_zero, Int.natAbs_tdiv, Int.natAbs_natCast]
  exact (Nat.div_eq_zero_iff).trans (or_iff_right hpos.ne')

theorem le_natAbs_of_length {ns : Int} (h : 4 ≤ (leadingZeros ns).length) : MINUTES.nanos ≤ ns.natAbs := by
  refine Nat.le_of_not_lt fun hlt => ?_
  have hzero (u : TimeUnit) (hu : MINUTES.nanos ≤ u.nanos) : (u.convert ns == 0) = true :=
    beq_iff_eq.2 ((convert_eq_zero_iff u ns).2 (Nat.lt_of_lt_of_le hlt hu))
  rw [leadingZeros, TimeUnits, List.dropWhile_cons, if_pos (hzero DAYS (by decide)), List.dropWhile_cons,
    if_pos (hzero HOURS (by decide)), List.dropWhile_cons, if_pos (hzero MINUTES (by decide))] at h
  exact absurd (Nat.le_trans h (List.dropWhile_sublist _).length_le) (by decide)

def durationStr (ns : Int) : String :=
  match _h : (leadingZeros ns).length with
  | 0 => ""
  | 3 => format3f (ns.tdiv 1000000) ++ "s"
  | 2 => format3f (ns.tdiv 1000) ++ "ms"
  | 1 => toString (ns.tdiv 1000) ++ "μ"
  | _ + 4 =>
    let left := TimeUnitNames.foldl appendUnit (ns, "")
    if left.1 > 0 then (if left.2 ≠ "" then left.2 ++ " " else left.2) ++ durationStr left.1 else left.2
termination_by ns.natAbs
decreasing_by
  have hminute : MINUTES.nanos ≤ ns.natAbs := le_natAbs_of_length (by omega)
  exact Nat.lt_of_lt_of_le (natAbs_foldl_appendUnit_lt ns "") hminute

/-! ## What a text denotes -/

/-- A part of a text: so many of a unit. -/
structure Part where
  amount : ℚ
  unit : TimeUnit

def Part.nanoseconds (p : Part) : ℚ := p.amount * p.unit.nanos

def unitOfName : List (List Char × TimeUnit) :=
  [("days".toList, DAYS), ("day".toList, DAYS), ("hrs".toList, HOURS), ("hr".toList, HOURS), ("min".toList, MINUTES),
   ("s".toList, SECONDS), ("ms".toList, MILLISECONDS), ("μ".toList, MICROSECONDS)]

def readPart (word : List Char) : Option Part := do
  let (amount, name) ← Decimal.readDecimal word
  let unit ← unitOfName.lookup name
  pure ⟨amount, unit⟩

/-- The parts of a text: its words. -/
def readParts (text : String) : Option (List Part) := (Words.words ' ' text.toList).mapM readPart

/-- A whole millisecond if the last minute is at least a second into it, else a whole microsecond. -/
def roundedDown (ns : Nat) : Nat :=
  if SECONDS.nanos ≤ ns % MINUTES.nanos then ns / MILLISECONDS.nanos * MILLISECONDS.nanos
  else ns / MICROSECONDS.nanos * MICROSECONDS.nanos

def Last (u : TimeUnit) : Prop := u.nanos < MINUTES.nanos

instance (u : TimeUnit) : Decidable (Last u) := inferInstanceAs (Decidable (_ < _))

/-- The parts make up a duration. -/
structure Denotes (parts : List Part) (ns : Nat) : Prop where
  sum : (parts.map Part.nanoseconds).sum = roundedDown ns
  descending : (parts.map Part.unit).Pairwise (fun u v => v.nanos < u.nanos)
  nodup : (parts.map Part.unit).Nodup
  hours_lt : ∀ p ∈ parts, p.unit = HOURS → p.amount < 24
  minutes_lt : ∀ p ∈ parts, p.unit = MINUTES → p.amount < 60
  last_lt : ∀ p ∈ parts, Last p.unit → p.nanoseconds < 60 * SECONDS.nanos
  one_last : (parts.filter (fun p => decide (Last p.unit))).length ≤ 1

/-! ## The words -/

/-- The word says the part, and a space does not cut it. -/
structure Says (word : List Char) (p : Part) : Prop where
  read : readPart word = some p
  no_space : ' ' ∉ word
  ne_nil : word ≠ []

theorem not_space_of_isDigit {cs : List Char} (h : ∀ c ∈ cs, c.isDigit = true) : ' ' ∉ cs := fun hc =>
  absurd (h ' ' hc) (by decide)

/-- A name in the table is no part of the number before it. -/
structure Named (name : List Char) (u : TimeUnit) : Prop where
  lookup : unitOfName.lookup name = some u
  ends : Decimal.Ends name
  no_point : name.head? ≠ some '.'
  no_space : ' ' ∉ name

theorem named : ∀ e ∈ unitOfName, Named e.1 e.2 := by
  simp only [unitOfName, List.forall_mem_cons]
  have hends {c : Char} {name : List Char} (h : c.isDigit = false) : Decimal.Ends (c :: name) := fun _ hc =>
    Option.some.inj hc ▸ h
  exact ⟨⟨by decide, hends (by decide), by decide, by decide⟩, ⟨by decide, hends (by decide), by decide, by decide⟩,
    ⟨by decide, hends (by decide), by decide, by decide⟩, ⟨by decide, hends (by decide), by decide, by decide⟩,
    ⟨by decide, hends (by decide), by decide, by decide⟩, ⟨by decide, hends (by decide), by decide, by decide⟩,
    ⟨by decide, hends (by decide), by decide, by decide⟩, ⟨by decide, hends (by decide), by decide, by decide⟩,
    fun _ h => by cases h⟩

theorem says_whole (n : Nat) {name : List Char} {u : TimeUnit} (h : Named name u) :
    Says (Nat.toDigits 10 n ++ name) ⟨n, u⟩ where
  read := by
    rw [readPart, Decimal.readDecimal_toDigits n h.ends h.no_point]
    simp only [Option.bind_eq_bind, Option.bind_some, h.lookup]
    rfl
  no_space := fun hmem => (List.mem_append.1 hmem).elim (not_space_of_isDigit (Decimal.isDigit_toDigits n)) h.no_space
  ne_nil := fun hnil => Nat.toDigits_ne_nil (List.append_eq_nil_iff.1 hnil).1

theorem says_fixed (n : Nat) {name : List Char} {u : TimeUnit} (h : Named name u) :
    Says (Decimal.fixed 3 n ++ name) ⟨(n : ℚ) / 10 ^ 3, u⟩ where
  read := by
    rw [readPart, Decimal.readDecimal_fixed 2 n h.ends]
    simp only [Option.bind_eq_bind, Option.bind_some, h.lookup]
    rfl
  no_space := fun hmem => by
    rw [Decimal.fixed, List.append_assoc, List.mem_append, List.cons_append, List.mem_cons, List.mem_append] at hmem
    rcases hmem with hmem | hmem | hmem | hmem
    · exact not_space_of_isDigit (Decimal.isDigit_toDigits _) hmem
    · exact absurd hmem (by decide)
    · exact not_space_of_isDigit (Decimal.isDigit_lastDigits 3 n) hmem
    · exact h.no_space hmem
  ne_nil := fun hnil => Nat.toDigits_ne_nil (List.append_eq_nil_iff.1 (List.append_eq_nil_iff.1 hnil).1).1

theorem exists_says {ws : List (List Char)} {parts : List Part} (h : List.Forall₂ Says ws parts) :
    ∀ w ∈ ws, ∃ p, Says w p := by
  induction h with
  | nil => exact fun _ hw => by cases hw
  | cons hp _ ih => exact List.forall_mem_cons.2 ⟨⟨_, hp⟩, ih⟩

theorem ne_nil_of_forall₂ {ws : List (List Char)} {parts : List Part} (h : List.Forall₂ Says ws parts) : ∀ w ∈ ws, w ≠ [] :=
  fun w hw => by
    obtain ⟨p, hp⟩ := exists_says h w hw
    exact hp.ne_nil

/-- **A text of words that say parts** is read as the parts, also with an empty word after them. -/
theorem readParts_join {ws : List (List Char)} {parts : List Part} (h : List.Forall₂ Says ws parts) {text : String}
    (htext : text.toList = Words.join ' ' ws ∨ text.toList = Words.join ' ' (ws ++ [[]])) :
    readParts text = some parts := by
  have hspace : ∀ w ∈ ws ++ [[]], ' ' ∉ w := by
    intro w hw
    rcases List.mem_append.1 hw with hw | hw
    · obtain ⟨p, hp⟩ := exists_says h w hw
      exact hp.no_space
    · rw [List.mem_singleton.1 hw]
      exact List.not_mem_nil
  have hne : ws.filter (fun w => decide (w ≠ [])) = ws :=
    List.filter_eq_self.2 fun w hw => decide_eq_true (ne_nil_of_forall₂ h w hw)
  have hwords : Words.words ' ' text.toList = ws := by
    rcases htext with htext | htext
    · rw [htext, Words.words_join ' ' fun w hw => hspace w (List.mem_append_left _ hw), hne]
    · rw [htext, Words.words_join ' ' hspace, List.filter_append, hne]
      exact List.append_nil ws
  rw [readParts, hwords]
  clear htext hspace hne hwords
  induction h with
  | nil => rfl
  | cons hp _ ih =>
    rw [List.mapM_cons, hp.read, ih]
    rfl

/-! ## The text of a duration -/

theorem toList_toString (n : Nat) : (toString (n : Int)).toList = Nat.toDigits 10 n := by
  change (Int.repr n).toList = _
  exact Nat.toList_repr

theorem toList_format3f (n : Nat) : (format3f n).toList = Decimal.fixed 3 n := by
  rw [format3f, if_neg (by omega), Int.natAbs_natCast, String.empty_append, String.toList_ofList]

theorem convert_natCast (u : TimeUnit) (ns : Nat) : u.convert ns = (ns / u.nanos : Nat) := (Int.ofNat_tdiv ns u.nanos).symm

theorem named_entry {e : TimeUnit × String × String} (he : e ∈ TimeUnitNames) (v : Int) :
    Named (if v = 0 ∨ v > 1 then e.2.1 else e.2.2).toList e.1 := by
  have h : ∀ e ∈ TimeUnitNames, (e.2.1.toList, e.1) ∈ unitOfName ∧ (e.2.2.toList, e.1) ∈ unitOfName := by decide
  split
  · exact named _ (h e he).1
  · exact named _ (h e he).2

/-- The parts that the loop appends for a unit: none for a zero. -/
def unitPart (u : TimeUnit) (ns : Nat) : List Part := if ns / u.nanos = 0 then [] else [⟨(ns / u.nanos : Nat), u⟩]

theorem eq_empty_iff {s : String} {ws : List (List Char)} {parts : List Part} (hs : s.toList = Words.join ' ' ws)
    (hws : List.Forall₂ Says ws parts) : s = "" ↔ ws = [] := by
  rw [← String.toList_inj, hs]
  exact Words.join_eq_nil_iff ' ' (ne_nil_of_forall₂ hws)

theorem toList_append_word {s : String} {ws : List (List Char)} {parts : List Part} (hs : s.toList = Words.join ' ' ws)
    (hws : List.Forall₂ Says ws parts) (w : List Char) :
    (if s ≠ "" then s ++ " " else s).toList ++ w = Words.join ' ' (ws ++ [w]) := by
  by_cases hempty : ws = []
  · rw [if_neg (not_not.2 ((eq_empty_iff hs hws).2 hempty)), hs, hempty]
    simp [Words.join]
  · rw [if_pos (mt (eq_empty_iff hs hws).1 hempty), Words.join_concat ' ' hempty, String.toList_append, hs]
    simp

/-- **One step of the loop**: a word more, for a unit that is not 0. -/
theorem appendUnit_says {e : TimeUnit × String × String} (he : e ∈ TimeUnitNames) (ns : Nat) {s : String}
    {ws : List (List Char)} {parts : List Part} (hs : s.toList = Words.join ' ' ws) (hws : List.Forall₂ Says ws parts) :
    ∃ (s' : String) (ws' : List (List Char)), appendUnit ((ns : Int), s) e = (((ns % e.1.nanos : Nat) : Int), s') ∧
      s'.toList = Words.join ' ' ws' ∧ List.Forall₂ Says ws' (parts ++ unitPart e.1 ns) := by
  by_cases hzero : ns / e.1.nanos = 0
  · have hmod : ns % e.1.nanos = ns := by
      have hdiv := Nat.div_add_mod ns e.1.nanos
      rwa [hzero, Nat.mul_zero, Nat.zero_add] at hdiv
    refine ⟨s, ws, ?_, hs, ?_⟩
    · simp only [appendUnit, convert_natCast, hzero, hmod]
      rfl
    · rw [unitPart, if_pos hzero, List.append_nil]
      exact hws
  · have hv : ((ns / e.1.nanos : Nat) : Int) ≠ 0 := by exact_mod_cast hzero
    have hpos : ((ns / e.1.nanos : Nat) : Int) > 0 := by exact_mod_cast Nat.pos_of_ne_zero hzero
    have hrest : (ns : Int) - ((ns / e.1.nanos : Nat) : Int) * e.1.nanos = (ns % e.1.nanos : Nat) := by
      have hdiv : ((e.1.nanos * (ns / e.1.nanos) + ns % e.1.nanos : Nat) : Int) = ns := by rw [Nat.div_add_mod]
      rw [Nat.cast_add, Nat.cast_mul] at hdiv
      rw [mul_comm, ← hdiv]
      exact add_sub_cancel_left _ _
    let name := if ((ns / e.1.nanos : Nat) : Int) = 0 ∨ ((ns / e.1.nanos : Nat) : Int) > 1 then e.2.1 else e.2.2
    have hword := says_whole (ns / e.1.nanos) (named_entry he (ns / e.1.nanos : Nat))
    refine ⟨(if s ≠ "" then s ++ " " else s) ++ toString ((ns / e.1.nanos : Nat) : Int) ++ name,
      ws ++ [Nat.toDigits 10 (ns / e.1.nanos) ++ name.toList], ?_, ?_, List.rel_append hws ?_⟩
    · simp only [appendUnit, convert_natCast, if_pos hv, hrest, hpos, true_and]
      rfl
    · rw [String.toList_append, String.toList_append, toList_toString, List.append_assoc]
      exact toList_append_word hs hws _
    · rw [unitPart, if_neg hzero]
      exact .cons hword .nil

/-- The word after the minutes: seconds, milliseconds or microseconds. -/
def lastWord (ns : Nat) : List Char :=
  if ns < MICROSECONDS.nanos then []
  else if ns < MILLISECONDS.nanos then Nat.toDigits 10 (ns / MICROSECONDS.nanos) ++ "μ".toList
  else if ns < SECONDS.nanos then Decimal.fixed 3 (ns / MICROSECONDS.nanos) ++ "ms".toList
  else Decimal.fixed 3 (ns / MILLISECONDS.nanos) ++ "s".toList

def lastPart (ns : Nat) : List Part :=
  if ns < MICROSECONDS.nanos then []
  else if ns < MILLISECONDS.nanos then [⟨(ns / MICROSECONDS.nanos : Nat), MICROSECONDS⟩]
  else if ns < SECONDS.nanos then [⟨((ns / MICROSECONDS.nanos : Nat) : ℚ) / 10 ^ 3, MILLISECONDS⟩]
  else [⟨((ns / MILLISECONDS.nanos : Nat) : ℚ) / 10 ^ 3, SECONDS⟩]

theorem leadingZeros_natCast (ns : Nat) : leadingZeros ns = TimeUnits.dropWhile (fun u => decide (ns < u.nanos)) := by
  have hzero : (fun u : TimeUnit => u.convert ns == 0) = fun u => decide (ns < u.nanos) := funext fun u => by
    rw [Bool.beq_eq_decide_eq, decide_eq_decide]
    exact convert_eq_zero_iff u ns
  rw [leadingZeros, hzero]

theorem durationStr_eq (ns : Int) : durationStr ns = match (leadingZeros ns).length with
    | 0 => ""
    | 3 => format3f (ns.tdiv 1000000) ++ "s"
    | 2 => format3f (ns.tdiv 1000) ++ "ms"
    | 1 => toString (ns.tdiv 1000) ++ "μ"
    | _ + 4 =>
      let left := TimeUnitNames.foldl appendUnit (ns, "")
      if left.1 > 0 then (if left.2 ≠ "" then left.2 ++ " " else left.2) ++ durationStr left.1 else left.2 := by
  conv => lhs; rw [durationStr]
  split <;> rename_i h <;> rw [h]

/-- **Below a minute** the text is the last word alone. -/
theorem toList_durationStr_of_lt {ns : Nat} (h : ns < MINUTES.nanos) : (durationStr ns).toList = lastWord ns := by
  have hlarger : ns < DAYS.nanos ∧ ns < HOURS.nanos := ⟨h.trans (by decide), h.trans (by decide)⟩
  rw [durationStr_eq, leadingZeros_natCast, lastWord]
  by_cases hmicro : ns < MICROSECONDS.nanos
  · have hmilli : ns < MILLISECONDS.nanos := hmicro.trans (by decide)
    have hsecond : ns < SECONDS.nanos := hmilli.trans (by decide)
    have hzeros : TimeUnits.dropWhile (fun u => decide (ns < u.nanos)) = [] := by
      simp [TimeUnits, hlarger, h, hsecond, hmilli, hmicro]
    rw [hzeros, if_pos hmicro]
    rfl
  rw [if_neg hmicro]
  by_cases hmilli : ns < MILLISECONDS.nanos
  · have hsecond : ns < SECONDS.nanos := hmilli.trans (by decide)
    have hzeros : TimeUnits.dropWhile (fun u => decide (ns < u.nanos)) = [MICROSECONDS] := by
      simp [TimeUnits, hlarger, h, hsecond, hmilli, hmicro]
    rw [hzeros, if_pos hmilli]
    exact String.toList_append.trans (congrArg (· ++ _) (toList_toString (ns / 1000)))
  rw [if_neg hmilli]
  by_cases hsecond : ns < SECONDS.nanos
  · have hzeros : TimeUnits.dropWhile (fun u => decide (ns < u.nanos)) = [MILLISECONDS, MICROSECONDS] := by
      simp [TimeUnits, hlarger, h, hsecond, hmilli]
    rw [hzeros, if_pos hsecond]
    exact String.toList_append.trans (congrArg (· ++ _) (toList_format3f (ns / 1000)))
  · have hzeros : TimeUnits.dropWhile (fun u => decide (ns < u.nanos)) = [SECONDS, MILLISECONDS, MICROSECONDS] := by
      simp [TimeUnits, hlarger, h, hsecond]
    rw [hzeros, if_neg hsecond]
    exact String.toList_append.trans (congrArg (· ++ _) (toList_format3f (ns / 1000000)))

theorem lastWord_says (ns : Nat) : (lastWord ns = [] ∧ lastPart ns = []) ∨ List.Forall₂ Says [lastWord ns] (lastPart ns) := by
  unfold lastWord lastPart
  split
  · exact .inl ⟨rfl, rfl⟩
  · right
    split
    · exact .cons (says_whole _ (named ("μ".toList, MICROSECONDS) (by decide))) .nil
    · split
      · exact .cons (says_fixed _ (named ("ms".toList, MILLISECONDS) (by decide))) .nil
      · exact .cons (says_fixed _ (named ("s".toList, SECONDS) (by decide))) .nil

/-- The parts of a duration. -/
def parts (ns : Nat) : List Part :=
  unitPart DAYS ns ++ unitPart HOURS (ns % DAYS.nanos) ++ unitPart MINUTES (ns % HOURS.nanos) ++ lastPart (ns % MINUTES.nanos)

/-- **The loop** says the days, hours and minutes, and leaves what is less than a minute. -/
theorem foldl_appendUnit_says (ns : Nat) : ∃ (s : String) (ws : List (List Char)),
    TimeUnitNames.foldl appendUnit ((ns : Int), "") = (((ns % MINUTES.nanos : Nat) : Int), s) ∧
      s.toList = Words.join ' ' ws ∧ List.Forall₂ Says ws
        (unitPart DAYS ns ++ unitPart HOURS (ns % DAYS.nanos) ++ unitPart MINUTES (ns % HOURS.nanos)) := by
  have hs₀ : "".toList = Words.join ' ' [] := rfl
  have hws₀ : List.Forall₂ Says [] [] := .nil
  obtain ⟨s₁, ws₁, heq₁, hs₁, hws₁⟩ := appendUnit_says (e := (DAYS, "days", "day")) (by decide) ns hs₀ hws₀
  obtain ⟨s₂, ws₂, heq₂, hs₂, hws₂⟩ :=
    appendUnit_says (e := (HOURS, "hrs", "hr")) (by decide) (ns % DAYS.nanos) hs₁ hws₁
  obtain ⟨s₃, ws₃, heq₃, hs₃, hws₃⟩ :=
    appendUnit_says (e := (MINUTES, "min", "min")) (by decide) (ns % DAYS.nanos % HOURS.nanos) hs₂ hws₂
  have hhours : ns % DAYS.nanos % HOURS.nanos = ns % HOURS.nanos := Nat.mod_mod_of_dvd _ (by decide)
  have hminutes : ns % HOURS.nanos % MINUTES.nanos = ns % MINUTES.nanos := Nat.mod_mod_of_dvd _ (by decide)
  refine ⟨s₃, ws₃, ?_, hs₃, ?_⟩
  · rw [TimeUnitNames, List.foldl_cons, List.foldl_cons, List.foldl_cons, List.foldl_nil, heq₁, heq₂, heq₃, hhours, hminutes]
  · rw [hhours] at hws₃
    exact hws₃

theorem exists_length_leadingZeros {ns : Nat} (h : MINUTES.nanos ≤ ns) : ∃ n, (leadingZeros ns).length = n + 4 := by
  have hlast : ¬ ns < MINUTES.nanos := Nat.not_lt.2 h
  rw [leadingZeros_natCast]
  by_cases hdays : ns < DAYS.nanos
  · by_cases hhours : ns < HOURS.nanos
    · exact ⟨0, by simp [TimeUnits, hdays, hhours, hlast]⟩
    · exact ⟨1, by simp [TimeUnits, hdays, hhours]⟩
  · exact ⟨2, by simp [TimeUnits, hdays]⟩

/-- **From a minute on** the text is what the loop made, with the text of the rest after it. -/
theorem durationStr_of_le {ns : Nat} (h : MINUTES.nanos ≤ ns) : durationStr ns =
    let left := TimeUnitNames.foldl appendUnit ((ns : Int), "")
    if left.1 > 0 then (if left.2 ≠ "" then left.2 ++ " " else left.2) ++ durationStr left.1 else left.2 := by
  obtain ⟨n, hn⟩ := exists_length_leadingZeros h
  rw [durationStr_eq, hn]

theorem parts_of_lt {ns : Nat} (h : ns < MINUTES.nanos) : parts ns = lastPart ns := by
  have hhours : ns < HOURS.nanos := h.trans (by decide)
  have hdays : ns < DAYS.nanos := h.trans (by decide)
  rw [parts, Nat.mod_eq_of_lt hdays, Nat.mod_eq_of_lt hhours, Nat.mod_eq_of_lt h]
  simp only [unitPart, Nat.div_eq_of_lt hdays, Nat.div_eq_of_lt hhours, Nat.div_eq_of_lt h, if_true, List.nil_append]

/-- **The text of a duration says its parts.** -/
theorem readParts_durationStr (ns : Nat) : readParts (durationStr ns) = some (parts ns) := by
  rcases Nat.lt_or_ge ns MINUTES.nanos with hlt | hge
  · rw [parts_of_lt hlt]
    rcases lastWord_says ns with ⟨hword, hpart⟩ | hsays
    · rw [hpart]
      exact readParts_join .nil (.inl ((toList_durationStr_of_lt hlt).trans hword))
    · refine readParts_join hsays (.inl ((toList_durationStr_of_lt hlt).trans ?_))
      exact List.intercalate_singleton.symm
  · obtain ⟨s, ws, hloop, hs, hws⟩ := foldl_appendUnit_says ns
    rw [durationStr_of_le hge, hloop]
    by_cases hrest : ns % MINUTES.nanos = 0
    · have hnone : parts ns = _ ++ lastPart (ns % MINUTES.nanos) := rfl
      rw [hnone, hrest]
      exact readParts_join (by rw [lastPart, if_pos (by decide), List.append_nil]; exact hws) (.inl hs)
    · have hpos : ((ns % MINUTES.nanos : Nat) : Int) > 0 := by exact_mod_cast Nat.pos_of_ne_zero hrest
      simp only [if_pos hpos]
      -- the rest is less than a minute, so its text is one word at most
      have htext := toList_append_word hs hws (lastWord (ns % MINUTES.nanos))
      rw [← toList_durationStr_of_lt (Nat.mod_lt ns (by decide)), ← String.toList_append,
        toList_durationStr_of_lt (Nat.mod_lt ns (by decide))] at htext
      rcases lastWord_says (ns % MINUTES.nanos) with ⟨hword, hpart⟩ | hsays
      · rw [parts, hpart, List.append_nil]
        rw [hword] at htext
        exact readParts_join hws (.inr htext)
      · exact readParts_join (List.rel_append hws hsays) (.inl htext)

/-! ## The duration that the parts make up -/

theorem mem_unitPart {u : TimeUnit} {ns : Nat} {p : Part} (h : p ∈ unitPart u ns) :
    p = ⟨(ns / u.nanos : Nat), u⟩ := by
  unfold unitPart at h
  split at h
  · cases h
  · exact List.mem_singleton.1 h

theorem sum_unitPart (u : TimeUnit) (ns : Nat) :
    ((unitPart u ns).map Part.nanoseconds).sum = (ns / u.nanos * u.nanos : Nat) := by
  unfold unitPart
  split
  · rename_i hzero
    rw [hzero, Nat.zero_mul]
    rfl
  · rw [List.map_singleton, List.sum_singleton, Part.nanoseconds, Nat.cast_mul]

theorem units_unitPart (u : TimeUnit) (ns : Nat) : List.Sublist ((unitPart u ns).map Part.unit) [u] := by
  unfold unitPart
  split
  · exact List.nil_sublist _
  · exact List.Sublist.refl _

theorem exists_last_singleton {p : Part} {n ns : Nat} (hlast : Last p.unit) (hpart : p.nanoseconds = n) (hle : n ≤ ns) :
    ∃ u, Last u ∧ List.Sublist ([p].map Part.unit) [u] ∧ ([p].map Part.nanoseconds).sum = n ∧
      ∀ q ∈ [p], q.nanoseconds ≤ ns := by
  refine ⟨p.unit, hlast, List.Sublist.refl _, ?_, List.forall_mem_singleton.2 ?_⟩
  · rw [List.map_singleton, List.sum_singleton, hpart]
  · rw [hpart]
    exact_mod_cast hle

/-- The last part: none, or one of at most the whole rest. -/
theorem lastPart_spec (ns : Nat) : ∃ u, Last u ∧ List.Sublist ((lastPart ns).map Part.unit) [u] ∧
    ((lastPart ns).map Part.nanoseconds).sum =
      ((if SECONDS.nanos ≤ ns then ns / MILLISECONDS.nanos * MILLISECONDS.nanos
        else ns / MICROSECONDS.nanos * MICROSECONDS.nanos : Nat) : ℚ) ∧
    ∀ p ∈ lastPart ns, p.nanoseconds ≤ ns := by
  unfold lastPart
  split
  · rename_i hmicro
    have hsecond : ¬ SECONDS.nanos ≤ ns := Nat.not_le.2 (hmicro.trans (by decide))
    refine ⟨MICROSECONDS, by decide, List.nil_sublist _, ?_, fun p hp => by cases hp⟩
    rw [if_neg hsecond, Nat.div_eq_of_lt hmicro, Nat.zero_mul]
    rfl
  · split
    · rename_i hmilli
      have hpart : Part.nanoseconds ⟨(ns / MICROSECONDS.nanos : Nat), MICROSECONDS⟩ =
          (ns / MICROSECONDS.nanos * MICROSECONDS.nanos : Nat) := by rw [Part.nanoseconds, Nat.cast_mul]
      rw [if_neg (Nat.not_le.2 (hmilli.trans (by decide)))]
      exact exists_last_singleton (show Last MICROSECONDS by decide) hpart (Nat.div_mul_le_self _ _)
    · split
      · rename_i hsecond
        have hpart : Part.nanoseconds ⟨((ns / MICROSECONDS.nanos : Nat) : ℚ) / 10 ^ 3, MILLISECONDS⟩ =
            (ns / MICROSECONDS.nanos * MICROSECONDS.nanos : Nat) := by
          rw [Part.nanoseconds, Nat.cast_mul]
          norm_num [TimeUnit.nanos]
          ring
        rw [if_neg (Nat.not_le.2 hsecond)]
        exact exists_last_singleton (show Last MILLISECONDS by decide) hpart (Nat.div_mul_le_self _ _)
      · rename_i hsecond
        have hpart : Part.nanoseconds ⟨((ns / MILLISECONDS.nanos : Nat) : ℚ) / 10 ^ 3, SECONDS⟩ =
            (ns / MILLISECONDS.nanos * MILLISECONDS.nanos : Nat) := by
          rw [Part.nanoseconds, Nat.cast_mul]
          norm_num [TimeUnit.nanos]
          ring
        rw [if_pos (Nat.not_lt.1 hsecond)]
        exact exists_last_singleton (show Last SECONDS by decide) hpart (Nat.div_mul_le_self _ _)

theorem exists_units (ns : Nat) : ∃ u, Last u ∧ List.Sublist ((parts ns).map Part.unit) [DAYS, HOURS, MINUTES, u] := by
  obtain ⟨u, hlast, hunits, -⟩ := lastPart_spec (ns % MINUTES.nanos)
  refine ⟨u, hlast, ?_⟩
  rw [parts, List.map_append, List.map_append, List.map_append]
  exact (((units_unitPart DAYS ns).append (units_unitPart HOURS _)).append (units_unitPart MINUTES _)).append hunits

theorem sum_parts (ns : Nat) : ((parts ns).map Part.nanoseconds).sum = roundedDown ns := by
  obtain ⟨u, -, -, hsum, -⟩ := lastPart_spec (ns % MINUTES.nanos)
  rw [parts, List.map_append, List.map_append, List.map_append, List.sum_append, List.sum_append, List.sum_append,
    sum_unitPart, sum_unitPart, sum_unitPart, hsum, roundedDown]
  norm_cast
  -- days, hours and minutes are whole milliseconds
  by_cases hsecond : SECONDS.nanos ≤ ns % MINUTES.nanos
  · rw [if_pos hsecond, if_pos hsecond]
    simp only [TimeUnit.nanos]
    omega
  · rw [if_neg hsecond, if_neg hsecond]
    simp only [TimeUnit.nanos]
    omega

theorem last_of_mem_lastPart {ns : Nat} {p : Part} (h : p ∈ lastPart ns) : Last p.unit := by
  obtain ⟨u, hlast, hunits, -⟩ := lastPart_spec ns
  rw [List.mem_singleton.1 (hunits.subset (List.mem_map_of_mem h))]
  exact hlast

theorem mem_parts {ns : Nat} {p : Part} (h : p ∈ parts ns) : p = ⟨(ns / DAYS.nanos : Nat), DAYS⟩ ∨
    p = ⟨(ns % DAYS.nanos / HOURS.nanos : Nat), HOURS⟩ ∨ p = ⟨(ns % HOURS.nanos / MINUTES.nanos : Nat), MINUTES⟩ ∨
    p ∈ lastPart (ns % MINUTES.nanos) := by
  simp only [parts, List.mem_append, or_assoc] at h
  rcases h with h | h | h | h
  · exact .inl (mem_unitPart h)
  · exact .inr (.inl (mem_unitPart h))
  · exact .inr (.inr (.inl (mem_unitPart h)))
  · exact .inr (.inr (.inr h))

theorem denotes_parts (ns : Nat) : Denotes (parts ns) ns where
  sum := sum_parts ns
  descending := by
    obtain ⟨u, hlast, hunits⟩ := exists_units ns
    refine List.Pairwise.sublist hunits ?_
    cases u <;> first | decide | exact absurd hlast (by decide)
  nodup := by
    obtain ⟨u, hlast, hunits⟩ := exists_units ns
    refine List.Nodup.sublist hunits ?_
    cases u <;> first | decide | exact absurd hlast (by decide)
  hours_lt p hp hu := by
    have hlt : ns % DAYS.nanos / HOURS.nanos < 24 := Nat.div_lt_of_lt_mul (Nat.mod_lt _ (by decide))
    rcases mem_parts hp with rfl | rfl | rfl | hp
    · cases hu
    · show ((ns % DAYS.nanos / HOURS.nanos : Nat) : ℚ) < 24
      exact_mod_cast hlt
    · cases hu
    · exact absurd (hu ▸ last_of_mem_lastPart hp) (by decide)
  minutes_lt p hp hu := by
    have hlt : ns % HOURS.nanos / MINUTES.nanos < 60 := Nat.div_lt_of_lt_mul (Nat.mod_lt _ (by decide))
    rcases mem_parts hp with rfl | rfl | rfl | hp
    · cases hu
    · cases hu
    · show ((ns % HOURS.nanos / MINUTES.nanos : Nat) : ℚ) < 60
      exact_mod_cast hlt
    · exact absurd (hu ▸ last_of_mem_lastPart hp) (by decide)
  last_lt p hp hu := by
    rcases mem_parts hp with rfl | rfl | rfl | hp
    · exact absurd hu (by decide : ¬ Last DAYS)
    · exact absurd hu (by decide : ¬ Last HOURS)
    · exact absurd hu (by decide : ¬ Last MINUTES)
    · obtain ⟨u, -, -, -, hle⟩ := lastPart_spec (ns % MINUTES.nanos)
      have hlt : ns % MINUTES.nanos < 60 * SECONDS.nanos := Nat.mod_lt _ (by decide)
      exact (hle p hp).trans_lt (by exact_mod_cast hlt)
  one_last := by
    obtain ⟨u, -, hunits⟩ := exists_units ns
    have hlength := (hunits.filter (fun u => decide (Last u))).length_le
    rw [List.filter_map, List.length_map] at hlength
    refine hlength.trans ?_
    cases u <;> decide

/-- **What a text denotes**: the duration, rounded down, in parts that come in order. -/
theorem durationStr_denotes (ns : Nat) : ∃ parts, readParts (durationStr ns) = some parts ∧ Denotes parts ns :=
  ⟨parts ns, readParts_durationStr ns, denotes_parts ns⟩

end Util
end Zipkin
