import Zipkin.RequestRates
import Zipkin.Sampler
import Zipkin.ZKClient
import Zipkin.ZkWatch
/-!
# SampleRate — one rate for all collectors

`newAdaptiveSamplerFilter` of `AdaptiveSampler.scala` and `ZkPathUpdater.scala`.  Each collector watches the node that the
sample rate is written to, and its sampler takes the rate from there.  Collectors whose watches are up to date store the
same traces, so that a trace whose spans are spread over them is stored as a whole.  An operator sets the rates by HTTP.
-/
namespace Zipkin

open Binary64 Effect Transition

namespace SampleRate

/-- `translateNode`, of which `f` has `new String` in it: an exception is `none`. -/
def translateNode {α : Type} (default : α) (f : Bytes → Option α) (bytes : Bytes) : α :=
  if bytes.length = 0 then default else (f bytes).getD default

section Collectors
variable {β : Type} (toDouble : Bytes → Option Double)

/-- `sampleRateWatch.data.map(translateNode("sampleRate", 0.0, _.toDouble))` -/
def sampleRate (w : ZkWatch) : Double := translateNode (.finite 0 rfl) toDouble w.data

/-- `new SpanSamplerFilter(new Sampler(sampleRate))` -/
def filter (w : ZkWatch) (spans : List (Span β)) : List (Span β) :=
  SpanSamplerFilter.apply (Sampler.apply (sampleRate toDouble w)) spans

/-- What the collectors store of what each of them is given. -/
def storedBy (watches : List ZkWatch) (batches : List (List (Span β))) : List (Span β) :=
  (List.zipWith (filter toDouble) watches batches).flatten

/-- Nothing is on its way to the watch, and it has not ended. -/
def UpToDate (w : ZkWatch) : Prop := w.next = none ∧ w.watching ≠ .ended

variable {toDouble}

theorem storedBy_of_forall_eq {sample : Int64 → Bool} : ∀ {watches : List ZkWatch} {batches : List (List (Span β))},
    (∀ w ∈ watches, Sampler.apply (sampleRate toDouble w) = sample) → batches.length = watches.length →
      storedBy toDouble watches batches = SpanSamplerFilter.apply sample batches.flatten
  | [], [], _, _ => rfl
  | w :: watches, batch :: batches, h, hlength => by
    have hrest : storedBy toDouble watches batches = SpanSamplerFilter.apply sample batches.flatten :=
      storedBy_of_forall_eq (fun v hv => h v (List.mem_cons_of_mem w hv)) (Nat.succ.inj hlength)
    unfold storedBy at hrest ⊢
    rw [List.zipWith_cons_cons, List.flatten_cons, hrest, List.flatten_cons, filter, h w List.mem_cons_self]
    exact (List.filterMap_append).symm

/-- **Collectors that are up to date store a trace as a whole**, whatever happened before and however its spans are spread
over them: they store all of its spans, or those with the debug flag. -/
theorem storedBy_complete_or_onlyDebug (toDouble : Bytes → Option Double) (node : Option Bytes) (size : Nat)
    (events : List WatchedNode.Event) (s : WatchedNode) (hrun : run WatchedNode.step (.new node size) events = some s)
    (hupToDate : ∀ w ∈ s.watches, UpToDate w) (batches : List (List (Span β))) (hlength : batches.length = s.watches.length)
    (traceId : Int64) :
    (storedBy toDouble s.watches batches).filter (·.traceId == traceId) = batches.flatten.filter (·.traceId == traceId) ∨
      (storedBy toDouble s.watches batches).filter (·.traceId == traceId) =
        batches.flatten.filter fun span => span.traceId == traceId && span.debug := by
  have hdata : ∀ w ∈ s.watches, s.node = some w.data := fun w hw => by
    obtain ⟨hnext, hnotEnded⟩ := hupToDate w hw
    exact ((WatchedNode.tracked_run hrun).node_eq hw hnext).resolve_left hnotEnded
  let sample := Sampler.apply (translateNode (.finite 0 rfl) toDouble (s.node.getD []))
  have hsample : ∀ w ∈ s.watches, Sampler.apply (sampleRate toDouble w) = sample := fun w hw => by
    dsimp only [sample]
    rw [hdata w hw, Option.getD_some, sampleRate]
  rw [storedBy_of_forall_eq hsample hlength, spanSamplerFilter_eq_filter, List.filter_filter]
  cases hs : sample traceId with
  | true =>
    refine Or.inl (List.filter_congr fun span _ => ?_)
    by_cases heq : span.traceId = traceId
    · rw [heq, hs, Bool.or_true, Bool.and_true]
    · rw [beq_false_of_ne heq, Bool.false_and]
  | false =>
    refine Or.inr (List.filter_congr fun span _ => ?_)
    by_cases heq : span.traceId = traceId
    · rw [heq, hs, Bool.or_false]
    · rw [beq_false_of_ne heq, Bool.false_and, Bool.false_and]

/-- Two collectors that have each been given one of the spans. -/
theorem storedBy_complete_or_onlyDebug_two : ∃ watches : List ZkWatch, ∃ batches : List (List (Span Unit)),
    watches.length = 2 ∧ batches.flatten.length = 2 ∧
      ((storedBy (fun _ => some Sampler.one) watches batches).filter (·.traceId == 5) =
      batches.flatten.filter (·.traceId == 5) ∨
        (storedBy (fun _ => some Sampler.one) watches batches).filter (·.traceId == 5) =
          batches.flatten.filter fun span => span.traceId == 5 && span.debug) := by
  let w : ZkWatch := ⟨.waiting .armed, false, [[49]]⟩
  have hupToDate : ∀ v ∈ [w, w], UpToDate v := fun v hv => by
    obtain rfl : v = w := by simpa using hv
    exact ⟨rfl, nofun⟩
  exact ⟨[w, w], [[.apply 5 "get" 5 none [] []], [.apply 5 "put" 6 none [] []]], rfl, rfl,
    storedBy_complete_or_onlyDebug _ (some [49]) 2 [.watch 0 .ensured, .watch 0 .read, .watch 0 .answer, .watch 1 .ensured,
      .watch 1 .read, .watch 1 .answer] ⟨[some [49]], [w, w]⟩ rfl hupToDate _ rfl 5⟩

end Collectors

/-! ## Setting a rate by HTTP -/

structure Response where
  statusCode : Nat
  contentString : String
deriving DecidableEq, Repr

/-- A service with the value of `curRate`, which is that of its watch as a text, and `toString` of the numbers and of the
exceptions of `convert`. -/
structure ZkPathUpdater (α : Type) where
  path : String
  convert : String → Except Throwable α
  validate : α → Bool
  toString : α → String
  errToString : Throwable → String
  curRate : String

/-- `apply`, of the request's parameter `newRate`. -/
def ZkPathUpdater.apply {α : Type} (u : ZkPathUpdater α) (newRate : Option String) :
    Effect KeeperException ZkTree Response :=
  match newRate with
  | some text => match u.convert text with
    | .ok rate =>
      if u.validate rate then do
        ZKClient.setData u.path (getBytesUtf8 (u.toString rate))
        pure ⟨200, "Rate changed to: " ++ u.toString rate⟩
      else pure ⟨500, "New rate (" ++ text ++ ") is not valid."⟩
    | .error err => pure ⟨500, "Error: " ++ u.errToString err⟩
  | none => pure ⟨200, "Current rate: " ++ u.curRate ++ "\nChange it by setting the newRate parameter."⟩

/-- `_.toInt` -/
def toInt (text : String) : Except Throwable Int :=
  match Decimal.readSigned text.toList with
  | some n =>
    if -2 ^ 31 ≤ n ∧ n < 2 ^ 31 then .ok n else .error ⟨"NumberFormatException", "For input string: \"" ++ text ++ "\""⟩
  | none => .error ⟨"NumberFormatException", "For input string: \"" ++ text ++ "\""⟩

/-- `new ZkPathUpdater[Int](zkClient, asBasePath() + "/targetStoreRate", _.toInt, _ >= 0)` -/
def targetStoreRateUpdater (path : AbsolutePath) (curRate : String) : ZkPathUpdater Int where
  path := path.toString
  convert := toInt
  validate rate := decide (0 ≤ rate)
  toString rate := .ofList (Decimal.signed rate)
  errToString err := "java.lang." ++ err.simpleName ++ ": " ++ err.message
  curRate := curRate

variable (libs : Libs)

/-- `targetStoreRateWatch.data.map(translateNode("targetStoreRate", 0, _.toInt))` -/
def targetStoreRate (bytes : Bytes) : Int := translateNode 0 (fun bytes => (toInt (libs.newString bytes)).toOption) bytes

/-- The rate that a request asks for, if it is one that can be set. -/
def requested (newRate : Option String) : Option Int :=
  newRate.bind fun text => (toInt text).toOption.filter fun rate => decide (0 ≤ rate)

theorem toInt_signed {rate : Int} (hle : -2 ^ 31 ≤ rate) (hlt : rate < 2 ^ 31) :
    toInt (.ofList (Decimal.signed rate)) = .ok rate := by
  rw [toInt, String.toList_ofList, Decimal.readSigned_signed]
  exact if_pos ⟨hle, hlt⟩

theorem toInt_range {text : String} {rate : Int} (h : toInt text = .ok rate) : -2 ^ 31 ≤ rate ∧ rate < 2 ^ 31 := by
  unfold toInt at h
  split at h
  · split at h
    · rename_i hrange
      exact Except.ok.inj h ▸ hrange
    · cases h
  · cases h

theorem signed_ne_nil (rate : Int) : getBytesUtf8 (.ofList (Decimal.signed rate)) ≠ [] := by
  have hne : Decimal.signed rate ≠ [] := by
    unfold Decimal.signed
    split
    · exact List.cons_ne_nil _ _
    · exact Nat.toDigits_ne_nil
  obtain ⟨c, hc⟩ := List.exists_mem_of_ne_nil _ hne
  intro hnil
  rw [getBytesUtf8, String.toList_ofList, List.flatMap_eq_nil_iff] at hnil
  exact String.utf8EncodeChar_ne_nil (hnil c hc)

/-- **What is written is read back.** -/
theorem targetStoreRate_signed {rate : Int} (hle : -2 ^ 31 ≤ rate) (hlt : rate < 2 ^ 31) :
    targetStoreRate libs (getBytesUtf8 (.ofList (Decimal.signed rate))) = rate := by
  rw [targetStoreRate, translateNode, if_neg (fun h => signed_ne_nil rate (List.length_eq_zero_iff.1 h)),
    libs.newString_getBytes, toInt_signed hle hlt]
  rfl

theorem requested_eq_some {newRate : Option String} {rate : Int} (h : requested newRate = some rate) :
    ∃ text, newRate = some text ∧ toInt text = .ok rate ∧ 0 ≤ rate := by
  obtain ⟨text, rfl, htext⟩ := Option.bind_eq_some_iff.1 h
  obtain ⟨hsome, hle⟩ := Option.filter_eq_some_iff.1 htext
  refine ⟨text, rfl, ?_, of_decide_eq_true hle⟩
  cases hto : toInt text with
  | ok n => rw [hto] at hsome; exact congrArg _ (Option.some.inj hsome)
  | error err => rw [hto] at hsome; cases hsome

variable {path : AbsolutePath} {curRate : String}

/-- A rate that can be set is written to the node. -/
theorem apply_of_requested {newRate : Option String} {rate : Int} (h : requested newRate = some rate) :
    (targetStoreRateUpdater path curRate).apply newRate =
      ZKClient.setData path.toString (getBytesUtf8 (.ofList (Decimal.signed rate))) >>= fun _ =>
        pure ⟨200, "Rate changed to: " ++ .ofList (Decimal.signed rate)⟩ := by
  obtain ⟨text, rfl, htext, hle⟩ := requested_eq_some h
  have hvalid : (targetStoreRateUpdater path curRate).validate rate = true := decide_eq_true hle
  dsimp only [ZkPathUpdater.apply]
  rw [show (targetStoreRateUpdater path curRate).convert text = .ok rate from htext]
  exact if_pos hvalid

/-- Any other request changes nothing. -/
theorem apply_of_not_requested {newRate : Option String} (h : requested newRate = none) (t : ZkTree) :
    ∃ response, exec ((targetStoreRateUpdater path curRate).apply newRate) t = (.ok response, t) ∧
      (response.statusCode = 500 ↔ newRate ≠ none) := by
  cases newRate with
  | none => exact ⟨_, rfl, by simp⟩
  | some text =>
    dsimp only [ZkPathUpdater.apply]
    have hconvert : (targetStoreRateUpdater path curRate).convert text = toInt text := rfl
    rw [hconvert]
    cases hto : toInt text with
    | error err => exact ⟨_, rfl, by simp⟩
    | ok rate =>
      have hinvalid : ¬ (targetStoreRateUpdater path curRate).validate rate = true := fun hvalid => by
        rw [requested, Option.bind_some, hto] at h
        exact absurd ((Option.filter_eq_none_iff.1 h) rate rfl) (not_not_intro hvalid)
      dsimp only
      rw [if_neg hinvalid]
      exact ⟨_, rfl, by simp⟩

end SampleRate
end Zipkin
