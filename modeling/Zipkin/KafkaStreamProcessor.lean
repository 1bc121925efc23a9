import Zipkin.Thrift
/-!
# KafkaStreamProcessor — the loop over the messages of a stream

`KafkaStreamProcessor.scala` and `SpanCodec.scala`.  A message is decoded, what it is decoded to is passed to `process`,
and the future is awaited, one message after the other.  The handler is around the loop, not inside of it: whatever a
message throws, the loop has ended when it is caught, and the pool submits a stream once.  `consumesAll_iff` says that
only the last message of a stream may fail.
-/
namespace Zipkin

open Effect

namespace Kafka

/-- `kafka.serializer.Decoder` -/
structure KafkaDecoder where
  fromBytes : List UInt8 → Except Throwable (List thriftscala.Span)

/-- `deserialize` is that of the generated class. -/
def SpanCodec (deserialize : List UInt8 → Except Throwable thriftscala.Span) : KafkaDecoder where
  fromBytes bytes := (deserialize bytes).map fun span => [span]

structure Message where
  payload : List UInt8
deriving DecidableEq, Repr

/-- What has been taken from the stream, and what `process` has been called with. -/
structure Progress where
  consumed : List Message
  calls : List (List thriftscala.Span)
deriving DecidableEq

def Progress.empty : Progress := ⟨[], []⟩

/-- A call of `process` throws or gives a future, of which the model has the result; what it does can depend on the calls
before. -/
structure KafkaStreamProcessor where
  valueDecoder : KafkaDecoder
  process : List (List thriftscala.Span) → List thriftscala.Span → Except Throwable (Except Throwable Unit)
  /-- Which throwables are of the class `Exception`. -/
  isException : Throwable → Bool

namespace KafkaStreamProcessor

variable (p : KafkaStreamProcessor)

/-- The message of the stream's iterator decodes its payload whenever it is asked for it. -/
def message (msg : Message) : Effect Throwable Progress (List thriftscala.Span) :=
  .of fun s => (p.valueDecoder.fromBytes msg.payload, s)

def next (msg : Message) : Effect Throwable Progress Unit := .of fun s => (.ok (), { s with consumed := s.consumed ++ [msg] })

def callProcess (spans : List thriftscala.Span) : Effect Throwable Progress (Except Throwable Unit) :=
  .of fun s => (p.process s.calls spans, { s with calls := s.calls ++ [spans] })

/-- `Await.result` -/
def awaitResult (future : Except Throwable Unit) : Effect Throwable Progress Unit := .of fun s => (future, s)

def handle (msg : Message) : Effect Throwable Progress Unit := do
  next msg
  -- `log.debug` has the message in its text
  let _ ← p.message msg
  let spans ← p.message msg
  let future ← p.callProcess spans
  awaitResult future

def run (stream : List Message) : Effect Throwable Progress Unit :=
  tryCatch ((fun _ => ()) <$> stream.mapM p.handle) fun e =>
    if p.isException e then pure () else throw e

/-! ## One message -/

/-- What a message is decoded to, if it can be. -/
def decoded (msg : Message) : Option (List thriftscala.Span) := (p.valueDecoder.fromBytes msg.payload).toOption

/-- After these calls of `process`, the message is decoded and its call succeeds. -/
def succeeds (calls : List (List thriftscala.Span)) (msg : Message) : Bool :=
  match p.decoded msg with
  | none => false
  | some spans => match p.process calls spans with
    | .ok (.ok ()) => true
    | _ => false

/-- The message is taken, and `process` is called if it can be decoded, whether or not it throws. -/
def after (msg : Message) (s : Progress) : Progress := ⟨s.consumed ++ [msg], s.calls ++ (p.decoded msg).toList⟩

variable {p}

theorem exec_handle (msg : Message) (s : Progress) :
    ∃ result, exec (p.handle msg) s = (result, p.after msg s) ∧ (p.succeeds s.calls msg = true ↔ result = .ok ()) := by
  have hnext : exec (next msg) s = (.ok (), { s with consumed := s.consumed ++ [msg] }) := rfl
  rw [handle, exec_bind_ok hnext, succeeds, after, decoded]
  cases hdecoded : p.valueDecoder.fromBytes msg.payload with
  | error e =>
    have hmessage : ∀ s, exec (p.message msg) s = (.error e, s) := fun s => by rw [message, exec_of, hdecoded]
    refine ⟨.error e, ?_, iff_of_false Bool.false_ne_true nofun⟩
    rw [exec_bind_error (hmessage _)]
    exact congrArg (Prod.mk _) (congrArg (Progress.mk _) (List.append_nil _).symm)
  | ok spans =>
    have hmessage : ∀ s, exec (p.message msg) s = (.ok spans, s) := fun s => by rw [message, exec_of, hdecoded]
    rw [exec_bind_ok (hmessage _), exec_bind_ok (hmessage _), exec_bind, callProcess, exec_of]
    dsimp only [Except.toOption]
    cases p.process s.calls spans with
    | error e => exact ⟨.error e, rfl, iff_of_false Bool.false_ne_true nofun⟩
    | ok future =>
      refine ⟨future, rfl, ?_⟩
      cases future with
      | ok _ => exact iff_of_true rfl rfl
      | error e => exact iff_of_false Bool.false_ne_true nofun

/-! ## The stream -/

variable (p)

/-- What the messages that can be decoded are decoded to, in the order of the stream. -/
def decodable (stream : List Message) : List (List thriftscala.Span) := stream.filterMap p.decoded

/-- Every message was taken, and each that can be decoded was passed to `process` once, in the order of the stream. -/
def ConsumesAll (stream : List Message) : Prop :=
  (exec (p.run stream) .empty).2 = ⟨stream, p.decodable stream⟩

instance (stream : List Message) : Decidable (p.ConsumesAll stream) := inferInstanceAs (Decidable (_ = _))

variable {p}

theorem exec_run (stream : List Message) (s : Progress) :
    (exec (p.run stream) s).2 = (exec (stream.mapM p.handle) s).2 := by
  rw [run, exec_tryCatch, exec_map]
  cases exec (stream.mapM p.handle) s with
  | mk result s' =>
    cases result with
    | ok _ => rfl
    | error e =>
      dsimp only [Except.map]
      split <;> rfl

theorem exec_mapM_handle_cons (msg : Message) (stream : List Message) (s : Progress) :
    (exec ((msg :: stream).mapM p.handle) s).2 =
      if p.succeeds s.calls msg = true then (exec (stream.mapM p.handle) (p.after msg s)).2 else p.after msg s := by
  obtain ⟨result, hexec, hresult⟩ := exec_handle (p := p) msg s
  rw [mapM_cons]
  cases result with
  | ok _ => rw [if_pos (hresult.2 rfl), exec_bind_ok hexec, exec_map]
  | error e => rw [if_neg (fun h => nomatch hresult.1 h), exec_bind_error hexec]

/-- Only the last message can fail, when `process` has been called before. -/
def GoesOn (p : KafkaStreamProcessor) (calls : List (List thriftscala.Span)) (stream : List Message) : Prop :=
  ∀ before msg after, stream = before ++ msg :: after → after ≠ [] → p.succeeds (calls ++ p.decodable before) msg = true

theorem decodable_cons (msg : Message) (stream : List Message) :
    p.decodable (msg :: stream) = (p.decoded msg).toList ++ p.decodable stream := by
  rw [decodable, List.filterMap_cons, decodable]
  cases p.decoded msg <;> rfl

theorem goesOn_cons_iff {calls : List (List thriftscala.Span)} {msg : Message} {stream : List Message} :
    p.GoesOn calls (msg :: stream) ↔
      (stream ≠ [] → p.succeeds calls msg = true) ∧ p.GoesOn (calls ++ (p.decoded msg).toList) stream := by
  constructor
  · intro h
    refine ⟨fun hne => ?_, fun before msg' after heq hne => ?_⟩
    · have hfirst := h [] msg stream rfl hne
      rwa [decodable, List.filterMap_nil, List.append_nil] at hfirst
    · have hlater := h (msg :: before) msg' after (by rw [heq, List.cons_append]) hne
      rwa [decodable_cons, ← List.append_assoc] at hlater
  · rintro ⟨hfirst, hlater⟩ before msg' after heq hne
    cases before with
    | nil =>
      obtain ⟨rfl, rfl⟩ := List.cons.inj heq
      rw [decodable, List.filterMap_nil, List.append_nil]
      exact hfirst hne
    | cons _ before =>
      obtain ⟨rfl, rfl⟩ := List.cons.inj heq
      rw [decodable_cons, ← List.append_assoc]
      exact hlater before msg' after rfl hne

/-- All that is left of the stream is taken where only its last message can fail. -/
theorem exec_mapM_handle_iff : ∀ (stream : List Message) (s : Progress),
    (exec (stream.mapM p.handle) s).2 = ⟨s.consumed ++ stream, s.calls ++ p.decodable stream⟩ ↔ p.GoesOn s.calls stream
  | [], s => by
    refine iff_of_true ?_ (fun before msg after heq => by cases before <;> cases heq)
    rw [decodable, List.filterMap_nil, List.append_nil, List.append_nil]
    rfl
  | msg :: stream, s => by
    rw [exec_mapM_handle_cons, goesOn_cons_iff, decodable_cons, ← List.append_assoc,
      List.append_cons s.consumed]
    by_cases hsucceeds : p.succeeds s.calls msg = true
    · rw [if_pos hsucceeds, and_iff_right (fun _ => hsucceeds)]
      exact exec_mapM_handle_iff stream (p.after msg s)
    · rw [if_neg hsucceeds]
      by_cases hstream : stream = []
      · subst hstream
        refine iff_of_true ?_ ⟨fun hne => (hne rfl).elim, fun before msg after heq => by cases before <;> cases heq⟩
        rw [decodable, List.filterMap_nil, List.append_nil, List.append_nil]
        rfl
      · refine iff_of_false (fun heq => hstream ?_) (fun h => hsucceeds (h.1 hstream))
        exact List.self_eq_append_right.1 (congrArg Progress.consumed heq)

/-- **When a message that fails does not take others down with it**: when it is the last of the stream. -/
theorem consumesAll_iff (p : KafkaStreamProcessor) (stream : List Message) :
    p.ConsumesAll stream ↔ ∀ before msg after, stream = before ++ msg :: after → after ≠ [] →
      p.succeeds (p.decodable before) msg = true := by
  rw [ConsumesAll, exec_run]
  exact exec_mapM_handle_iff stream .empty

section Instances

/-- The empty struct, which ends with its first byte, and what is no struct. -/
def deserialize : List UInt8 → Except Throwable thriftscala.Span
  | [0] => .ok ⟨0, none, 0, none, some [], some [], false⟩
  | _ => .error ⟨"TTransportException", ""⟩

def sample : KafkaStreamProcessor := ⟨SpanCodec deserialize, fun _ _ => .ok (.ok ()), fun _ => true⟩

/-- A payload that cannot be decoded, and one that can. -/
theorem not_consumesAll_undecodable :
    ¬ sample.ConsumesAll [⟨[]⟩, ⟨[0]⟩] ∧ (exec (sample.run [⟨[]⟩, ⟨[0]⟩]) .empty).2 = ⟨[⟨[]⟩], []⟩ ∧
    sample.decodable [⟨[]⟩, ⟨[0]⟩] = [[⟨0, none, 0, none, some [], some [], false⟩]] :=
  ⟨by decide, by decide, by decide⟩

end Instances

end KafkaStreamProcessor
end Kafka
end Zipkin
