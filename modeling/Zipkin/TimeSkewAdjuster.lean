import Zipkin.TraceTree
/-!
# TimeSkewAdjuster — the clock-skew adjustment

`TimeSkewAdjuster.scala` and `AdjusterSpanTreeEntry.scala`.  `wrap` is what the machine makes of the result of an integer
operation: `wrap64` is the code, the identity is the same code without overflow.
-/
namespace Zipkin

open StableSort Constants

variable {β : Type}

structure AdjusterWarning where
  msg : String
deriving DecidableEq, Repr

/-- A span tree whose nodes also hold the adjuster's messages. -/
abbrev AdjusterSpanTreeEntry (β : Type) := RoseTree (Span β × List AdjusterWarning)

namespace AdjusterSpanTreeEntry

abbrev span (spanTree : AdjusterSpanTreeEntry β) : Span β := spanTree.label.1

abbrev messages (spanTree : AdjusterSpanTreeEntry β) : List AdjusterWarning := spanTree.label.2

@[simp] theorem span_node (a : Span β × List AdjusterWarning) (cs : List (AdjusterSpanTreeEntry β)) :
    span (.node a cs) = a.1 := rfl

@[simp] theorem messages_node (a : Span β × List AdjusterWarning) (cs : List (AdjusterSpanTreeEntry β)) :
    messages (.node a cs) = a.2 := rfl

def apply (spanTree : SpanTreeEntry β) : AdjusterSpanTreeEntry β := spanTree.map (fun span => (span, []))

end AdjusterSpanTreeEntry

structure ClockSkew where
  endpoint : Endpoint
  skew : Int
deriving DecidableEq, Repr

namespace TimeSkewAdjuster

def TimeSkewAddServerRecv : AdjusterWarning := ⟨"TIME_SKEW_ADD_SERVER_RECV"⟩
def TimeSkewAddServerSend : AdjusterWarning := ⟨"TIME_SKEW_ADD_SERVER_SEND"⟩

variable (wrap : Int → Int)

/-! ## The skew of one exchange -/

/-- The skew between two servers, from the four timestamps of a call: none if the annotations are in order already or
the server's part is longer than the client's. -/
def getClockSkew (clientSend clientRecv serverRecv serverSend : Int) (endpoint : Endpoint) : Option ClockSkew :=
  let clientDuration := wrap (clientRecv - clientSend)
  let serverDuration := wrap (serverSend - serverRecv)
  let csAhead := decide (clientSend < serverRecv)
  let crAhead := decide (clientRecv > serverSend)
  if decide (serverDuration > clientDuration) || (csAhead && crAhead) then none
  else
    let latency := (wrap (clientDuration - serverDuration)).tdiv 2
    let skew := wrap (wrap (serverRecv - latency) - clientSend)
    if skew = 0 then none else some ⟨endpoint, skew⟩

def containsClientCoreAnnotations (annotations : String → Option Annotation) : Bool :=
  (annotations ClientSend).isSome && (annotations ClientRecv).isSome

def containsServerCoreAnnotations (annotations : String → Option Annotation) : Bool :=
  (annotations ServerSend).isSome && (annotations ServerRecv).isSome

def containsAllCoreAnnotations (annotations : String → Option Annotation) : Bool :=
  containsClientCoreAnnotations annotations && containsServerCoreAnnotations annotations

/-- The skew of a span with all four core annotations, at the host of its server receive.  `getTimestamp` finds each
annotation, as all four are there. -/
def getClockSkewOf (span : Span β) : Option ClockSkew :=
  if !containsAllCoreAnnotations span.getAnnotationsAsMap then none
  else match span.getAnnotationsAsMap ClientSend, span.getAnnotationsAsMap ClientRecv,
      span.getAnnotationsAsMap ServerRecv, span.getAnnotationsAsMap ServerSend with
    | some cs, some cr, some sr, some ss =>
      sr.host.bind (getClockSkew wrap cs.timestamp cr.timestamp sr.timestamp ss.timestamp)
    | _, _, _, _ => none

/-! ## The adjustment of one span -/

def isHost (clockSkew : ClockSkew) (ep : Endpoint) (value : String) : Bool :=
  clockSkew.endpoint.ipv4 == ep.ipv4 ||
    (value == ClientRecv || value == ClientSend) && LocalhostLoopBackIP == ep.ipv4

def adjustAnnotation (clockSkew : ClockSkew) (a : Annotation) : Annotation :=
  match a.host with
  | some ep => if isHost clockSkew ep a.value then { a with timestamp := wrap (a.timestamp - clockSkew.skew) } else a
  | none => a

def adjustSpan (span : Span β) (clockSkew : ClockSkew) : Span β :=
  span.copyAnnotations (span.annotations.map (TimeSkewAdjuster.adjustAnnotation wrap clockSkew))

/-- `adjustTimestamps`: the skewed host's annotations of the span at the top of a tree are moved by the skew. -/
def adjustTimestamps (spanTree : AdjusterSpanTreeEntry β) (clockSkew : ClockSkew) : AdjusterSpanTreeEntry β :=
  if clockSkew.skew = 0 then spanTree
  else .node (adjustSpan wrap spanTree.span clockSkew, spanTree.messages) spanTree.children

/-- `validateSpan`'s test: only the client's half of the core annotations, and children. -/
def lacksServer (span : Span β) (children : List (AdjusterSpanTreeEntry β)) : Bool :=
  span.isValid && decide (children.length > 0) && containsClientCoreAnnotations span.getAnnotationsAsMap &&
    !containsServerCoreAnnotations span.getAnnotationsAsMap

/-- The endpoint of the first child's client send, if it exists. -/
def endpointOf (children : List (AdjusterSpanTreeEntry β)) : Option Endpoint :=
  match children with
  | c :: _ =>
    match (AdjusterSpanTreeEntry.span c).clientSideAnnotations with
    | head :: _ => head.host
    | [] => none
  | [] => none

/-- The skew of a child whose parent has no server annotations, the parent's client annotations standing in for them. -/
def estrangedSkew (serverRecvTs serverSendTs : Int) (endpoint : Option Endpoint) (child : Span β) : Option ClockSkew :=
  match child.getAnnotationsAsMap ClientSend, child.getAnnotationsAsMap ClientRecv with
  | some cs, some cr => endpoint.bind (getClockSkew wrap serverRecvTs serverSendTs cs.timestamp cr.timestamp)
  | _, _ => none

/-- `validateSpan`: a span with children and only the client's annotations gets server annotations at the same times,
and its children are moved to fit.  The new span is made without `debug`.  The `AdjusterException`s are not raised: both
client annotations are there when they are looked up. -/
def validateSpan (spanTree : AdjusterSpanTreeEntry β) : AdjusterSpanTreeEntry β :=
  let span := spanTree.span
  let newSpan (annotations : List Annotation) : Span β :=
    Span.apply span.traceId span.name span.id span.parentId annotations span.binaryAnnotations
  if lacksServer span spanTree.children then
    let endpoint := endpointOf spanTree.children
    match span.getAnnotation ClientSend, span.getAnnotation ClientRecv with
    | some cs, some cr =>
      let annotations := span.annotations ++ [⟨cs.timestamp, ServerRecv, endpoint⟩, ⟨cr.timestamp, ServerSend, endpoint⟩]
      let warnings := spanTree.messages ++ [TimeSkewAddServerRecv, TimeSkewAddServerSend]
      let children := spanTree.children.map (fun c =>
        match estrangedSkew wrap cs.timestamp cr.timestamp endpoint (AdjusterSpanTreeEntry.span c) with
        | some endpointSkew => adjustTimestamps wrap c endpointSkew
        | none => c)
      .node (newSpan annotations, warnings) children
    | _, _ => spanTree
  else .node (newSpan span.annotations, spanTree.messages) spanTree.children

/-! ## The adjustment of a tree -/

/-- `previousAdjustedSpan`: the span moved by the skew of its parent, if it had one. -/
def previousAdjusted (span : AdjusterSpanTreeEntry β) (previousSkew : Option ClockSkew) : AdjusterSpanTreeEntry β :=
  match previousSkew with
  | some endpointSkew => adjustTimestamps wrap span endpointSkew
  | none => span

/-- The body of the recursive `adjust`. -/
def adjustNode (recurse : AdjusterSpanTreeEntry β → Option ClockSkew → AdjusterSpanTreeEntry β)
    (span : AdjusterSpanTreeEntry β) (previousSkew : Option ClockSkew) : AdjusterSpanTreeEntry β :=
  let validatedSpan := validateSpan wrap (previousAdjusted wrap span previousSkew)
  match getClockSkewOf wrap validatedSpan.span with
  | some es =>
    let adjustedSpan := adjustTimestamps wrap validatedSpan es
    .node (adjustedSpan.span, adjustedSpan.messages) (adjustedSpan.children.map (fun c => recurse c (some es)))
  | none =>
    .node (validatedSpan.span, validatedSpan.messages) (validatedSpan.children.map (fun c => recurse c none))

/-- The recursive `adjust`, to a given depth. -/
def adjustToDepth : Nat → AdjusterSpanTreeEntry β → Option ClockSkew → AdjusterSpanTreeEntry β
  | 0 => fun span _ => span
  | depth + 1 => adjustNode wrap (adjustToDepth depth)

def adjustTree (span : AdjusterSpanTreeEntry β) (previousSkew : Option ClockSkew) : AdjusterSpanTreeEntry β :=
  adjustToDepth wrap span.height span previousSkew

/-- `adjust`: the trace of the adjusted tree below the root span, or the trace itself if it has no root.  The tree below
the root is there (`getSpanTree_root`). -/
def adjust (ord : HashOrder β) (trace : Trace β) : Trace β :=
  match trace.getRootSpan ord with
  | some s =>
    match Trace.getSpanTree ord (trace.getIdToChildrenMap ord) (trace.spans ord).length s with
    | some spanTree => Trace.ofSpanTree ((adjustTree wrap (AdjusterSpanTreeEntry.apply spanTree) none).map Prod.fst)
    | none => trace
  | none => trace

end TimeSkewAdjuster

end Zipkin
