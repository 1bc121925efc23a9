import Mathlib.Data.List.MinMax
import Zipkin.Libs
import Zipkin.SkewQuiet
import Zipkin.TraceMerge
/-!
# TraceGen — traces made up at random

`TraceGen.scala`.  A call draws how long it works and which calls it makes in parallel, one level less deep than itself, and
records its server's half; each caller records the client's half of the calls it has made.  The halves make a trace: the
parts of one call come together again by their id, the intervals are nested as the calls are, and every clock is right, so
that the clock-skew adjustment has nothing to do.

Times are integers without a bound, where `Time` stops at 2^63 nanoseconds: the two differ for traces so deep, or made up
so late, that a call ends after that.
-/
namespace Zipkin

open Constants Effect

namespace TraceGen

structure State where
  /-- What `rnd` goes on to give. -/
  draws : Nat → Nat
  drawn : Nat
  upstreamServices : List String
  /-- Those of the `GenTrace`. -/
  spans : List (Span (List UInt8))

abbrev Gen := Effect Throwable State

/-! ## `rnd` -/

def next : Gen Nat := .of fun s => (.ok (s.draws s.drawn), { s with drawn := s.drawn + 1 })

/-- `rnd.nextInt(n)` -/
def nextInt (n : Nat) (hn : 0 < n) : Gen (Fin n) := (fun draw => ⟨draw % n, Nat.mod_lt draw hn⟩) <$> next

/-- `rnd.nextInt()` -/
def nextInt32 : Gen Int32 := Int32.ofNat <$> next

def nextLong : Gen Int64 := Int64.ofNat <$> next

def serviceNames : List String :=
  ["vitae", "ipsum", "felis", "lorem", "magna", "dolor", "porta", "donec", "augue", "tortor", "auctor",
    "mattis", "ligula", "mollis", "aenean", "montes", "semper", "magnis", "rutrum", "turpis", "sociis",
    "lectus", "mauris", "congue", "libero", "rhoncus", "dapibus", "natoque", "gravida", "viverra", "egestas",
    "lacinia", "feugiat", "pulvinar", "accumsan", "sagittis", "ultrices", "praesent", "vehicula", "nascetur",
    "pharetra", "maecenas", "consequat", "ultricies", "ridiculus", "malesuada", "curabitur", "convallis",
    "facilisis", "hendrerit", "penatibus", "imperdiet", "tincidunt", "parturient", "adipiscing",
    "consectetur", "pellentesque"]

def rndSvcName : Gen String := (fun i => serviceNames.get i) <$> nextInt serviceNames.length (by decide)

def rpcNames : List String :=
  ["vivamus", "fermentum", "semper", "porta", "nunc", "diam", "velit", "adipiscing", "ut", "tristique", "vitae"]

def rndRpcName : Gen String := (fun i => rpcNames.get i) <$> nextInt rpcNames.length (by decide)

/-! ## `withEndpoint` -/

def upstreamServices : Gen (List String) := .of fun s => (.ok s.upstreamServices, s)

def modifyUpstream (f : List String → List String) : Gen Unit := .of fun s =>
  (.ok (), { s with upstreamServices := f s.upstreamServices })

/-- The `while` loop: the name, and the attempts that are left. -/
def attempt : Nat → String → Gen (String × Nat)
  | 0, svcName => pure (svcName, 0)
  | attempts + 1, svcName => do
    if svcName ∈ (← upstreamServices) then attempt attempts (← rndSvcName)
    else pure (svcName, attempts + 1)

/-- The name, with a random suffix if no attempts are left. -/
def suffixed (found : String × Nat) : Gen String :=
  if found.2 = 0 then (fun n => found.1 ++ toString (n.val + 1000)) <$> nextInt 8000 (by decide) else pure found.1

def withEndpoint {α : Type} (f : Endpoint → Gen α) : Gen α := do
  let svcName ← suffixed (← attempt serviceNames.length (← rndSvcName))
  modifyUpstream (·.insert svcName)
  let ipv4 ← nextInt32
  let port ← nextInt 8000 (by decide)
  let ret ← f ⟨ipv4, Int16.ofNat (port.val + 1000), svcName⟩
  modifyUpstream (·.filter (· ≠ svcName))
  pure ret

/-! ## `doRpc` -/

/-- Times and durations are in nanoseconds. -/
def milliseconds (n : Nat) : Int := n * 1000000

def microseconds (n : Nat) : Int := n * 1000

def inMicroseconds (time : Int) : Int := time.tdiv 1000

def addSpan (traceId : Int64) (name : String) (id : Int64) (parentId : Option Int64) (annos : List Annotation)
    (binAnnos : List (Zipkin.BinaryAnnotation (List UInt8))) : Gen Unit := .of fun s =>
  (.ok (), { s with spans := s.spans ++ [.apply traceId name id parentId annos binAnnos] })

/-- One of `svrBinAnnos`. -/
def svrBinAnno (ep : Endpoint) : Gen (Zipkin.BinaryAnnotation (List UInt8)) := do
  let key ← rndSvcName
  let value ← rndSvcName
  pure ⟨key, getBytesUtf8 value, .string, some ep⟩

/-- The loop over `svrAnnos`: what it adds, and `curTime` after it. -/
def svrAnnos (ep : Endpoint) : Nat → Int → Gen (List Annotation × Int)
  | 0, curTime => pure ([], curTime)
  | n + 1, curTime => do
    let value ← rndSvcName
    let pause ← nextInt 5 (by decide)
    let rest ← svrAnnos ep n (curTime + milliseconds pause)
    pure (⟨inMicroseconds curTime, value, some ep⟩ :: rest.1, rest.2)

/-- `doRpc` of a time, a name, an endpoint, a span id and the parent's. -/
abbrev Rpc := Int → String → Endpoint → Int64 → Option Int64 → Gen Int

def rndDelay (n : Fin 10) : Gen Int := if 6 < n.val then (fun n => microseconds n.val) <$> nextInt 10 (by decide) else pure 0

/-- One of the calls to downstream services. -/
def downstream (traceId : Int64) (depth : Nat) (hdepth : 0 < depth) (doRpc : Fin depth → Rpc) (curTime : Int)
    (spanId : Int64)
    (nextEp : Endpoint) : Gen Int := do
  let thisSpanId ← nextLong
  let thisParentId := some spanId
  let rpcName ← rndRpcName
  let delay ← rndDelay (← nextInt 10 (by decide))
  let nextDepth ← nextInt depth hdepth
  let returned ← doRpc nextDepth curTime rpcName nextEp thisSpanId thisParentId
  let time := returned + milliseconds 1
  addSpan traceId rpcName thisSpanId thisParentId
    [⟨inMicroseconds (curTime + delay), ClientSend, some nextEp⟩, ⟨inMicroseconds time, ClientRecv, some nextEp⟩] []
  pure time

/-- `times.max` of the calls to downstream services, if there are any. -/
def downstreams (traceId : Int64) (depth : Nat) (doRpc : Fin depth → Rpc) (curTime : Int) (spanId : Int64) : Gen Int :=
  if hdepth : 0 < depth then do
    let n ← nextInt depth hdepth
    let times ← (List.range (n.val + 2)).mapM fun _ => withEndpoint (downstream traceId depth hdepth doRpc curTime spanId)
    pure (times.max?.getD curTime)
  else pure curTime

def doRpc (traceId : Int64) (depth : Nat) : Rpc := fun time spanName ep spanId parentSpanId => do
  let received := time + milliseconds 1
  let binAnnos ← (List.range ((← nextInt 3 (by decide)).val + 1)).mapM fun _ => svrBinAnno ep
  let work ← nextInt 10 (by decide)
  let annos ← svrAnnos ep ((← nextInt 5 (by decide)).val + 2) (received + milliseconds work)
  let curTime ← downstreams traceId depth (fun d => doRpc traceId d) annos.2 spanId
  addSpan traceId spanName spanId parentSpanId
    (⟨inMicroseconds received, ServerRecv, some ep⟩ :: annos.1 ++ [⟨inMicroseconds curTime, ServerSend, some ep⟩]) binAnnos
  pure curTime
termination_by depth
decreasing_by exact d.isLt

/-! ## `apply` -/

/-- What `apply` does for one trace, at the time `now`. -/
def genTrace (maxDepth : Int) (now : Int) : Gen (List (Span (List UInt8))) := do
  let hours ← nextInt 8 (by decide)
  let start := now - (hours.val + 1) * 3600000000000
  let traceId ← nextLong
  .of fun s => (.ok (), { s with spans := [] })
  let _ ← withEndpoint fun ep => do
    if h : 0 < maxDepth.toNat then do
      let depth ← nextInt maxDepth.toNat h
      let name ← rndRpcName
      let spanId ← nextLong
      doRpc traceId depth start name ep spanId none
    else throw ⟨"IllegalArgumentException", "bound must be positive"⟩
  .of fun s => (.ok s.spans, s)

/-- `now` is the time of each. -/
def apply (traces : Nat) (maxDepth : Int) (now : Nat → Int) : Gen (List (Span (List UInt8))) :=
  List.flatten <$> (List.range traces).mapM fun i => genTrace maxDepth (now i)

/-! ## What is made -/

abbrev Part := Span (List UInt8)

/-- It goes through, whatever is drawn, and brings the spans on. -/
def Makes {α : Type} (x : Gen α) (l : List Part) (Q : α → List Part → Prop) : Prop :=
  ∀ s, s.spans = l → Yields x s fun a s' => Q a s'.spans

section Makes
variable {α β : Type} {x : Gen α} {l : List Part} {Q : α → List Part → Prop}

theorem makes_pure {a : α} (h : Q a l) : Makes (pure a) l Q := fun _ hs => yields_pure (hs.symm ▸ h)

theorem Makes.imp {R : α → List Part → Prop} (h : Makes x l Q) (himp : ∀ a l', Q a l' → R a l') : Makes x l R :=
  fun s hs => (h s hs).imp fun a s' => himp a s'.spans

theorem Makes.bind {R : β → List Part → Prop} {f : α → Gen β} (hx : Makes x l Q) (hf : ∀ a l', Q a l' → Makes (f a) l' R) :
    Makes (x >>= f) l R :=
  fun s hs => (hx s hs).bind fun a s' ha => hf a s'.spans ha s' rfl

theorem Makes.map {R : β → List Part → Prop} {f : α → β} (hx : Makes x l Q) (hf : ∀ a l', Q a l' → R (f a) l') :
    Makes (f <$> x) l R :=
  fun s hs => (hx s hs).map fun a s' => hf a s'.spans

/-- No span is added first. -/
theorem Makes.andThen {R : β → List Part → Prop} {f : α → Gen β} (hx : Makes x l fun _ l' => l' = l)
    (hf : ∀ a, Makes (f a) l R) : Makes (x >>= f) l R := hx.bind fun a _ hl => hl ▸ hf a

theorem Makes.andThenOf {P : α → Prop} {R : β → List Part → Prop} {f : α → Gen β} (hx : Makes x l fun a l' => P a ∧ l' = l)
    (hf : ∀ a, P a → Makes (f a) l R) : Makes (x >>= f) l R := hx.bind fun a _ h => h.2 ▸ hf a h.1

theorem makes_mapM {I : List β → List Part → Prop} {f : α → Gen β} {as : List α} (h : I [] l)
    (hstep : ∀ a ∈ as, ∀ bs l', I bs l' → Makes (f a) l' fun b l'' => I (bs ++ [b]) l'') :
    Makes (as.mapM f) l fun bs l' => bs.length = as.length ∧ I bs l' := fun _ hs =>
  yields_mapM (I := fun bs s' => I bs s'.spans) (hs.symm ▸ h) fun a ha bs s' hI => hstep a ha bs s'.spans hI s' rfl

/-- No span is added. -/
theorem makes_nextInt (n : Nat) (hn : 0 < n) : Makes (nextInt n hn) l fun _ l' => l' = l :=
  fun s hs => ⟨_, { s with drawn := s.drawn + 1 }, rfl, hs⟩

theorem makes_nextInt32 : Makes nextInt32 l fun _ l' => l' = l := fun s hs => ⟨_, { s with drawn := s.drawn + 1 }, rfl, hs⟩

theorem makes_nextLong : Makes nextLong l fun _ l' => l' = l := fun s hs => ⟨_, { s with drawn := s.drawn + 1 }, rfl, hs⟩

theorem makes_rndSvcName : Makes rndSvcName l fun v l' => v ∈ serviceNames ∧ l' = l :=
  (makes_nextInt _ _).map fun i _ h => ⟨List.get_mem _ i, h⟩

theorem makes_rndRpcName : Makes rndRpcName l fun _ l' => l' = l := (makes_nextInt _ _).map fun _ _ h => h

theorem makes_modifyUpstream (f : List String → List String) : Makes (modifyUpstream f) l fun _ l' => l' = l :=
  fun s hs => ⟨(), { s with upstreamServices := f s.upstreamServices }, rfl, hs⟩

theorem makes_attempt : ∀ (attempts : Nat) (svcName : String), Makes (attempt attempts svcName) l fun _ l' => l' = l
  | 0, _ => makes_pure rfl
  | attempts + 1, svcName => by
    have hupstream : Makes upstreamServices l fun _ l' => l' = l := fun s hs => ⟨_, s, rfl, hs⟩
    refine hupstream.andThen fun services => ?_
    split
    · exact (makes_rndSvcName.imp fun _ _ h => h.2).andThen fun name => makes_attempt attempts name
    · exact makes_pure rfl

theorem makes_suffixed (found : String × Nat) : Makes (suffixed found) l fun _ l' => l' = l := by
  unfold suffixed
  split
  · exact (makes_nextInt _ _).map fun _ _ hl => hl
  · exact makes_pure rfl

theorem makes_addSpan (traceId : Int64) (name : String) (id : Int64) (parentId : Option Int64) (annos : List Annotation)
    (binAnnos : List (Zipkin.BinaryAnnotation (List UInt8))) : Makes (addSpan traceId name id parentId annos binAnnos) l
      fun _ l' => l' = l ++ [.apply traceId name id parentId annos binAnnos] :=
  fun s hs => ⟨(), { s with spans := s.spans ++ [.apply traceId name id parentId annos binAnnos] }, rfl, hs ▸ rfl⟩

/-- **An endpoint adds no span of its own.** -/
theorem makes_withEndpoint {f : Endpoint → Gen α} (h : ∀ ep, Makes (f ep) l Q) : Makes (withEndpoint f) l Q := by
  refine (makes_rndSvcName.imp fun _ _ h => h.2).andThen fun name => ?_
  refine (makes_attempt _ name).andThen fun found => (makes_suffixed found).andThen fun svcName => ?_
  refine (makes_modifyUpstream _).andThen fun _ => makes_nextInt32.andThen fun ipv4 => ?_
  refine (makes_nextInt _ _).andThen fun port => (h _).bind fun ret l' hret => ?_
  exact (makes_modifyUpstream _).andThen fun _ => makes_pure hret

end Makes

/-! ## Calls -/

/-- A call: its server's half, and its client's if there is one.  The times are in microseconds. -/
structure Call where
  ep : Endpoint
  sr : Int
  ss : Int
  server : Part
  client : Option Part

namespace Call

def parts (c : Call) : List Part := c.server :: c.client.toList

/-- The server's half: it has one of each of the server's core annotations, none of the client's, and nothing outside. -/
structure Served (c : Call) : Prop where
  debug_eq : c.server.debug = false
  serverRecv : c.server.annotations.filter (·.value == ServerRecv) = [⟨c.sr, ServerRecv, some c.ep⟩]
  serverSend : c.server.annotations.filter (·.value == ServerSend) = [⟨c.ss, ServerSend, some c.ep⟩]
  clientSend : c.server.annotations.filter (·.value == ClientSend) = []
  clientRecv : c.server.annotations.filter (·.value == ClientRecv) = []
  sr_le_ss : c.sr ≤ c.ss
  within : ∀ a ∈ c.server.annotations, c.sr ≤ a.timestamp ∧ a.timestamp ≤ c.ss

/-- The client's half: it is around the server's. -/
structure Asked (c : Call) (client : Part) (cs cr : Int) : Prop where
  client_eq : c.client = some client
  debug_eq : client.debug = false
  id_eq : client.id = c.server.id
  parentId_eq : client.parentId = c.server.parentId
  annotations_perm : client.annotations.Perm [⟨cs, ClientSend, some c.ep⟩, ⟨cr, ClientRecv, some c.ep⟩]
  cs_lt : cs < c.sr
  lt_cr : c.ss < cr

/-- `b` is called by `a`, while `a` is served. -/
def Calls (a b : Call) : Prop := b.server.parentId = some a.server.id ∧
  ∃ client cs cr, b.Asked client cs cr ∧ a.sr ≤ cs ∧ cr ≤ a.ss

end Call

inductive Nested : RoseTree Call → Prop
  | node {a : Call} {cs : List (RoseTree Call)} : a.Served → (∀ c ∈ cs, a.Calls c.label) → (∀ c ∈ cs, Nested c) →
    Nested (.node a cs)

/-- The spans that are recorded of the calls. -/
def recorded (t : RoseTree Call) : List Part := t.labels.flatMap Call.parts

/-! ### Times -/

theorem inMicroseconds_mono {a b : Int} (h : a ≤ b) : inMicroseconds a ≤ inMicroseconds b := Int.tdiv_le_tdiv (by decide) h

theorem inMicroseconds_lt {a b : Int} (ha : 0 ≤ a) (h : a + 1000 ≤ b) : inMicroseconds a < inMicroseconds b := by
  rw [inMicroseconds, inMicroseconds, Int.tdiv_eq_ediv_of_nonneg ha, Int.tdiv_eq_ediv_of_nonneg (by omega)]
  omega

theorem not_mem_core {value : String} (h : value ∈ serviceNames) : value ≠ ServerRecv ∧ value ≠ ServerSend ∧
    value ≠ ClientSend ∧ value ≠ ClientRecv := by
  have hall : ∀ v ∈ serviceNames, v ≠ ServerRecv ∧ v ≠ ServerSend ∧ v ≠ ClientSend ∧ v ≠ ClientRecv := by decide
  exact hall value h

section Spec
variable {l : List Part}

/-- **What a server does** takes up to 4 milliseconds for each annotation. -/
theorem makes_svrAnnos (ep : Endpoint) : ∀ (n : Nat) (curTime : Int), Makes (svrAnnos ep n curTime) l fun r l' =>
    (curTime ≤ r.2 ∧ r.2 ≤ curTime + n * milliseconds 4 ∧ ∀ a ∈ r.1, a.value ∈ serviceNames ∧
      inMicroseconds curTime ≤ a.timestamp ∧ a.timestamp ≤ inMicroseconds r.2) ∧ l' = l
  | 0, curTime => makes_pure ⟨⟨Int.le_refl _, by simp, fun _ ha => (List.not_mem_nil ha).elim⟩, rfl⟩
  | n + 1, curTime => by
    refine makes_rndSvcName.andThenOf fun value hvalue => (makes_nextInt _ _).andThen fun pause => ?_
    refine (makes_svrAnnos ep n _).andThenOf fun rest hrest => ?_
    obtain ⟨hle, hge, hmem⟩ := hrest
    have hpause : 0 ≤ milliseconds pause ∧ milliseconds pause ≤ milliseconds 4 := by
      have := pause.isLt
      unfold milliseconds
      omega
    refine makes_pure ⟨⟨by omega, ?_, fun a ha => ?_⟩, rfl⟩
    · rw [Int.natCast_succ, Int.add_mul, Int.one_mul]
      dsimp only
      omega
    · rcases List.mem_cons.1 ha with rfl | ha
      · exact ⟨hvalue, Int.le_refl _, inMicroseconds_mono (by dsimp only; omega)⟩
      · obtain ⟨hv, hlow, hhigh⟩ := hmem a ha
        exact ⟨hv, (inMicroseconds_mono (by omega)).trans hlow, hhigh⟩

theorem makes_rndDelay (n : Fin 10) : Makes (rndDelay n) l fun delay l' =>
    (0 ≤ delay ∧ delay ≤ microseconds 9) ∧ l' = l := by
  unfold rndDelay
  split
  · refine (makes_nextInt _ _).map fun m _ h => ⟨?_, h⟩
    have := m.isLt
    unfold microseconds
    omega
  · exact makes_pure ⟨⟨Int.le_refl _, by decide⟩, rfl⟩

theorem makes_svrBinAnnos (ep : Endpoint) (n : Nat) :
    Makes ((List.range n).mapM fun _ => svrBinAnno ep) l fun _ l' => l' = l := by
  refine (makes_mapM (I := fun _ l' => l' = l) rfl fun _ _ _ l' hl => ?_).imp fun _ _ h => h.2
  subst hl
  refine makes_rndSvcName.andThenOf fun key _ => makes_rndSvcName.andThenOf fun value _ => ?_
  exact makes_pure rfl

end Spec

/-! ### What `doRpc` records -/

/-- The client's half is recorded too. -/
def asked (client : Part) : RoseTree Call → RoseTree Call
  | .node a cs => .node { a with client := some client } cs

theorem nested_asked (client : Part) {t : RoseTree Call} (h : Nested t) : Nested (asked client t) := by
  cases h with
  | node hserved hcalls hnested =>
    exact .node ⟨hserved.debug_eq, hserved.serverRecv, hserved.serverSend, hserved.clientSend, hserved.clientRecv,
      hserved.sr_le_ss, hserved.within⟩ hcalls hnested

theorem recorded_asked (client : Part) {t : RoseTree Call} (h : t.label.client = none) :
    (recorded (asked client t)).Perm (recorded t ++ [client]) := by
  cases t with
  | node a cs =>
    have hclient : a.client = none := h
    rw [asked, recorded, recorded, RoseTree.labels_node, RoseTree.labels_node, List.flatMap_cons, List.flatMap_cons]
    simp only [Call.parts, hclient, Option.toList_some, Option.toList_none, List.cons_append, List.nil_append]
    exact (List.perm_append_singleton client _).symm.cons a.server

/-- What the answer of `doRpc` is about. -/
structure IsRpc (depth : Nat) (time : Int) (ep : Endpoint) (spanId : Int64) (parentSpanId : Option Int64) (returned : Int)
    (t : RoseTree Call) : Prop where
  nested : Nested t
  client_eq : t.label.client = none
  ep_eq : t.label.ep = ep
  id_eq : t.label.server.id = spanId
  parentId_eq : t.label.server.parentId = parentSpanId
  sr_eq : t.label.sr = inMicroseconds (time + milliseconds 1)
  ss_eq : t.label.ss = inMicroseconds returned
  le : time ≤ returned
  ge : returned ≤ time + (depth + 1) * milliseconds 40

/-- What the answer of a call to a downstream service is about. -/
structure IsDownstream (depth : Nat) (curTime : Int) (spanId : Int64) (time : Int) (t : RoseTree Call) : Prop where
  nested : Nested t
  parentId_eq : t.label.server.parentId = some spanId
  asked : ∃ client cs, t.label.Asked client cs (inMicroseconds time) ∧ inMicroseconds curTime ≤ cs
  le : curTime ≤ time
  ge : time ≤ curTime + depth * milliseconds 40 + milliseconds 1

/-- What the calls to downstream services that were answered at these times have recorded. -/
def AreDownstreams (depth : Nat) (curTime : Int) (spanId : Int64) (l : List Part) (times : List Int) (l' : List Part) :
    Prop :=
  (∀ time ∈ times, curTime ≤ time ∧ time ≤ curTime + depth * milliseconds 40 + milliseconds 1) ∧
    ∃ ts : List (RoseTree Call), (∀ t ∈ ts, ∃ time ∈ times, IsDownstream depth curTime spanId time t) ∧
      l'.Perm (l ++ ts.flatMap recorded)

namespace AreDownstreams
variable {depth : Nat} {curTime : Int} {spanId : Int64} {l : List Part} {times : List Int} {l₁ l₂ : List Part}

theorem nil : AreDownstreams depth curTime spanId l [] l := by
  refine ⟨fun _ h => (List.not_mem_nil h).elim, [], fun _ h => (List.not_mem_nil h).elim, ?_⟩
  rw [List.flatMap_nil, List.append_nil]

/-- One more call is answered. -/
theorem concat (h : AreDownstreams depth curTime spanId l times l₁) {time : Int} {t : RoseTree Call}
    (ht : IsDownstream depth curTime spanId time t) (hperm : l₂.Perm (l₁ ++ recorded t)) :
    AreDownstreams depth curTime spanId l (times ++ [time]) l₂ := by
  obtain ⟨hbounds, ts, hts, hl₁⟩ := h
  refine ⟨fun time' htime' => ?_, ts ++ [t], fun u hu => ?_, ?_⟩
  · rcases List.mem_append.1 htime' with htime' | htime'
    · exact hbounds time' htime'
    · obtain rfl := List.mem_singleton.1 htime'
      exact ⟨ht.le, ht.ge⟩
  · rcases List.mem_append.1 hu with hu | hu
    · obtain ⟨time', htime', hcall⟩ := hts u hu
      exact ⟨time', List.mem_append_left _ htime', hcall⟩
    · obtain rfl := List.mem_singleton.1 hu
      exact ⟨time, List.mem_append_right _ List.mem_cons_self, ht⟩
  · rw [List.flatMap_append, List.flatMap_singleton, ← List.append_assoc]
    exact hperm.trans (hl₁.append_right _)

end AreDownstreams

section Rpc
variable {traceId : Int64} {depth : Nat} {rpc : Fin depth → Rpc}
  (hrpc : ∀ (d : Fin depth) {time : Int} (name : String) (ep : Endpoint) (id : Int64) (parent : Option Int64)
    (l : List Part),
    0 ≤ time → Makes (rpc d time name ep id parent) l fun returned l' =>
      ∃ t, IsRpc d time ep id parent returned t ∧ l'.Perm (l ++ recorded t))
include hrpc

theorem makes_downstream (hdepth : 0 < depth) {curTime : Int} (hcur : 0 ≤ curTime) (spanId : Int64) (nextEp : Endpoint)
    (l : List Part) : Makes (downstream traceId depth hdepth rpc curTime spanId nextEp) l fun time l' =>
      ∃ t, IsDownstream depth curTime spanId time t ∧ l'.Perm (l ++ recorded t) := by
  refine makes_nextLong.andThen fun thisSpanId => makes_rndRpcName.andThen fun rpcName => ?_
  refine (makes_nextInt _ _).andThen fun n => (makes_rndDelay n).andThenOf fun delay hdelay => ?_
  refine (makes_nextInt _ _).andThen fun nextDepth => ?_
  refine (hrpc nextDepth rpcName nextEp thisSpanId (some spanId) l hcur).bind fun returned l₁ hreturned => ?_
  obtain ⟨t, ht, hperm⟩ := hreturned
  refine (makes_addSpan _ _ _ _ _ _).bind fun _ l₂ hl₂ => makes_pure ?_
  subst hl₂
  obtain ⟨hdelay, hdelay'⟩ := hdelay
  have hms : milliseconds 1 = 1000000 := rfl
  have hus : microseconds 9 = 9000 := rfl
  -- the client's half is sorted as it is
  let client : Part := .apply traceId rpcName thisSpanId (some spanId)
    [⟨inMicroseconds (curTime + delay), ClientSend, some nextEp⟩,
    ⟨inMicroseconds (returned + milliseconds 1), ClientRecv, some nextEp⟩] []
  have hlt : inMicroseconds (curTime + delay) < inMicroseconds (curTime + milliseconds 1) :=
    inMicroseconds_lt (by omega) (by omega)
  have hlt' : inMicroseconds returned < inMicroseconds (returned + milliseconds 1) :=
    inMicroseconds_lt (hcur.trans ht.le) (by omega)
  have hnext : ((nextDepth : Nat) : Int) + 1 ≤ depth := Int.ofNat_le.2 nextDepth.isLt
  have hge := ht.ge
  refine ⟨asked client t, ⟨nested_asked client ht.nested, ?_, ⟨client, inMicroseconds (curTime + delay), ?_,
    inMicroseconds_mono (by omega)⟩, by have := ht.le; omega, ?_⟩, ?_⟩
  · cases t with | node a cs => exact ht.parentId_eq
  · cases t with
    | node a cs =>
      refine ⟨rfl, rfl, ht.id_eq.symm, ht.parentId_eq.symm, ?_, ht.sr_eq ▸ hlt, ht.ss_eq ▸ hlt'⟩
      have hep : a.ep = nextEp := ht.ep_eq
      rw [show (asked client (.node a cs)).label.ep = nextEp from hep]
      exact StableSort.sorted_perm _ _
  · have hmul : (((nextDepth : Nat) : Int) + 1) * milliseconds 40 ≤ depth * milliseconds 40 :=
      Int.mul_le_mul_of_nonneg_right hnext (by decide)
    omega
  · refine (hperm.append_right _).trans ?_
    rw [List.append_assoc]
    exact ((recorded_asked client ht.client_eq).symm).append_left l

/-- **The calls to downstream services** are served within the time that they take together. -/
theorem makes_downstreams {curTime : Int} (hcur : 0 ≤ curTime) (spanId : Int64) (l : List Part) :
    Makes (downstreams traceId depth rpc curTime spanId) l fun endTime l' =>
      (curTime ≤ endTime ∧ endTime ≤ curTime + depth * milliseconds 40 + milliseconds 1) ∧ ∃ ts : List (RoseTree Call),
        (∀ t ∈ ts, ∃ time ≤ endTime, IsDownstream depth curTime spanId time t) ∧ l'.Perm (l ++ ts.flatMap recorded) := by
  unfold downstreams
  split
  · rename_i hdepth
    refine (makes_nextInt _ _).andThen fun n => ?_
    have hstep : ∀ a ∈ List.range (n.val + 2), ∀ times l₁, AreDownstreams depth curTime spanId l times l₁ →
        Makes (withEndpoint (downstream traceId depth hdepth rpc curTime spanId)) l₁ fun time l₂ =>
          AreDownstreams depth curTime spanId l (times ++ [time]) l₂ := by
      rintro - - times l₁ htimes
      refine makes_withEndpoint fun ep => (makes_downstream hrpc hdepth hcur spanId ep l₁).imp fun time l₂ ht => ?_
      obtain ⟨t, ht, hperm⟩ := ht
      exact htimes.concat ht hperm
    have hloop := makes_mapM (I := AreDownstreams depth curTime spanId l) (l := l) .nil hstep
    refine hloop.bind fun times l' htimes => makes_pure ?_
    obtain ⟨hlength, hbounds, ts, hts, hperm⟩ := htimes
    rw [List.length_range] at hlength
    -- there are at least two of them
    cases hmax : times.max? with
    | none =>
      rw [List.max?_eq_none_iff.1 hmax] at hlength
      cases hlength
    | some endTime =>
      obtain ⟨hmem, hle⟩ := List.max?_eq_some_iff.1 hmax
      refine ⟨hbounds endTime hmem, ts, fun t ht => ?_, hperm⟩
      obtain ⟨time, htime, hcall⟩ := hts t ht
      exact ⟨time, hle time htime, hcall⟩
  · refine makes_pure ⟨⟨Int.le_refl _, ?_⟩, [], fun _ h => (List.not_mem_nil h).elim,
      by rw [List.flatMap_nil, List.append_nil]⟩
    have : (0 : Int) ≤ depth * milliseconds 40 := Int.mul_nonneg (Int.natCast_nonneg _) (by decide)
    have hms : milliseconds 1 = 1000000 := rfl
    omega

end Rpc

/-- The annotations of a server's half. -/
theorem served_of_perm {c : Call} {annos : List Annotation} (hdebug : c.server.debug = false) (hle : c.sr ≤ c.ss)
    (hannos : ∀ a ∈ annos, a.value ∈ serviceNames ∧ c.sr ≤ a.timestamp ∧ a.timestamp ≤ c.ss)
    (hperm : c.server.annotations.Perm (⟨c.sr, ServerRecv, some c.ep⟩ :: annos ++ [⟨c.ss, ServerSend, some c.ep⟩])) :
    c.Served := by
  have hfilter : ∀ value, (∀ a ∈ annos, a.value ≠ value) → (c.server.annotations.filter (·.value == value)).Perm
      ([(⟨c.sr, ServerRecv, some c.ep⟩ : Annotation)].filter (·.value == value) ++
        [(⟨c.ss, ServerSend, some c.ep⟩ : Annotation)].filter (·.value == value)) := fun value h => by
    have hnone : annos.filter (·.value == value) = [] :=
      List.filter_eq_nil_iff.2 fun a ha heq => h a ha (beq_iff_eq.1 heq)
    refine (hperm.filter _).trans (.of_eq ?_)
    rw [List.filter_append, ← List.singleton_append, List.filter_append, hnone, List.append_nil]
  refine ⟨hdebug, List.perm_singleton.1 (hfilter ServerRecv fun a ha => (not_mem_core (hannos a ha).1).1),
    List.perm_singleton.1 (hfilter ServerSend fun a ha => (not_mem_core (hannos a ha).1).2.1),
    List.perm_nil.1 (hfilter ClientSend fun a ha => (not_mem_core (hannos a ha).1).2.2.1),
    List.perm_nil.1 (hfilter ClientRecv fun a ha => (not_mem_core (hannos a ha).1).2.2.2), hle, fun a ha => ?_⟩
  · have hmem := hperm.mem_iff.1 ha
    rw [List.cons_append, List.mem_cons, List.mem_append, List.mem_singleton] at hmem
    rcases hmem with rfl | hmem | rfl
    · exact ⟨Int.le_refl _, hle⟩
    · exact (hannos a hmem).2
    · exact ⟨hle, Int.le_refl _⟩

/-- **`doRpc` goes through, and records a call that has its own calls within it.** -/
theorem makes_doRpc (traceId : Int64) (depth : Nat) {time : Int} (name : String) (ep : Endpoint) (spanId : Int64)
    (parentSpanId : Option Int64) (l : List Part) (htime : 0 ≤ time) :
    Makes (doRpc traceId depth time name ep spanId parentSpanId) l fun returned l' =>
      ∃ t, IsRpc depth time ep spanId parentSpanId returned t ∧ l'.Perm (l ++ recorded t) := by
  rw [doRpc]
  have hms : ∀ n, milliseconds n = n * 1000000 := fun _ => rfl
  refine (makes_nextInt _ _).andThen fun n => (makes_svrBinAnnos ep _).andThen fun binAnnos => ?_
  refine (makes_nextInt _ _).andThen fun work => (makes_nextInt _ _).andThen fun m => ?_
  refine (makes_svrAnnos ep _ _).andThenOf fun annos hannos => ?_
  obtain ⟨hstart, hend, hannos⟩ := hannos
  have hwork := work.isLt
  have hm := m.isLt
  rw [hms, hms, hms, Int.natCast_add] at hend
  rw [hms, hms] at hstart
  refine (makes_downstreams (fun d _ => makes_doRpc traceId d) (by omega) spanId l).bind fun curTime l₁ hcur => ?_
  obtain ⟨⟨hle, hge⟩, ts, hts, hperm⟩ := hcur
  refine (makes_addSpan _ _ _ _ _ _).bind fun _ l₂ hl₂ => makes_pure ?_
  subst hl₂
  let call : Call := {
    ep := ep
    sr := inMicroseconds (time + milliseconds 1)
    ss := inMicroseconds curTime
    server := .apply traceId name spanId parentSpanId (⟨inMicroseconds (time + milliseconds 1), ServerRecv, some ep⟩ ::
      annos.1 ++ [⟨inMicroseconds curTime, ServerSend, some ep⟩]) binAnnos
    client := none }
  have hwithin : ∀ a ∈ annos.1, a.value ∈ serviceNames ∧ call.sr ≤ a.timestamp ∧ a.timestamp ≤ call.ss := fun a ha => by
    obtain ⟨hvalue, hlow, hhigh⟩ := hannos a ha
    refine ⟨hvalue, (inMicroseconds_mono ?_).trans hlow, hhigh.trans (inMicroseconds_mono hle)⟩
    rw [hms, hms]
    omega
  have hserved : call.Served :=
    served_of_perm rfl (inMicroseconds_mono (by rw [hms]; omega)) hwithin (StableSort.sorted_perm _ _)
  refine ⟨.node call ts, ⟨.node hserved (fun c hc => ?_) (fun c hc => ?_), rfl, rfl, rfl, rfl, rfl, rfl,
    by omega, ?_⟩, ?_⟩
  · obtain ⟨t, ht, hcall⟩ := hts c hc
    obtain ⟨client, cs, hasked, hcs⟩ := hcall.asked
    refine ⟨hcall.parentId_eq, client, cs, _, hasked, (inMicroseconds_mono ?_).trans hcs, inMicroseconds_mono ht⟩
    rw [hms]
    omega
  · obtain ⟨t, -, hcall⟩ := hts c hc
    exact hcall.nested
  · rw [hms] at hge ⊢
    rw [hms] at hge
    rw [Int.add_mul, Int.one_mul]
    omega
  · refine (hperm.append_right _).trans ?_
    rw [List.append_assoc, recorded, RoseTree.labels_node, List.flatMap_cons, List.flatMap_assoc]
    exact (List.perm_append_comm).append_left l
termination_by depth
decreasing_by exact d.isLt

/-- **Every trace is that of a call without a client**, in the eight hours before `now` and a bit more. -/
theorem yields_genTrace {maxDepth now : Int} (hdepth : 0 < maxDepth) (hnow : 8 * 3600000000000 ≤ now) (s : State) :
    Yields (genTrace maxDepth now) s fun spans _ => ∃ t : RoseTree Call, Nested t ∧ t.label.client = none ∧
      t.label.server.parentId = none ∧ 0 ≤ t.label.sr ∧ t.label.ss ≤ inMicroseconds (now + maxDepth * milliseconds 40) ∧
        spans.Perm (recorded t) := by
  have hmax : 0 < maxDepth.toNat := Int.lt_toNat.2 hdepth
  have hms : ∀ n, milliseconds n = n * 1000000 := fun _ => rfl
  refine (makes_nextInt 8 _ s rfl).bind fun hours s₁ _ => (makes_nextLong s₁ rfl).bind fun traceId s₂ _ => ?_
  have hhours := hours.isLt
  -- the `GenTrace` is new
  refine Yields.bind (Q := fun _ s' => s'.spans = []) ⟨(), { s₂ with spans := [] }, rfl, rfl⟩ fun _ s₃ hs₃ => ?_
  have hmakes : Makes (withEndpoint fun ep => if h : 0 < maxDepth.toNat then do
      let depth ← nextInt maxDepth.toNat h
      let name ← rndRpcName
      let spanId ← nextLong
      doRpc traceId depth (now - (hours.val + 1) * 3600000000000) name ep spanId none
    else throw ⟨"IllegalArgumentException", "bound must be positive"⟩) [] fun returned l =>
      ∃ (depth : Fin maxDepth.toNat) (ep : Endpoint) (spanId : Int64) (t : RoseTree Call),
        IsRpc depth (now - (hours.val + 1) * 3600000000000) ep spanId none returned t ∧ l.Perm (recorded t) := by
    refine makes_withEndpoint fun ep => ?_
    rw [dif_pos hmax]
    refine (makes_nextInt _ _).andThen fun depth => makes_rndRpcName.andThen fun name => ?_
    refine makes_nextLong.andThen fun spanId => (makes_doRpc traceId depth name ep spanId none [] (by omega)).imp ?_
    rintro returned l ⟨t, ht, hperm⟩
    exact ⟨depth, ep, spanId, t, ht, hperm⟩
  refine (hmakes s₃ hs₃).bind fun returned s₄ hreturned => ⟨s₄.spans, s₄, rfl, ?_⟩
  obtain ⟨depth, ep, spanId, t, ht, hperm⟩ := hreturned
  have hle := ht.le
  have hge := ht.ge
  have hlt := depth.isLt
  rw [hms] at hge
  refine ⟨t, ht.nested, ht.client_eq, ht.parentId_eq, ?_, ?_, hperm⟩
  · rw [ht.sr_eq]
    exact Int.tdiv_nonneg (by rw [hms]; omega) (by decide)
  · rw [ht.ss_eq]
    refine inMicroseconds_mono ?_
    rw [hms]
    omega

end TraceGen
end Zipkin
