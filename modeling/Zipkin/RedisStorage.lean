import Mathlib.Data.List.Perm.Basic
import Mathlib.Logic.Equiv.List
import Mathlib.Tactic.DeriveEncodable
import Std.Data.String.ToInt
import Zipkin.RedisIndex
import Zipkin.Thrift
/-!
# RedisStorage — the spans of a trace in Redis

`RedisStorage.scala` and `RedisSnappyCodec.scala`.  The list of a trace has the bytes of its spans, the last one stored
first.  A read decodes all of them and throws if one cannot be decoded; `getSpansByTraceIds_answers` says that spans made
of structs can be, and that a read returns each once for each time it was stored.
-/
namespace Zipkin

open Effect AssocMap StableSort

namespace Redis

def lPush (key : String) (value : List UInt8) : Effect Throwable Redis Unit :=
  .of fun r => (.ok (), { r with lists := put key (value :: (r.lists.lookup key).getD []) r.lists })

/-- `LRANGE key start stop`: an index below zero counts from the end. -/
def lRange (r : Redis) (key : String) (start stop : Int) : List (List UInt8) :=
  let l := (r.lists.lookup key).getD []
  let index (i : Int) : Int := if i < 0 then l.length + i else i
  (l.take (index stop + 1).toNat).drop (index start).toNat

theorem lRange_all (r : Redis) (key : String) : r.lRange key 0 (-1) = (r.lists.lookup key).getD [] := by
  unfold lRange
  dsimp only
  rw [if_neg (by decide), if_pos (by decide), Int.neg_add_cancel_right, Int.toNat_natCast, List.take_length]
  rfl

end Redis

/-- The thrift serializer and Snappy, which decode what they encode. -/
structure RedisSnappyThriftCodec where
  toBytes : thriftscala.Span → List UInt8
  fromBytes : List UInt8 → Except Throwable thriftscala.Span
  fromBytes_toBytes : ∀ t, fromBytes (toBytes t) = .ok t
  compress : List UInt8 → List UInt8
  uncompress : List UInt8 → Except Throwable (List UInt8)
  uncompress_compress : ∀ bytes, uncompress (compress bytes) = .ok bytes

namespace RedisSnappyThriftCodec

variable (codec : RedisSnappyThriftCodec)

def encode (t : thriftscala.Span) : List UInt8 := codec.compress (codec.toBytes t)

def decode (cb : List UInt8) : Except Throwable thriftscala.Span := do
  let uncompressedArr ← codec.uncompress cb
  codec.fromBytes uncompressedArr

theorem decode_encode (t : thriftscala.Span) : codec.decode (codec.encode t) = .ok t := by
  rw [decode, encode, codec.uncompress_compress]
  exact codec.fromBytes_toBytes t

end RedisSnappyThriftCodec

namespace RedisStorage

section Definitions
variable (codec : RedisSnappyThriftCodec) (generated : Generated)

def encodeTraceId (traceId : Int64) : String := "full_span:" ++ toString traceId.toInt

def storeSpan (span : Span (List UInt8)) : Effect Throwable Redis Unit :=
  match span.toThrift with
  | .error e => throw e
  | .ok thrift => Redis.lPush (encodeTraceId span.traceId) (codec.encode thrift)

def decodeSpan (buf : List UInt8) : Except Throwable (Span (List UInt8)) := do
  let span ← codec.decode buf
  span.toSpan generated

def getSpansByTraceId (r : Redis) (traceId : Int64) : Except Throwable (List (Span (List UInt8))) := do
  let spans ← (r.lRange (encodeTraceId traceId) 0 (-1)).mapM (decodeSpan codec generated)
  pure (sorted Ord.compare spans)

def getSpansByTraceIds (r : Redis) (traceIds : List Int64) : Except Throwable (List (List (Span (List UInt8)))) := do
  let traces ← traceIds.mapM (getSpansByTraceId codec generated r)
  -- prune empties, and sort traces by the first span
  pure (sorted Span.compareHeads (traces.filter (fun trace => !trace.isEmpty)))

end Definitions

variable {codec : RedisSnappyThriftCodec} {generated : Generated} {spans : List (Span (List UInt8))}
  {traceIds : List Int64} {r : Redis}

/-! ## What is stored -/

def spansOf (traceId : Int64) (spans : List (Span (List UInt8))) : List (Span (List UInt8)) :=
  spans.filter (fun span => span.traceId == traceId)

/-- The list of each trace has the spans that were stored for it, the last one first. -/
def Holds (codec : RedisSnappyThriftCodec) (generated : Generated) (spans : List (Span (List UInt8))) (r : Redis) : Prop :=
  ∀ traceId, (r.lRange (encodeTraceId traceId) 0 (-1)).mapM (decodeSpan codec generated) = .ok (spansOf traceId spans).reverse

theorem encodeTraceId_inj {a b : Int64} : encodeTraceId a = encodeTraceId b ↔ a = b := by
  refine ⟨fun h => ?_, congrArg encodeTraceId⟩
  exact Int64.toInt_inj.1 (Int.repr_inj.1 ((String.append_right_inj _).1 h))

/-- **A span that was made of a struct is stored at the head of its trace**, and all other traces are as they were. -/
theorem holds_storeSpan {span : Span (List UInt8)} (himage : span.InImage generated) (hholds : Holds codec generated spans r) :
    ∃ r', exec (storeSpan codec span) r = (.ok (), r') ∧ Holds codec generated (spans ++ [span]) r' := by
  obtain ⟨struct, hstruct, hspan⟩ := himage.roundTrips
  have hdecode : decodeSpan codec generated (codec.encode struct) = .ok span := by
    rw [decodeSpan, codec.decode_encode]
    exact hspan
  refine ⟨_, by rw [storeSpan, hstruct]; rfl, fun traceId => ?_⟩
  have hother := hholds traceId
  rw [Redis.lRange_all] at hother ⊢
  dsimp only
  rw [lookup_put, spansOf, List.filter_append, List.reverse_append]
  by_cases h : traceId = span.traceId
  · subst h
    rw [if_pos rfl, Option.getD_some, List.mapM_cons, hdecode, hother, List.filter_singleton, beq_self_eq_true]
    rfl
  · have hkey : ¬ encodeTraceId traceId = encodeTraceId span.traceId := fun heq => h (encodeTraceId_inj.1 heq)
    have hid : (span.traceId == traceId) = false := beq_false_of_ne (Ne.symm h)
    rw [if_neg hkey, hother, List.filter_singleton, hid]
    rfl

theorem holds_mapM : ∀ {l before : List (Span (List UInt8))} {r : Redis}, (∀ span ∈ l, span.InImage generated) →
    Holds codec generated before r → ∃ r', exec (l.mapM (storeSpan codec)) r = (.ok (l.map fun _ => ()), r') ∧
      Holds codec generated (before ++ l) r'
  | [], _, r, _, hholds => ⟨r, rfl, by rwa [List.append_nil]⟩
  | span :: l, _, _, himage, hholds => by
    obtain ⟨r₁, hexec₁, hholds₁⟩ := holds_storeSpan (himage span List.mem_cons_self) hholds
    obtain ⟨r₂, hexec₂, hholds₂⟩ := holds_mapM (fun s hs => himage s (List.mem_cons_of_mem _ hs)) hholds₁
    refine ⟨r₂, ?_, by rwa [List.append_assoc] at hholds₂⟩
    rw [mapM_cons, exec_bind_ok hexec₁, exec_map, hexec₂]
    rfl

/-- **The lists after any run**: each span is in the list of its trace as often as it was stored. -/
theorem holds_each (himage : ∀ span ∈ spans, span.InImage generated) :
    ∃ r, exec (RedisIndex.each spans (storeSpan codec)) {} = (.ok (), r) ∧ Holds codec generated spans r := by
  have hempty : Holds codec generated [] {} := fun traceId => by
    rw [Redis.lRange_all]
    rfl
  obtain ⟨r, hexec, hholds⟩ := holds_mapM himage hempty
  refine ⟨r, ?_, hholds⟩
  rw [RedisIndex.each, exec_map, hexec]
  rfl

/-! ## What is read -/

/-- A read of the ids returns one list for each id that has spans.  It is made up of the spans stored for the id, each as
often as it was stored, and is ascending in their first timestamps; and so are the lists in those of their first spans. -/
structure Answers (spans : List (Span (List UInt8))) (traceIds : List Int64)
    (traces : List (List (Span (List UInt8)))) : Prop where
  spans_of_ids : ∃ ids, ids.Perm (traceIds.filter (fun id => spansOf id spans ≠ [])) ∧
    List.Forall₂ (fun trace id => trace.Perm (spansOf id spans)) traces ids
  ascending : ∀ trace ∈ traces, trace.Pairwise (fun a b => a.firstTimestamp.getD 0 ≤ b.firstTimestamp.getD 0)
  heads_ascending : traces.Pairwise (fun trace trace' =>
    ∀ a ∈ trace.head?, ∀ b ∈ trace'.head?, a.firstTimestamp.getD 0 ≤ b.firstTimestamp.getD 0)

/-- The spans of a trace as a read returns them. -/
def readTrace (spans : List (Span (List UInt8))) (traceId : Int64) : List (Span (List UInt8)) :=
  sorted Ord.compare (spansOf traceId spans).reverse

theorem readTrace_perm (spans : List (Span (List UInt8))) (traceId : Int64) :
    (readTrace spans traceId).Perm (spansOf traceId spans) :=
  (sorted_perm _ _).trans (List.reverse_perm _)

theorem getSpansByTraceIds_eq (hholds : Holds codec generated spans r) : getSpansByTraceIds codec generated r traceIds =
    .ok (sorted Span.compareHeads ((traceIds.filter (fun id => spansOf id spans ≠ [])).map (readTrace spans))) := by
  have htrace : ∀ id ∈ traceIds, getSpansByTraceId codec generated r id = .ok (readTrace spans id) := fun id _ => by
    rw [getSpansByTraceId, hholds id]
    rfl
  have htraces : traceIds.mapM (getSpansByTraceId codec generated r) = .ok (traceIds.map (readTrace spans)) := by
    rw [← mapM_map_eq_ok (g := fun id => id) htrace, List.map_id']
  have hempty : ∀ id ∈ traceIds, ((fun trace : List (Span (List UInt8)) => !trace.isEmpty) ∘ readTrace spans) id =
      decide (spansOf id spans ≠ []) := fun id _ => by
    rw [Function.comp_apply, (readTrace_perm spans id).isEmpty_eq]
    cases spansOf id spans <;> rfl
  rw [getSpansByTraceIds, htraces]
  dsimp only [bind, Except.bind, pure, Except.pure]
  rw [List.filter_map, List.filter_congr hempty]

theorem le_of_le_compareHeads {a b : Span (List UInt8)} {trace trace' : List (Span (List UInt8))}
    (h : le Span.compareHeads trace trace') (ha : trace.head? = some a) (hb : trace'.head? = some b) :
    a.firstTimestamp.getD 0 ≤ b.firstTimestamp.getD 0 := by
  unfold le Span.compareHeads at h
  rw [ha, hb] at h
  exact Span.firstTimestamp_le_of_le h

/-- **Spans that were made of structs are read as they were stored.** -/
theorem getSpansByTraceIds_answers (himage : ∀ span ∈ spans, span.InImage generated) (traceIds : List Int64) :
    ∃ r traces, exec (RedisIndex.each spans (storeSpan codec)) {} = (.ok (), r) ∧
      getSpansByTraceIds codec generated r traceIds = .ok traces ∧ Answers spans traceIds traces := by
  obtain ⟨r, hexec, hholds⟩ : ∃ r, exec (RedisIndex.each spans (storeSpan codec)) {} = (.ok (), r) ∧
      Holds codec generated spans r := holds_each himage
  refine ⟨r, _, hexec, getSpansByTraceIds_eq hholds, ?_, fun trace htrace => ?_, ?_⟩
  · have hread : List.Forall₂ (fun trace id => trace.Perm (spansOf id spans))
        ((traceIds.filter (fun id => spansOf id spans ≠ [])).map (readTrace spans))
        (traceIds.filter (fun id => spansOf id spans ≠ [])) := by
      rw [List.forall₂_map_left_iff]
      exact List.forall₂_same.2 (fun id _ => readTrace_perm spans id)
    obtain ⟨ids, hids, hperm⟩ := List.perm_comp_forall₂ (sorted_perm Span.compareHeads _) hread
    exact ⟨ids, hperm, hids⟩
  · obtain ⟨id, -, rfl⟩ := List.mem_map.1 ((sorted_perm _ _).mem_iff.1 htrace)
    exact (pairwise_sorted _ _).imp Span.firstTimestamp_le_of_le
  · exact (pairwise_sorted _ _).imp (fun h a ha b hb => le_of_le_compareHeads h ha hb)

/-! ## An instance -/

section Encodable

instance encodableUInt8 : Encodable UInt8 := .ofLeftInverse UInt8.toNat UInt8.ofNat (fun _ => UInt8.ofNat_toNat)
instance encodableInt16 : Encodable Int16 := .ofLeftInverse Int16.toInt Int16.ofInt Int16.ofInt_toInt
instance encodableInt32 : Encodable Int32 := .ofLeftInverse Int32.toInt Int32.ofInt Int32.ofInt_toInt
instance encodableInt64 : Encodable Int64 := .ofLeftInverse Int64.toInt Int64.ofInt Int64.ofInt_toInt
instance encodableChar : Encodable Char := .ofLeftInverse Char.toNat Char.ofNat Char.ofNat_toNat
instance encodableString : Encodable String := .ofLeftInverse String.toList String.ofList (fun _ => String.ofList_toList)

deriving instance Encodable for thriftscala.Endpoint
deriving instance Encodable for thriftscala.Annotation
deriving instance Encodable for thriftscala.AnnotationType
deriving instance Encodable for thriftscala.BinaryAnnotation
deriving instance Encodable for thriftscala.Span

end Encodable

/-- A struct is written as a number, in unary. -/
def sampleCodec : RedisSnappyThriftCodec where
  toBytes t := List.replicate (Encodable.encode t) 0
  fromBytes bytes := ((Encodable.decode bytes.length).map .ok).getD (.error ⟨"TProtocolException", ""⟩)
  fromBytes_toBytes t := by rw [List.length_replicate, Encodable.encodek]; rfl
  compress bytes := bytes
  uncompress bytes := .ok bytes
  uncompress_compress _ := rfl

def sampleGenerated : Generated := ⟨fun _ => "String", fun _ => ""⟩

def sampleSpan (traceId : Int64) (timestamp : Int) : Span (List UInt8) :=
  .apply traceId "get" 7 none [⟨timestamp, "sr", some ⟨0, 80, "web"⟩⟩] [⟨"key", [1], ⟨6, "String"⟩, none⟩]

theorem inImage_sampleSpan {traceId : Int64} {timestamp : Int} (h : 0 < timestamp) :
    (sampleSpan traceId timestamp).InImage sampleGenerated := by
  refine ⟨⟨traceId, some "get", 7, none, some [⟨timestamp, "sr", some ⟨0, 80, some "web"⟩⟩],
    some [⟨"key", [1], .STRING, none⟩], false⟩, ?_⟩
  have hannotation : thriftscala.Annotation.toAnnotation sampleGenerated ⟨timestamp, "sr", some ⟨0, 80, some "web"⟩⟩ =
      .ok ⟨timestamp, "sr", some ⟨0, 80, "web"⟩⟩ := by
    rw [thriftscala.Annotation.toAnnotation, if_neg (Int.not_le.2 h)]
    rfl
  rw [thriftscala.Span.toSpan]
  dsimp only [Option.getD_some]
  rw [List.mapM_cons, hannotation]
  rfl

/-- The later span of a trace is stored first. -/
theorem getSpansByTraceIds_answers_sample :
    ∃ r traces, exec (RedisIndex.each [sampleSpan 1 20, sampleSpan 2 15, sampleSpan 1 10] (storeSpan sampleCodec)) {} =
        (.ok (), r) ∧
      getSpansByTraceIds sampleCodec sampleGenerated r [3, 2, 1] = .ok traces ∧
      Answers [sampleSpan 1 20, sampleSpan 2 15, sampleSpan 1 10] [3, 2, 1] traces := by
  refine getSpansByTraceIds_answers (fun span hspan => ?_) [3, 2, 1]
  simp only [List.mem_cons, List.not_mem_nil, or_false] at hspan
  rcases hspan with rfl | rfl | rfl <;> exact inImage_sampleSpan (by decide)

end RedisStorage
end Zipkin
