import Zipkin.RedisMatches
/-!
# RedisInterleaved — spans that are indexed at one time

A call of `index` sends its commands without waiting for the answers, and so do other calls, of this collector and of others.
Whatever the order in which Redis takes them, the names that are listed are the same, and so are the traces that are found:
only the score of a trace is that of the span whose command came last.
-/
namespace Zipkin
namespace RedisIndex

open Effect AssocMap

variable {libs : RedisLibs} {ttl : Option Int64} {spans : List (Span ByteBuffer)} {r : Redis}

/-! ## Commands -/

inductive Command
  | sAdd (key member : String)
  | zAdd (key : String) (score : Int) (member : Int64)
deriving DecidableEq, Repr

def Command.run (r : Redis) : Command → Redis
  | .sAdd key member => (exec (Redis.sAdd key member) r).2
  | .zAdd key score member => (exec (Redis.zAdd key score member) r).2

/-- The commands in the order in which they are taken. -/
abbrev runAll (cs : List Command) : Redis := cs.foldl Command.run {}

/-- What a call of `index` sends. -/
def commands (libs : RedisLibs) (span : Span ByteBuffer) : List Command :=
  (names libs span).map (fun e => .sAdd e.1.1 e.1.2) ++ (entries libs span).map fun e => .zAdd e.1.1 e.2 e.1.2

theorem foldl_sAdd : ∀ (l : List ((String × String) × Unit)) (r : Redis),
    (l.map fun e => Command.sAdd e.1.1 e.1.2).foldl Command.run r = { r with sets := putAll l r.sets }
  | [], _ => rfl
  | e :: l, r => by
    rw [List.map_cons, List.foldl_cons, foldl_sAdd l]
    rfl

theorem foldl_zAdd : ∀ (l : List ((String × Int64) × Int)) (r : Redis),
    (l.map fun e => Command.zAdd e.1.1 e.2 e.1.2).foldl Command.run r = { r with zsets := putAll l r.zsets }
  | [], _ => rfl
  | e :: l, r => by
    rw [List.map_cons, List.foldl_cons, foldl_zAdd l]
    rfl

/-- **A call alone** is its commands in their order. -/
theorem exec_index_eq (span : Span ByteBuffer) (r : Redis) :
    exec (index libs span) r = (result libs span, (commands libs span).foldl Command.run r) := by
  rw [exec_index, commands, List.foldl_append, foldl_sAdd, foldl_zAdd]

/-! ## In any order -/

section AnyOrder
variable {cs : List Command}

theorem mem_sets_iff {key member : String} :
    (key, member) ∈ (cs.foldl Command.run r).sets.map Prod.fst ↔
      .sAdd key member ∈ cs ∨ (key, member) ∈ r.sets.map Prod.fst := by
  induction cs using List.reverseRecOn with
  | nil => exact ⟨Or.inr, fun h => h.resolve_left List.not_mem_nil⟩
  | append_singleton cs c ih =>
    rw [List.foldl_append, List.foldl_cons, List.foldl_nil, List.mem_append, List.mem_singleton]
    cases c with
    | sAdd key' member' =>
      have hkeys : (key, member) ∈ (Command.run (cs.foldl Command.run r) (.sAdd key' member')).sets.map Prod.fst ↔
          (key, member) = (key', member') ∨ (key, member) ∈ (cs.foldl Command.run r).sets.map Prod.fst := mem_keys_put
      rw [hkeys, ih, Command.sAdd.injEq, Prod.mk.injEq, or_left_comm, or_assoc]
    | zAdd key' score' member' =>
      have hkeys : (Command.run (cs.foldl Command.run r) (.zAdd key' score' member')).sets =
          (cs.foldl Command.run r).sets := rfl
      rw [hkeys, ih, or_iff_left (show ¬ Command.sAdd key member = .zAdd key' score' member' from nofun)]

theorem mem_sMembers {key member : String} : member ∈ r.sMembers key ↔ (key, member) ∈ r.sets.map Prod.fst := by
  simp only [Redis.sMembers, List.mem_map, List.mem_filter, beq_iff_eq]
  constructor
  · rintro ⟨⟨_, _⟩, ⟨h, rfl⟩, rfl⟩
    exact h
  · intro h
    exact ⟨_, ⟨h, rfl⟩, rfl⟩

/-- What is in a sorted set was put there. -/
theorem of_mem_zsets {key : String} {score : Int} {member : Int64}
    (h : ((key, member), score) ∈ (cs.foldl Command.run r).zsets) :
    .zAdd key score member ∈ cs ∨ ((key, member), score) ∈ r.zsets := by
  induction cs using List.reverseRecOn with
  | nil => exact Or.inr h
  | append_singleton cs c ih =>
    rw [List.foldl_append, List.foldl_cons, List.foldl_nil] at h
    cases c with
    | sAdd key' member' => exact (ih h).imp_left (List.mem_append_left _)
    | zAdd key' score' member' =>
      rcases mem_put h with heq | h
      · obtain ⟨hkey, rfl⟩ := Prod.mk.inj heq
        obtain ⟨rfl, rfl⟩ := Prod.mk.inj hkey
        exact Or.inl (List.mem_append_right _ List.mem_cons_self)
      · exact (ih h).imp_left (List.mem_append_left _)

/-- What is put there stays, with some score. -/
theorem exists_mem_zsets {key : String} {score : Int} {member : Int64} (h : .zAdd key score member ∈ cs) :
    ∃ score', ((key, member), score') ∈ (cs.foldl Command.run r).zsets := by
  suffices hkeys : (key, member) ∈ (cs.foldl Command.run r).zsets.map Prod.fst by
    obtain ⟨e, he, heq⟩ := List.mem_map.1 hkeys
    exact ⟨e.2, heq ▸ he⟩
  induction cs using List.reverseRecOn with
  | nil => cases h
  | append_singleton cs c ih =>
    rw [List.foldl_append, List.foldl_cons, List.foldl_nil]
    rw [List.mem_append, List.mem_singleton] at h
    cases c with
    | sAdd key' member' => exact ih (h.resolve_right nofun)
    | zAdd key' score' member' =>
      refine mem_keys_put.2 (h.symm.imp (fun heq => ?_) ih)
      obtain ⟨rfl, -, rfl⟩ := Command.zAdd.inj heq
      rfl

end AnyOrder

/-! ## What is listed and what is found -/

section Found
variable {cs : List Command} (hperm : cs.Perm (spans.flatMap (commands libs)))
include hperm

theorem sAdd_mem_iff {key member : String} :
    .sAdd key member ∈ cs ↔ ∃ span ∈ spans, ((key, member), ()) ∈ names libs span := by
  rw [hperm.mem_iff, List.mem_flatMap]
  refine exists_congr fun span => and_congr_right fun _ => ?_
  rw [commands, List.mem_append, List.mem_map, List.mem_map]
  constructor
  · rintro (⟨e, he, heq⟩ | ⟨e, -, heq⟩)
    · obtain ⟨rfl, rfl⟩ := Command.sAdd.inj heq
      exact he
    · cases heq
  · intro h
    exact Or.inl ⟨_, h, rfl⟩

theorem zAdd_mem_iff {key : String} {score : Int} {member : Int64} :
    .zAdd key score member ∈ cs ↔ ∃ span ∈ spans, ((key, member), score) ∈ entries libs span := by
  rw [hperm.mem_iff, List.mem_flatMap]
  refine exists_congr fun span => and_congr_right fun _ => ?_
  rw [commands, List.mem_append, List.mem_map, List.mem_map]
  constructor
  · rintro (⟨e, -, heq⟩ | ⟨e, he, heq⟩)
    · cases heq
    · obtain ⟨rfl, rfl, rfl⟩ := Command.zAdd.inj heq
      exact he
  · intro h
    exact Or.inr ⟨_, h, rfl⟩

theorem mem_getServiceNames {s : String} :
    s ∈ getServiceNames (cs.foldl Command.run {}) ↔ ∃ span ∈ spans, HasService libs span s := by
  have hempty : ∀ key member, ¬ (key, member) ∈ ({} : Redis).sets.map Prod.fst := fun _ _ h => List.not_mem_nil h
  rw [getServiceNames, SetMultimap.get, mem_sMembers, mem_sets_iff, or_iff_left (hempty _ _), sAdd_mem_iff hperm]
  refine exists_congr fun span => and_congr_right fun _ => ?_
  have hkinds : ∀ t, SetMultimap.encodeKey "span" t ≠ SetMultimap.encodeKey "singleton" "services" := fun t h => by
    simpa [SetMultimap.encodeKey, String.toList_append] using congrArg String.toList h
  simp only [names, List.mem_append, List.mem_map, mem_services, Prod.mk.injEq, and_true, true_and, exists_eq_right]
  refine or_iff_left fun h => ?_
  split at h
  · obtain ⟨t, -, heq⟩ := List.mem_map.1 h
    exact hkinds t (Prod.mk.inj (Prod.mk.inj heq).1).1
  · cases h

theorem mem_getSpanNames {s name : String} : name ∈ getSpanNames (cs.foldl Command.run {}) s ↔
    name ≠ "" ∧ ∃ span ∈ spans, HasService libs span s ∧ span.name = name := by
  have hempty : ∀ key member, ¬ (key, member) ∈ ({} : Redis).sets.map Prod.fst := fun _ _ h => List.not_mem_nil h
  rw [getSpanNames, SetMultimap.get, mem_sMembers, mem_sets_iff, or_iff_left (hempty _ _), sAdd_mem_iff hperm]
  have hkinds : ∀ t, SetMultimap.encodeKey "singleton" "services" ≠ SetMultimap.encodeKey "span" t := fun t h => by
    simpa [SetMultimap.encodeKey, String.toList_append] using congrArg String.toList h
  have hinj : ∀ t, SetMultimap.encodeKey "span" t = SetMultimap.encodeKey "span" s ↔ t = s := fun t =>
    String.append_right_inj _
  constructor
  · rintro ⟨span, hspan, hmem⟩
    rcases List.mem_append.1 hmem with hmem | hmem
    · obtain ⟨t, -, heq⟩ := List.mem_map.1 hmem
      exact absurd (Prod.mk.inj (Prod.mk.inj heq).1).1 (hkinds s)
    · split at hmem
      · rename_i hne
        obtain ⟨t, ht, heq⟩ := List.mem_map.1 hmem
        obtain ⟨hkey, rfl⟩ := Prod.mk.inj (Prod.mk.inj heq).1
        exact ⟨hne, span, hspan, (hinj t).1 hkey ▸ mem_services.1 ht, rfl⟩
      · cases hmem
  · rintro ⟨hne, span, hspan, hservice, rfl⟩
    refine ⟨span, hspan, List.mem_append_right _ ?_⟩
    rw [if_pos hne]
    exact List.mem_map.2 ⟨s, mem_services.2 hservice, rfl⟩

/-- What the index has under a key. -/
def listed (ttl : Option Int64) (r : Redis) (key : String) (endTs : Int64) (limit : Int) : List IndexedTraceId :=
  (r.zRevRangeByScore key (toDouble endTs.toInt) (toDouble (TraceIndex.startTs ttl endTs).toInt) limit).map
    fun t => ⟨t.1, toLong t.2⟩

omit hperm in
theorem mem_entries {key : String} {score : Int} {traceId : Int64} {span : Span ByteBuffer} :
    ((key, traceId), score) ∈ entries libs span ↔
      key ∈ indexKeys libs span ∧ span.traceId = traceId ∧ ∃ last ∈ span.lastTimestamp, toDouble last = score := by
  unfold entries Span.lastTimestamp
  cases hlast : span.lastAnnotation with
  | none => simp
  | some last =>
    simp only [List.mem_map, Prod.mk.injEq, Option.map_some, Option.mem_some_iff, exists_eq_left']
    constructor
    · rintro ⟨_, hkey, ⟨rfl, rfl⟩, rfl⟩
      exact ⟨hkey, rfl, rfl⟩
    · rintro ⟨hkey, rfl, rfl⟩
      exact ⟨_, hkey, ⟨rfl, rfl⟩, rfl⟩

/-- **A trace is found under a key** if one of its spans has the key, in whatever order the commands came. -/
theorem exists_listed_iff (hwindow : ∀ span ∈ spans, span.annotations ≠ [] → InSomeWindow ttl span) (key : String)
    {traceId : Int64} : (∃ endTs limit, traceId ∈ (listed ttl (cs.foldl Command.run {}) key endTs limit).map
      IndexedTraceId.traceId) ↔ ∃ span ∈ spans, span.traceId = traceId ∧ span.annotations ≠ [] ∧ key ∈ indexKeys libs span := by
  have hempty : ∀ e, ¬ e ∈ ({} : Redis).zsets := fun _ h => List.not_mem_nil h
  constructor
  · rintro ⟨endTs, limit, hid⟩
    obtain ⟨_, hlisted, rfl⟩ := List.mem_map.1 hid
    obtain ⟨t, ht, rfl⟩ := List.mem_map.1 hlisted
    have hadded := (of_mem_zsets (of_mem_zRevRangeByScore ht).1).resolve_right (hempty _)
    obtain ⟨span, hspan, hentry⟩ := (zAdd_mem_iff hperm).1 hadded
    obtain ⟨hkey, htrace, last, hlast, -⟩ := mem_entries.1 hentry
    refine ⟨span, hspan, htrace, fun hnil => ?_, hkey⟩
    rw [Span.lastTimestamp, Span.lastAnnotation, hnil] at hlast
    cases hlast
  · rintro ⟨span, hspan, rfl, hne, hkey⟩
    obtain ⟨last, hlast, -⟩ := hwindow span hspan hne
    obtain ⟨score, hmem⟩ := exists_mem_zsets (r := {})
      ((zAdd_mem_iff hperm).2 ⟨span, hspan, mem_entries.2 ⟨hkey, rfl, last, hlast, rfl⟩⟩)
    -- the score is of the span whose command came last
    obtain ⟨span', hspan', hentry⟩ := (zAdd_mem_iff hperm).1 ((of_mem_zsets hmem).resolve_right (hempty _))
    obtain ⟨-, -, last', hlast', rfl⟩ := mem_entries.1 hentry
    have hne' : span'.annotations ≠ [] := fun hnil => by
      rw [Span.lastTimestamp, Span.lastAnnotation, hnil] at hlast'
      cases hlast'
    obtain ⟨last'', hlast'', endTs, hmin, hmax⟩ := hwindow span' hspan' hne'
    obtain rfl := Option.some.inj (hlast'.symm.trans hlast'')
    exact ⟨endTs, -1, List.mem_map.2 ⟨_, List.mem_map_of_mem (mem_zRevRangeByScore hmem hmin hmax), rfl⟩⟩

end Found

/-! ## Whatever the order -/

/-- Some query finds the trace. -/
def Finds (query : Int64 → Int → List IndexedTraceId) (traceId : Int64) : Prop :=
  ∃ endTs limit, traceId ∈ (query endTs limit).map IndexedTraceId.traceId

theorem annotations_ne_nil {span : Span ByteBuffer} {s : String} (h : HasService libs span s) : span.annotations ≠ [] :=
  fun hnil => by
    have hmem := h.1
    rw [Span.serviceNames, hnil] at hmem
    exact List.not_mem_nil hmem

theorem serviceKey_mem_indexKeys {span : Span ByteBuffer} {s : String} : serviceIndex.encodeKey s ∈ indexKeys libs span ↔
    HasService libs span s ∨ ∃ t, HasService libs span t ∧ "span:" ++ t ++ ":" ++ span.name = s := by
  rw [mem_indexKeys]
  simp only [spanKey_eq_serviceKey, serviceKey_inj, (serviceKey_ne_annotationKey _ _).symm,
    (serviceKey_ne_binaryAnnotationKey _ _).symm, and_false, exists_false, or_false, exists_eq_right]

/-- **In whatever order Redis takes the commands** of any number of calls, also of calls that throw: the services and span
names that are listed are those of the spans, and a trace is found by a query exactly if one of its spans has the text of
the query. -/
theorem found_in_any_order (libs : RedisLibs) (ttl : Option Int64) (spans : List (Span ByteBuffer)) (cs : List Command)
    (hperm : cs.Perm (spans.flatMap (commands libs)))
    (hwindow : ∀ span ∈ spans, span.annotations ≠ [] → InSomeWindow ttl span) :
    (∀ s, s ∈ getServiceNames (runAll cs) ↔ ∃ span ∈ spans, HasService libs span s) ∧
    (∀ s name, name ∈ getSpanNames (runAll cs) s ↔ name ≠ "" ∧ ∃ span ∈ spans, HasService libs span s ∧ span.name = name) ∧
    (∀ s traceId, Finds (getTraceIdsByName ttl (runAll cs) s none) traceId ↔ ∃ span ∈ spans, span.traceId = traceId ∧
      (HasService libs span s ∨ ∃ t, HasService libs span t ∧ "span:" ++ t ++ ":" ++ span.name = s)) ∧
    ∀ (q : Query) traceId, Finds (fun endTs limit => q.find libs ttl (runAll cs) endTs limit) traceId ↔
      ∃ span ∈ spans, span.traceId = traceId ∧ span.annotations ≠ [] ∧ q.SharesText libs span := by
  refine ⟨fun s => mem_getServiceNames hperm, fun s name => mem_getSpanNames hperm, fun s traceId => ?_, fun q traceId => ?_⟩
  · refine (exists_listed_iff hperm hwindow (serviceIndex.encodeKey s)).trans ?_
    refine exists_congr fun span => and_congr_right fun _ => and_congr_right fun _ => ?_
    rw [serviceKey_mem_indexKeys]
    refine and_iff_right_of_imp ?_
    rintro (h | ⟨t, h, -⟩)
    · exact annotations_ne_nil h
    · exact annotations_ne_nil h
  · have hfind : ∀ endTs limit, q.find libs ttl (runAll cs) endTs limit = listed ttl (runAll cs) (q.key libs) endTs limit :=
      fun endTs limit => Query.find_eq _ endTs limit q
    simp only [Finds, hfind]
    refine (exists_listed_iff hperm hwindow (q.key libs)).trans ?_
    exact exists_congr fun span => and_congr_right fun _ => and_congr_right fun _ => and_congr_right fun _ => key_mem_indexKeys

/-- A span of two services and one of another, with all commands the other way round. -/
theorem found_in_any_order_two : ∃ cs : List Command,
    cs.Perm ([callWith .string (getBytesUtf8 "disk"), colons].flatMap (commands sampleLibs)) ∧
      "db" ∈ getServiceNames (runAll cs) ∧ Finds (getTraceIdsByName none (runAll cs) "a:b" none) 1 := by
  have hperm := List.reverse_perm ([callWith .string (getBytesUtf8 "disk"), colons].flatMap (commands sampleLibs))
  obtain ⟨hservices, -, hfinds, -⟩ := found_in_any_order sampleLibs none _ _ hperm fun span hspan _ => by
    rcases List.mem_pair.1 hspan with rfl | rfl
    · exact ⟨2, by decide, 2, by decide, by decide⟩
    · exact ⟨1, by decide, 1, by decide, by decide⟩
  refine ⟨_, hperm, (hservices "db").2 ⟨_, List.mem_cons_self, ?_⟩, (hfinds "a:b" 1).2 ⟨colons, ?_, rfl, Or.inl ?_⟩⟩
  · unfold HasService
    decide
  · exact List.mem_cons_of_mem _ List.mem_cons_self
  · unfold HasService
    decide

end RedisIndex
end Zipkin
