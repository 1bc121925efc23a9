import Zipkin.Base.PerKey
import Zipkin.Dependencies
/-!
# DependencySums — the links of a sum

A sum has one link for each parent and child of its operands (`map_pair_newLinks`), with the calls that the two maps have
for them: those of the last link of each operand (`callCount_of_mem_newLinks`).  Calls of earlier links for the same services
are lost, unless they make up nothing (`sumsCalls_iff`).
-/
namespace Zipkin

open AssocMap PerKey

namespace Dependencies

variable {order : LinkOrder} {links links' : List DependencyLink} {a b : Dependencies} {pair : String × String}

def calls (pair : String × String) (links : List DependencyLink) : Int :=
  weightAt DependencyLink.pair DependencyLink.callCount pair links

/-- The calls of the links that the map of an operand does not keep, because a later one is for the same services. -/
def replacedCalls (pair : String × String) (links : List DependencyLink) : Int :=
  replacedAt DependencyLink.pair DependencyLink.callCount pair links

/-! ## The maps of the operands -/

theorem linkMap_perm (order : LinkOrder) (links : List DependencyLink) :
    (order.linkMap (linkMap links)).Perm ((lasts DependencyLink.pair links).map fun link => (link.pair, link)) :=
  (order.linkMap_perm _).trans (putAll_map_perm DependencyLink.pair id links)

theorem merged_perm (order : LinkOrder) (links links' : List DependencyLink) :
    (merged order (linkMap links) (linkMap links')).Perm
      ((lasts DependencyLink.pair links ++ lasts DependencyLink.pair links').map fun link => (link.pair, link)) := by
  rw [merged, List.map_append]
  exact (linkMap_perm order links).append (linkMap_perm order links')

theorem mem_keys_merged : pair ∈ (merged order (linkMap links) (linkMap links')).map Prod.fst ↔
    pair ∈ (links ++ links').map DependencyLink.pair := by
  rw [((merged_perm order links links').map Prod.fst).mem_iff, List.map_map]
  have hfst : (Prod.fst ∘ fun link : DependencyLink => (link.pair, link)) = DependencyLink.pair := rfl
  rw [hfst, List.map_append, List.map_append, List.mem_append, List.mem_append, mem_keys_lasts, mem_keys_lasts]

theorem sum_merged (order : LinkOrder) (links links' : List DependencyLink) (pair : String × String) :
    ((((merged order (linkMap links) (linkMap links')).filter fun e => decide (e.1 = pair)).map Prod.snd).map
      DependencyLink.callCount).sum =
      calls pair (lasts DependencyLink.pair links) + calls pair (lasts DependencyLink.pair links') := by
  have hperm := (((merged_perm order links links').filter fun e => decide (e.1 = pair)).map Prod.snd).map DependencyLink.callCount
  rw [hperm.sum_eq, calls, calls, ← weightAt_append, weightAt, List.filter_map, List.map_map, List.map_map]
  rfl

/-! ## The links of a sum -/

theorem map_pair_newLinks (order : LinkOrder) (lLinkMap rLinkMap : List ((String × String) × DependencyLink)) :
    ((newLinks order lLinkMap rLinkMap).map DependencyLink.pair).Perm
      ((merged order lLinkMap rLinkMap).map Prod.fst).dedup := by
  rw [newLinks, List.map_map, ← map_fst_groupBy]
  exact (order.groups_perm _).map Prod.fst

theorem nodup_pair_newLinks (order : LinkOrder) (lLinkMap rLinkMap : List ((String × String) × DependencyLink)) :
    ((newLinks order lLinkMap rLinkMap).map DependencyLink.pair).Nodup :=
  (map_pair_newLinks order lLinkMap rLinkMap).nodup_iff.2 (List.nodup_dedup _)

/-- **A link for each parent and child that an operand has.** -/
theorem mem_pair_newLinks : pair ∈ (newLinks order (linkMap links) (linkMap links')).map DependencyLink.pair ↔
    pair ∈ (links ++ links').map DependencyLink.pair := by
  rw [(map_pair_newLinks order _ _).mem_iff, List.mem_dedup, mem_keys_merged]

/-- **The calls of a link**, as far as the maps have them, in a `Long`. -/
theorem callCount_of_mem_newLinks {link : DependencyLink} (h : link ∈ newLinks order (linkMap links) (linkMap links')) :
    link.callCount = wrap64 (calls link.pair (lasts DependencyLink.pair links) +
      calls link.pair (lasts DependencyLink.pair links')) := by
  obtain ⟨⟨pair, group⟩, hmem, rfl⟩ := List.mem_map.1 h
  obtain ⟨-, rfl⟩ := mem_groupBy.1 ((order.groups_perm _).mem_iff.1 hmem)
  exact (sumLong_eq _).trans (congrArg wrap64 (sum_merged order links links' pair))

theorem add_of_ne_zero (ha : a ≠ zero) (hb : b ≠ zero) : add order a b =
    ⟨min a.startTime b.startTime, max a.endTime b.endTime, newLinks order (linkMap b.links) (linkMap a.links)⟩ := by
  rw [add, if_neg hb, if_neg ha]

/-! ## When no call is lost -/

/-- What the sum of `a` and `b` should be: over the time of both, with one link for each parent and child that one of them
has, and all their calls. -/
structure SumsCalls (a b sum : Dependencies) : Prop where
  startTime : sum.startTime = min a.startTime b.startTime
  endTime : sum.endTime = max a.endTime b.endTime
  pairs : ∀ pair, pair ∈ sum.links.map DependencyLink.pair ↔ pair ∈ (a.links ++ b.links).map DependencyLink.pair
  calls : Sums DependencyLink.pair DependencyLink.callCount sum.links (a.links ++ b.links)

/-- The calls fit into a `Long`, and those of links that are replaced make up nothing in it. -/
structure KeepsCalls (a b : Dependencies) (pair : String × String) : Prop where
  fits : -2 ^ 63 ≤ calls pair (a.links ++ b.links) ∧ calls pair (a.links ++ b.links) < 2 ^ 63
  replaced : (2 ^ 64 : Int) ∣ replacedCalls pair a.links + replacedCalls pair b.links

theorem wrap64_calls_eq_iff : wrap64 (calls pair (lasts DependencyLink.pair b.links) +
    calls pair (lasts DependencyLink.pair a.links)) = calls pair (a.links ++ b.links) ↔ KeepsCalls a b pair := by
  have hleft : calls pair (lasts DependencyLink.pair a.links) + replacedCalls pair a.links = calls pair a.links :=
    weightAt_lasts pair a.links
  have hright : calls pair (lasts DependencyLink.pair b.links) + replacedCalls pair b.links = calls pair b.links :=
    weightAt_lasts pair b.links
  have happend : calls pair (a.links ++ b.links) = calls pair a.links + calls pair b.links :=
    weightAt_append pair a.links b.links
  have hlost : calls pair (a.links ++ b.links) - (calls pair (lasts DependencyLink.pair b.links) +
      calls pair (lasts DependencyLink.pair a.links)) = replacedCalls pair a.links + replacedCalls pair b.links := by
    omega
  rw [wrap64_eq_iff, hlost]
  exact ⟨fun h => ⟨h.1, h.2⟩, fun h => ⟨h.fits, h.replaced⟩⟩

/-- **When a sum has all calls**: those of a link fit, and an operand has several links for the same services only where the
calls of all but the last make up nothing. -/
theorem sumsCalls_iff (order : LinkOrder) (ha : a ≠ zero) (hb : b ≠ zero) : SumsCalls a b (add order a b) ↔
    ∀ pair ∈ (a.links ++ b.links).map DependencyLink.pair, KeepsCalls a b pair := by
  have hpairs : ∀ pair, pair ∈ (newLinks order (linkMap b.links) (linkMap a.links)).map DependencyLink.pair ↔
      pair ∈ (a.links ++ b.links).map DependencyLink.pair := by
    intro pair
    rw [mem_pair_newLinks, List.map_append, List.map_append, List.mem_append, List.mem_append, or_comm]
  rw [add_of_ne_zero ha hb]
  constructor
  · intro h pair hpair
    obtain ⟨link, hlink, rfl⟩ := List.mem_map.1 ((hpairs pair).2 hpair)
    rw [← wrap64_calls_eq_iff, ← callCount_of_mem_newLinks hlink]
    exact h.calls.weight_eq link hlink
  · intro h
    refine ⟨rfl, rfl, hpairs, nodup_pair_newLinks order _ _, fun link hlink => ?_⟩
    rw [callCount_of_mem_newLinks hlink]
    exact wrap64_calls_eq_iff.2 (h _ ((hpairs _).1 (List.mem_map_of_mem hlink)))

/-- Calls from `web` to `query`, in an hour. -/
def firstHour : Dependencies := ⟨0, 3600000000, [⟨"web", "query", 18⟩]⟩

def secondHour : Dependencies := ⟨3600000000, 7200000000, [⟨"web", "query", 42⟩, ⟨"query", "redis", 2⟩]⟩

/-- No pair repeats in an hour. -/
theorem sumsCalls_twoHours : SumsCalls firstHour secondHour (add .insertion firstHour secondHour) := by
  refine (sumsCalls_iff .insertion (by decide) (by decide)).2 (fun pair hpair => ?_)
  have hcases : pair = ("web", "query") ∨ pair = ("query", "redis") := by
    simpa [firstHour, secondHour, DependencyLink.pair] using hpair
  rcases hcases with rfl | rfl
  · exact ⟨by decide, by decide⟩
  · exact ⟨by decide, by decide⟩

/-- Both hours, as they are read from a store. -/
def bothHours : Dependencies := ⟨0, 7200000000, firstHour.links ++ secondHour.links⟩

def thirdHour : Dependencies := ⟨7200000000, 10800000000, [⟨"web", "query", 1⟩]⟩

/-- The 18 calls of the first hour are lost. -/
theorem not_sumsCalls_bothHours : ¬ SumsCalls bothHours thirdHour (add .insertion bothHours thirdHour) := by
  intro h
  exact absurd (h.calls.weight_eq ⟨"web", "query", 43⟩ (by decide)) (by decide)

end Dependencies

end Zipkin
