import Mathlib.Algebra.Group.WithOne.Basic
import Mathlib.Data.ZMod.Basic
import Zipkin.Base.SumTree
import Zipkin.DependencySums
/-!
# DependencyMonoid — sums of dependencies in any order

Where links are unique and no interval ends before it starts, `+` is addition in a commutative monoid: that of the start, the
end and the calls of each parent and child, with an element for no dependencies at all (`isSum_add`).  Two dependencies with
the same totals are the same up to the order of links (`same_of_totals_eq`).
-/
namespace Zipkin

open AssocMap PerKey

namespace Dependencies

/-- Links that are unique for a parent and a child, with calls that are `Long`s, in an interval that does not end before it
starts. -/
structure WellFormed (d : Dependencies) : Prop where
  nodup : (d.links.map DependencyLink.pair).Nodup
  long : ∀ link ∈ d.links, -2 ^ 63 ≤ link.callCount ∧ link.callCount < 2 ^ 63
  ordered : d.startTime ≤ d.endTime

/-- The same interval and the same links, which may be in another order. -/
structure Same (d d' : Dependencies) : Prop where
  startTime : d.startTime = d'.startTime
  endTime : d.endTime = d'.endTime
  links : d.links.Perm d'.links

/-! ## What is added up -/

/-- An interval, and the calls of a parent and a child in a `Long`, if there is a link for them. -/
@[ext] structure Totals where
  startTime : Int
  endTime : Int
  calls : String × String → WithZero (ZMod (2 ^ 64))

instance : AddCommSemigroup Totals where
  add t t' := ⟨min t.startTime t'.startTime, max t.endTime t'.endTime, t.calls + t'.calls⟩
  add_assoc _ _ _ := Totals.ext (min_assoc _ _ _) (max_assoc _ _ _) (add_assoc _ _ _)
  add_comm _ _ := Totals.ext (min_comm _ _) (max_comm _ _) (add_comm _ _)

def linkCalls (links : List DependencyLink) (pair : String × String) : WithZero (ZMod (2 ^ 64)) :=
  ((links.filter fun link => decide (link.pair = pair)).map fun link =>
    (((link.callCount : ZMod (2 ^ 64))) : WithZero (ZMod (2 ^ 64)))).sum

/-- `zero` is for no dependencies at all. -/
def totals (d : Dependencies) : WithZero Totals :=
  if d = zero then 0 else ((⟨d.startTime, d.endTime, linkCalls d.links⟩ : Totals) : WithZero Totals)

variable {order order' : LinkOrder} {links links' : List DependencyLink} {a b : Dependencies} {pair : String × String}

theorem linkCalls_append (links links' : List DependencyLink) :
    linkCalls (links ++ links') = linkCalls links + linkCalls links' := by
  funext pair
  rw [linkCalls, List.filter_append, List.map_append, List.sum_append]
  rfl

theorem linkCalls_of_not_mem (h : pair ∉ links.map DependencyLink.pair) : linkCalls links pair = 0 := by
  have hnone : links.filter (fun link => decide (link.pair = pair)) = [] := List.filter_eq_nil_iff.2 (fun link hlink hpair =>
    h (of_decide_eq_true hpair ▸ List.mem_map_of_mem hlink))
  rw [linkCalls, hnone, List.map_nil, List.sum_nil]

theorem linkCalls_of_mem (h : pair ∈ links.map DependencyLink.pair) :
    linkCalls links pair = (((calls pair links : Int) : ZMod (2 ^ 64)) : WithZero (ZMod (2 ^ 64))) := by
  have hsum : ∀ {l : List DependencyLink}, l ≠ [] →
      (l.map fun link => (((link.callCount : ZMod (2 ^ 64))) : WithZero (ZMod (2 ^ 64)))).sum =
        ((((l.map DependencyLink.callCount).sum : Int) : ZMod (2 ^ 64)) : WithZero (ZMod (2 ^ 64))) := by
    intro l hne
    induction l with
    | nil => exact absurd rfl hne
    | cons link l ih =>
      by_cases hl : l = []
      · subst hl
        rw [List.map_singleton, List.sum_singleton, List.map_singleton, List.sum_singleton]
      · rw [List.map_cons, List.sum_cons, ih hl, List.map_cons, List.sum_cons, Int.cast_add, WithZero.coe_add]
  obtain ⟨link, hlink, rfl⟩ := List.mem_map.1 h
  exact hsum (List.ne_nil_of_mem (List.mem_filter.2 ⟨hlink, decide_eq_true rfl⟩))

theorem cast_wrap64 (x : Int) : ((wrap64 x : Int) : ZMod (2 ^ 64)) = (x : ZMod (2 ^ 64)) := by
  obtain ⟨q, hq, -⟩ := wrap64_spec x
  rw [ZMod.intCast_eq_intCast_iff_dvd_sub]
  exact ⟨q, by rw [hq]; push_cast; omega⟩

/-! ## The sum -/

/-- **The calls of a sum are those of its operands**, where no link is replaced. -/
theorem linkCalls_newLinks (hlinks : (links.map DependencyLink.pair).Nodup) (hlinks' : (links'.map DependencyLink.pair).Nodup) :
    linkCalls (newLinks order (linkMap links) (linkMap links')) = linkCalls (links ++ links') := by
  funext pair
  by_cases hpair : pair ∈ (links ++ links').map DependencyLink.pair
  · obtain ⟨link, hlink, rfl⟩ := List.mem_map.1 (mem_pair_newLinks.2 hpair)
    have hcalls : calls link.pair (newLinks order (linkMap links) (linkMap links')) = link.callCount :=
      weightAt_of_nodup (nodup_pair_newLinks order _ _) hlink
    rw [linkCalls_of_mem (mem_pair_newLinks.2 hpair), linkCalls_of_mem hpair, hcalls, callCount_of_mem_newLinks hlink,
      lasts_eq_self hlinks, lasts_eq_self hlinks', cast_wrap64]
    exact congrArg _ (congrArg _ (weightAt_append link.pair links links').symm)
  · rw [linkCalls_of_not_mem hpair, linkCalls_of_not_mem (fun h => hpair (mem_pair_newLinks.1 h))]

theorem add_ne_zero (ha : a.WellFormed) (hb : b.WellFormed) (hza : a ≠ zero) (hzb : b ≠ zero) : add order a b ≠ zero := by
  intro hzero
  rw [add_of_ne_zero hza hzb, zero, Dependencies.mk.injEq] at hzero
  obtain ⟨hstart, hend, hlinks⟩ := hzero
  have hnil : (b.links ++ a.links) = [] := by
    rw [List.eq_nil_iff_forall_not_mem]
    intro link hlink
    have hpair : link.pair ∈ (newLinks order (linkMap b.links) (linkMap a.links)).map DependencyLink.pair :=
      mem_pair_newLinks.2 (List.mem_map_of_mem hlink)
    rw [hlinks] at hpair
    exact List.not_mem_nil hpair
  have hle := ha.ordered
  have hle' := hb.ordered
  refine hza ?_
  rw [zero, Dependencies.mk.injEq]
  exact ⟨by omega, by omega, (List.append_eq_nil_iff.1 hnil).2⟩

theorem wellFormed_zero : zero.WellFormed := ⟨List.nodup_nil, fun _ h => (List.not_mem_nil h).elim, Int.le_refl 0⟩

theorem add_zero_eq (order : LinkOrder) (a : Dependencies) : add order a zero = a := if_pos rfl

theorem zero_add_eq (order : LinkOrder) (a : Dependencies) : add order zero a = a := by
  by_cases ha : a = zero
  · rw [add, if_pos ha, ha]
  · rw [add, if_neg ha, if_pos rfl]

/-- **A sum has links that are unique again**, and does not end before it starts. -/
theorem WellFormed.add (ha : a.WellFormed) (hb : b.WellFormed) : (add order a b).WellFormed := by
  by_cases hzb : b = zero
  · rw [hzb, add_zero_eq]; exact ha
  by_cases hza : a = zero
  · rw [hza, zero_add_eq]; exact hb
  rw [add_of_ne_zero hza hzb]
  refine ⟨nodup_pair_newLinks order _ _, fun link hlink => ?_, ?_⟩
  · obtain ⟨_, -, hlong⟩ := wrap64_spec (calls link.pair (lasts DependencyLink.pair b.links) +
      calls link.pair (lasts DependencyLink.pair a.links))
    rw [callCount_of_mem_newLinks hlink]
    exact hlong
  · have hle := ha.ordered
    show min a.startTime b.startTime ≤ max a.endTime b.endTime
    omega

/-- **`+` adds the totals.** -/
theorem totals_add (ha : a.WellFormed) (hb : b.WellFormed) : totals (add order a b) = totals a + totals b := by
  by_cases hzb : b = zero
  · rw [hzb, add_zero_eq, totals, totals, if_pos rfl, add_zero]
  by_cases hza : a = zero
  · rw [hza, zero_add_eq, totals, totals, if_pos rfl, zero_add]
  rw [totals, if_neg (add_ne_zero ha hb hza hzb), totals, if_neg hza, totals, if_neg hzb, ← WithZero.coe_add,
    add_of_ne_zero hza hzb, linkCalls_newLinks hb.nodup ha.nodup, linkCalls_append, add_comm (linkCalls b.links)]
  rfl

theorem isSum_add (order : LinkOrder) : SumTree.IsSum WellFormed totals zero (add order) where
  prop_zero := wellFormed_zero
  prop_add := WellFormed.add
  image_zero := if_pos rfl
  image_add := totals_add

/-! ## What the totals tell -/

theorem linkCalls_of_mem_links (ha : a.WellFormed) {link : DependencyLink} (h : link ∈ a.links) :
    linkCalls a.links link.pair = (((link.callCount : Int) : ZMod (2 ^ 64)) : WithZero (ZMod (2 ^ 64))) := by
  have hcalls : calls link.pair a.links = link.callCount := weightAt_of_nodup ha.nodup h
  rw [linkCalls_of_mem (List.mem_map_of_mem h), hcalls]

theorem mem_links_of_linkCalls_eq (ha : a.WellFormed) (hb : b.WellFormed) (heq : linkCalls a.links = linkCalls b.links)
    {link : DependencyLink} (h : link ∈ a.links) : link ∈ b.links := by
  have hlink := linkCalls_of_mem_links ha h
  rw [heq] at hlink
  by_cases hpair : link.pair ∈ b.links.map DependencyLink.pair
  · obtain ⟨link', hlink', hpair'⟩ := List.mem_map.1 hpair
    rw [← hpair', linkCalls_of_mem_links hb hlink', WithZero.coe_inj, ZMod.intCast_eq_intCast_iff_dvd_sub] at hlink
    have hlong := ha.long link h
    have hlong' := hb.long link' hlink'
    -- two `Long`s that differ by a multiple of 2 ^ 64
    have hcount : link.callCount = link'.callCount := by
      obtain ⟨q, hq⟩ := hlink
      push_cast at hq
      omega
    obtain ⟨hparent, hchild⟩ := Prod.mk.inj hpair'
    have hself : link = link' := by
      cases link; cases link'
      simp only [DependencyLink.mk.injEq]
      exact ⟨hparent.symm, hchild.symm, hcount⟩
    rwa [hself]
  · rw [linkCalls_of_not_mem hpair] at hlink
    exact absurd hlink WithZero.zero_ne_coe

/-- **Two dependencies with the same totals** are the same up to the order of links. -/
theorem same_of_totals_eq (ha : a.WellFormed) (hb : b.WellFormed) (h : totals a = totals b) : Same a b := by
  by_cases hza : a = zero <;> by_cases hzb : b = zero
  · rw [hza, hzb]
    exact ⟨rfl, rfl, .refl _⟩
  · rw [totals, totals, if_pos hza, if_neg hzb] at h
    exact absurd h WithZero.zero_ne_coe
  · rw [totals, totals, if_neg hza, if_pos hzb] at h
    exact absurd h WithZero.coe_ne_zero
  · rw [totals, totals, if_neg hza, if_neg hzb, WithZero.coe_inj, Totals.mk.injEq] at h
    obtain ⟨hstart, hend, hcalls⟩ := h
    refine ⟨hstart, hend, (List.perm_ext_iff_of_nodup ha.nodup.of_map hb.nodup.of_map).2 (fun link => ?_)⟩
    exact ⟨mem_links_of_linkCalls_eq ha hb hcalls, mem_links_of_linkCalls_eq hb ha hcalls.symm⟩

theorem totals_add_add (ha : a.WellFormed) (hb : b.WellFormed) {c : Dependencies} (hc : c.WellFormed) :
    totals (add order (add order a b) c) = totals (add order' a (add order' b c)) := by
  rw [totals_add (ha.add hb) hc, totals_add ha hb, totals_add ha (hb.add hc), totals_add hb hc, add_assoc]

/-- **Sums of well-formed dependencies**: `+` is associative and commutative up to the order of links, `zero` is its identity,
and a sum of the same dependencies in another order and grouping is the same. -/
theorem sum_any_order (order order' : LinkOrder) :
    (∀ a, add order a zero = a ∧ add order zero a = a) ∧
    (∀ a b, a.WellFormed → b.WellFormed → Same (add order a b) (add order' b a)) ∧
    (∀ a b c, a.WellFormed → b.WellFormed → c.WellFormed →
      Same (add order (add order a b) c) (add order' a (add order' b c))) ∧
    ∀ t t' : SumTree Dependencies, (∀ d ∈ t.elements, d.WellFormed) → t.elements.Perm t'.elements →
      Same (t.eval zero (add order)) (t'.eval zero (add order')) := by
  refine ⟨fun a => ⟨add_zero_eq order a, zero_add_eq order a⟩, fun a b ha hb => ?_, fun a b c ha hb hc => ?_,
    fun t t' ht hperm => ?_⟩
  · refine same_of_totals_eq (ha.add hb) (hb.add ha) ?_
    rw [totals_add ha hb, totals_add hb ha, add_comm]
  · exact same_of_totals_eq ((ha.add hb).add hc) (ha.add (hb.add hc)) (totals_add_add ha hb hc)
  · have ht' : ∀ d ∈ t'.elements, d.WellFormed := fun d hd => ht d (hperm.mem_iff.2 hd)
    exact same_of_totals_eq ((isSum_add order).prop_eval ht) ((isSum_add order').prop_eval ht')
      ((isSum_add order).image_eq_of_perm (isSum_add order') ht hperm)

/-- Three hours, added up from the first and from the last. -/
theorem sum_any_order_threeHours :
    Same (add .insertion (add .insertion firstHour secondHour) thirdHour)
      (add .insertion thirdHour (add .insertion zero (add .insertion secondHour firstHour))) := by
  refine (sum_any_order .insertion .insertion).2.2.2 (.add (.add (.one firstHour) (.one secondHour)) (.one thirdHour))
    (.add (.one thirdHour) (.add .zero (.add (.one secondHour) (.one firstHour)))) (fun d hd => ?_) (by decide)
  have hcases : d = firstHour ∨ d = secondHour ∨ d = thirdHour := by simpa [SumTree.elements] using hd
  rcases hcases with rfl | rfl | rfl
  · exact ⟨by decide, by decide, by decide⟩
  · exact ⟨by decide, by decide, by decide⟩
  · exact ⟨by decide, by decide, by decide⟩

end Dependencies

end Zipkin
