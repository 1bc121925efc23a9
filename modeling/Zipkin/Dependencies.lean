import Mathlib.Algebra.Ring.Int.Defs
import Zipkin.Base.AssocMap
import Zipkin.Common
/-!
# Dependencies — which service calls which

`Dependencies.scala`.  Links that were found in the traces of an interval, in microseconds from the epoch.  The sum of two
makes a map of the links of each, in which a link replaces an earlier one for the same services, and adds up what the two
maps have for the same services.
-/
namespace Zipkin

open AssocMap

structure DependencyLink where
  parent : String
  child : String
  callCount : Int
deriving DecidableEq, Repr

def DependencyLink.pair (dl : DependencyLink) : String × String := (dl.parent, dl.child)

structure Dependencies where
  startTime : Int
  endTime : Int
  links : List DependencyLink
deriving DecidableEq, Repr

/-- The orders in which the maps of a sum are gone through, as functions of what was put in: each rearranges. -/
structure LinkOrder where
  linkMap : List ((String × String) × DependencyLink) → List ((String × String) × DependencyLink)
  linkMap_perm : ∀ m, (linkMap m).Perm m
  groups : List ((String × String) × List ((String × String) × DependencyLink)) →
    List ((String × String) × List ((String × String) × DependencyLink))
  groups_perm : ∀ m, (groups m).Perm m

def LinkOrder.insertion : LinkOrder where
  linkMap m := m
  linkMap_perm m := .refl m
  groups m := m
  groups_perm m := .refl m

/-- `sum` of `Long`s. -/
def sumLong (l : List Int) : Int := l.foldl (fun acc x => wrap64 (acc + x)) 0

namespace Dependencies

def zero : Dependencies := ⟨0, 0, []⟩

/-- `links.map { link => (link.parent, link.child) -> link }.toMap` -/
def linkMap (links : List DependencyLink) : List ((String × String) × DependencyLink) :=
  putAll (links.map fun link => (link.pair, link)) []

def merged (order : LinkOrder) (lLinkMap rLinkMap : List ((String × String) × DependencyLink)) :
    List ((String × String) × DependencyLink) := order.linkMap lLinkMap ++ order.linkMap rLinkMap

def newLinks (order : LinkOrder) (lLinkMap rLinkMap : List ((String × String) × DependencyLink)) : List DependencyLink :=
  (order.groups (groupBy Prod.fst (merged order lLinkMap rLinkMap))).map fun ((parent, child), links) =>
    ⟨parent, child, sumLong ((links.map Prod.snd).map DependencyLink.callCount)⟩

/-- `+` -/
def add (order : LinkOrder) (this that : Dependencies) : Dependencies :=
  if that = zero then this
  else if this = zero then that
  else
    { startTime := min this.startTime that.startTime
      endTime := max this.endTime that.endTime
      links := newLinks order (linkMap that.links) (linkMap this.links) }

end Dependencies

/-! ## A sum of `Long`s -/

theorem sumLong_eq (l : List Int) : sumLong l = wrap64 l.sum := by
  have hfold : ∀ (l : List Int) (acc : Int), l.foldl (fun acc x => wrap64 (acc + x)) (wrap64 acc) = wrap64 (acc + l.sum) := by
    intro l
    induction l with
    | nil => intro acc; rw [List.foldl_nil, List.sum_nil, Int.add_zero]
    | cons x l ih =>
      intro acc
      have hstep : wrap64 (wrap64 acc + x) = wrap64 (acc + x) := Int.bmod_add_bmod
      rw [List.foldl_cons, hstep, ih, List.sum_cons, Int.add_assoc]
  have hzero : wrap64 0 = 0 := by decide
  rw [sumLong, ← Int.zero_add l.sum, ← hfold l 0, hzero]

end Zipkin
