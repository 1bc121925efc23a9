import Mathlib.Data.List.Basic
/-!
# Following — values that are passed on late

`Follows written shown`: what is shown was written, and is shown in the order in which it was written.  A value that was
written may be passed over, and one that is shown may be shown again.  Both lists are latest first.  What follows a copy
follows the original (`Follows.trans`), so that several stages of which each passes values on late are one.
-/
namespace Following

variable {α β : Type*}

inductive Follows : List α → List α → Prop
  | start : Follows [] []
  | write {written shown : List α} (a : α) : Follows written shown → Follows (a :: written) shown
  | read {written shown : List α} {a : α} : Follows (a :: written) shown → Follows (a :: written) (a :: shown)

namespace Follows

variable {written shown : List α} {a : α}

theorem nil : ∀ written : List α, Follows written []
  | [] => start
  | a :: written => (nil written).write a

theorem singleton : ∀ {written : List α}, a ∈ written → Follows written [a]
  | b :: written, h => by
    rcases List.mem_cons.1 h with rfl | h
    · exact (nil (a :: written)).read
    · exact (singleton h).write b

/-- The latest value is shown. -/
theorem show_head (h : Follows written shown) (ha : written.head? = some a) : Follows written (a :: shown) := by
  cases written with
  | nil => cases ha
  | cons b written =>
    obtain rfl := Option.some.inj ha
    exact h.read

theorem of_cons (h : Follows written (a :: shown)) : Follows written shown := by
  generalize hs : a :: shown = s at h
  induction h with
  | start => cases hs
  | write b _ ih => exact (ih hs).write b
  | read h _ =>
    obtain ⟨rfl, rfl⟩ := List.cons.inj hs
    exact h

/-- What was shown at an earlier time. -/
theorem of_suffix {earlier : List α} (h : Follows written shown) (hsuffix : earlier <:+ shown) : Follows written earlier := by
  obtain ⟨later, rfl⟩ := hsuffix
  induction later with
  | nil => exact h
  | cons a later ih => exact ih h.of_cons

theorem mem (h : Follows written shown) : ∀ {b : α}, b ∈ shown → b ∈ written := by
  induction h with
  | start => exact fun hb => hb
  | write a _ ih => exact fun hb => List.mem_cons_of_mem a (ih hb)
  | read _ ih =>
    intro b hb
    rcases List.mem_cons.1 hb with rfl | hb
    · exact List.mem_cons_self
    · exact ih hb

/-- **What follows a copy follows the original.** -/
theorem trans {copied : List α} (h : Follows written copied) (h' : Follows copied shown) : Follows written shown := by
  induction h generalizing shown with
  | start => exact h'
  | write a _ ih => exact (ih h').write a
  | read h ih =>
    -- what the copy shows last is what was written last
    generalize hc : _ :: _ = copied at h'
    induction h' with
    | start => cases hc
    | write b h' _ =>
      obtain ⟨rfl, rfl⟩ := List.cons.inj hc
      exact ih h'
    | read _ ih' =>
      have hshown := ih' hc
      obtain ⟨rfl, rfl⟩ := List.cons.inj hc
      exact hshown.read

theorem map (f : α → β) (h : Follows written shown) : Follows (written.map f) (shown.map f) := by
  induction h with
  | start => exact start
  | write a _ ih => exact ih.write (f a)
  | read _ ih => exact ih.read

end Follows
end Following
