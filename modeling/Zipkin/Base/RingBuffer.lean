import Mathlib.Data.List.Induction
import Mathlib.Data.List.TakeDrop
/-!
# RingBuffer — a buffer that keeps the last elements

An element that is added to a full buffer takes the place of the oldest, and a buffer of size zero keeps nothing.
`pushAll_eq` says what is in it after any number of additions.
-/

namespace RingBuffer

variable {α : Type*} (maxSize : Nat)

/-- Oldest first. -/
def push (buffer : List α) (a : α) : List α :=
  if maxSize = 0 then buffer
  else (if buffer.length < maxSize then buffer else buffer.tail) ++ [a]

def pushAll (l : List α) : List α := l.foldl (push maxSize) []

theorem push_drop (l : List α) (a : α) : push maxSize (l.drop (l.length - maxSize)) a =
    (l ++ [a]).drop ((l ++ [a]).length - maxSize) := by
  rw [push, List.length_append, List.length_singleton, List.length_drop]
  split
  · rename_i hzero
    subst hzero
    rw [Nat.sub_zero, Nat.sub_zero, List.drop_length, List.drop_of_length_le (by simp)]
  · split
    · rename_i hzero hroom
      rw [List.drop_append_of_le_length (by omega)]
      congr 2
      omega
    · rename_i hzero hfull
      rw [List.tail_drop, List.drop_append_of_le_length (by omega)]
      congr 2
      omega

/-- **The buffer keeps the last elements.** -/
theorem pushAll_eq (l : List α) : pushAll maxSize l = l.drop (l.length - maxSize) := by
  induction l using List.reverseRecOn with
  | nil => rw [pushAll, List.drop_nil, List.foldl_nil]
  | append_singleton l a ih => rw [pushAll, List.foldl_append, ← pushAll, ih, List.foldl_cons, List.foldl_nil, push_drop]

end RingBuffer
