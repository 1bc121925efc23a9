import Mathlib.Data.List.Basic
/-!
# Words — texts made of words with a separator between them

Words that are put together with a separator are found again by cutting the text there, as long as no word has the
separator in it.  Empty words are lost.
-/
namespace Words

variable {α : Type} [DecidableEq α]

def join (sep : α) (ws : List (List α)) : List α := [sep].intercalate ws

def words (sep : α) (text : List α) : List (List α) := (text.splitOn sep).filter (fun w => decide (w ≠ []))

omit [DecidableEq α] in
theorem join_concat (sep : α) {ws : List (List α)} (h : ws ≠ []) (w : List α) :
    join sep (ws ++ [w]) = join sep ws ++ sep :: w := by
  induction ws with
  | nil => exact absurd rfl h
  | cons v ws ih =>
    cases ws with
    | nil => simp [join]
    | cons v' ws =>
      have hrec := ih (List.cons_ne_nil _ _)
      simp only [join, List.cons_append, List.intercalate_cons_cons] at hrec ⊢
      rw [hrec]
      simp only [List.append_assoc]

omit [DecidableEq α] in
theorem join_eq_nil_iff (sep : α) {ws : List (List α)} (hne : ∀ w ∈ ws, w ≠ []) : join sep ws = [] ↔ ws = [] := by
  constructor
  · intro h
    cases ws with
    | nil => rfl
    | cons w ws =>
      have hw := hne w List.mem_cons_self
      cases ws with
      | nil => exact absurd (by simpa [join] using h) hw
      | cons w' ws => simp [join, hw] at h
  · rintro rfl
    rfl

/-- **Cutting finds the words that were put together**, but for the empty ones. -/
theorem words_join (sep : α) {ws : List (List α)} (hsep : ∀ w ∈ ws, sep ∉ w) :
    words sep (join sep ws) = ws.filter (fun w => decide (w ≠ [])) := by
  cases ws with
  | nil => rfl
  | cons w ws => rw [words, join, List.splitOn_intercalate sep hsep (List.cons_ne_nil _ _)]

end Words
