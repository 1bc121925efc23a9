import Mathlib.Algebra.Ring.Nat
import Mathlib.Data.List.Basic
import Mathlib.Data.List.DropRight
/-!
# Cut — a list cut at a separator

`cut sep s` are the pieces between the occurrences of `sep` in `s`, where occurrences are looked for from the left and do
not overlap.  A piece is found where no occurrence starts in it (`cut_append`), all pieces are found so (`cut_induction`),
and what was put together is found again if no occurrence starts in one of the parts (`cut_intercalate`).  There are never
fewer pieces than parts (`length_le_length_cut`).
-/

namespace Cut

variable {α : Type} [DecidableEq α]

def consHead (a : α) : List (List α) → List (List α)
  | [] => [[a]]
  | piece :: pieces => (a :: piece) :: pieces

/-- The pieces of a list, the first of them without the elements that are left to skip. -/
def cutFrom (sep : List α) : Nat → List α → List (List α)
  | _, [] => [[]]
  | skip + 1, _ :: s => cutFrom sep skip s
  | 0, a :: s => if sep.isPrefixOf (a :: s) then [] :: cutFrom sep (sep.length - 1) s else consHead a (cutFrom sep 0 s)

def cut (sep s : List α) : List (List α) := cutFrom sep 0 s

/-- No occurrence of the separator starts in the piece, if the separator is behind it. -/
def Whole (sep piece : List α) : Prop := ¬ sep <:+: piece ++ sep.dropLast

variable {sep s t piece : List α}

theorem cutFrom_eq (sep : List α) : ∀ skip (s : List α), cutFrom sep skip s = cut sep (s.drop skip)
  | 0, s => by rw [List.drop_zero, cut]
  | skip + 1, [] => rfl
  | skip + 1, a :: s => by rw [cutFrom, cutFrom_eq sep skip s, List.drop_succ_cons]

theorem cut_of_prefix (hsep : sep ≠ []) (s : List α) : cut sep (sep ++ s) = [] :: cut sep s := by
  obtain ⟨a, sep', rfl⟩ := List.exists_cons_of_ne_nil hsep
  have hprefix : (a :: sep').isPrefixOf (a :: (sep' ++ s)) = true := List.isPrefixOf_iff_prefix.2 (List.prefix_append _ _)
  rw [List.cons_append, cut, cutFrom, if_pos hprefix, cutFrom_eq, List.length_cons, Nat.add_sub_cancel,
    List.drop_left]

theorem cut_cons {a : α} (h : ¬ sep <+: a :: s) : cut sep (a :: s) = consHead a (cut sep s) := by
  rw [cut, cutFrom, if_neg (fun hprefix => h (List.isPrefixOf_iff_prefix.1 hprefix)), cut]

omit [DecidableEq α] in
theorem Whole.tail {a : α} (h : Whole sep (a :: piece)) : Whole sep piece := fun hinfix => h (List.infix_cons hinfix)

/-- **A piece is found** where no occurrence starts in it. -/
theorem cut_append (hsep : sep ≠ []) (s : List α) : ∀ {piece : List α}, Whole sep piece →
    cut sep (piece ++ (sep ++ s)) = piece :: cut sep s
  | [], _ => cut_of_prefix hsep s
  | a :: piece, h => by
    have hnot : ¬ sep <+: a :: (piece ++ (sep ++ s)) := by
      intro hprefix
      have hcut : a :: piece ++ sep.dropLast <+: a :: (piece ++ (sep ++ s)) :=
        List.prefix_append_right_inj _ |>.2 ((List.dropLast_prefix sep).trans (List.prefix_append _ _))
      have hlength : sep.length ≤ (a :: piece ++ sep.dropLast).length := by
        simp only [List.length_append, List.length_cons, List.length_dropLast]
        omega
      exact h (List.prefix_of_prefix_length_le hprefix hcut hlength).isInfix
    rw [List.cons_append, cut_cons hnot, cut_append hsep s h.tail, consHead]

theorem cut_eq_singleton : ∀ {s : List α}, ¬ sep <:+: s → cut sep s = [s]
  | [], _ => rfl
  | a :: s, h => by
    rw [List.infix_cons_iff, not_or] at h
    rw [cut_cons h.1, cut_eq_singleton h.2, consHead]

omit [DecidableEq α] in
theorem Whole.not_infix (h : Whole sep piece) : ¬ sep <:+: piece := fun hinfix =>
  h (List.infix_append_of_infix_left hinfix)

omit [DecidableEq α] in
/-- A list without the separator, or its first piece and what is behind the separator. -/
theorem not_infix_or_whole (hsep : sep ≠ []) :
    ∀ s : List α, ¬ sep <:+: s ∨ ∃ piece t, s = piece ++ (sep ++ t) ∧ Whole sep piece
  | [] => .inl fun h => hsep (List.eq_nil_of_infix_nil h)
  | a :: s => by
    by_cases hprefix : sep <+: a :: s
    · obtain ⟨t, ht⟩ := hprefix
      refine .inr ⟨[], t, ht.symm, fun hinfix => ?_⟩
      have hlength := hinfix.length_le
      have hpos := List.length_pos_iff.2 hsep
      rw [List.nil_append, List.length_dropLast] at hlength
      omega
    · rcases not_infix_or_whole hsep s with hnot | ⟨piece, t, rfl, hwhole⟩
      · exact .inl fun hinfix => (List.infix_cons_iff.1 hinfix).elim hprefix hnot
      · refine .inr ⟨a :: piece, t, rfl, fun hinfix => ?_⟩
        rcases List.infix_cons_iff.1 hinfix with hstart | hinfix
        · refine hprefix (hstart.trans ?_)
          exact (List.prefix_append_right_inj (a :: piece)).2 ((List.dropLast_prefix sep).trans (List.prefix_append _ _))
        · exact hwhole hinfix

omit [DecidableEq α] in
/-- **Induction on the pieces.** -/
theorem cut_induction {P : List α → Prop} (hsep : sep ≠ []) (hlast : ∀ s, ¬ sep <:+: s → P s)
    (hcut : ∀ piece s, Whole sep piece → P s → P (piece ++ (sep ++ s))) (s : List α) : P s := by
  induction hn : s.length using Nat.strong_induction_on generalizing s with
  | _ n ih =>
    rcases not_infix_or_whole hsep s with hnot | ⟨piece, t, rfl, hwhole⟩
    · exact hlast s hnot
    · have hpos := List.length_pos_iff.2 hsep
      have hlt : t.length < n := by
        simp only [← hn, List.length_append]
        omega
      exact hcut piece t hwhole (ih _ hlt t rfl)

theorem cut_ne_nil (hsep : sep ≠ []) (s : List α) : cut sep s ≠ [] := by
  induction s using cut_induction hsep with
  | hlast s h =>
    rw [cut_eq_singleton h]
    exact List.cons_ne_nil _ _
  | hcut piece s hwhole ih =>
    rw [cut_append hsep s hwhole]
    exact List.cons_ne_nil _ _

theorem intercalate_cut (hsep : sep ≠ []) (s : List α) : sep.intercalate (cut sep s) = s := by
  induction s using cut_induction hsep with
  | hlast s h => rw [cut_eq_singleton h, List.intercalate_singleton]
  | hcut piece s hwhole ih =>
    rw [cut_append hsep s hwhole, List.intercalate_cons_of_ne_nil (cut_ne_nil hsep s), ih, List.append_assoc]

theorem whole_of_mem_dropLast (hsep : sep ≠ []) {s piece : List α} (h : piece ∈ (cut sep s).dropLast) : Whole sep piece := by
  induction s using cut_induction hsep with
  | hlast s hnot =>
    rw [cut_eq_singleton hnot] at h
    cases h
  | hcut first s hwhole ih =>
    rw [cut_append hsep s hwhole, List.dropLast_cons_of_ne_nil (cut_ne_nil hsep s), List.mem_cons] at h
    rcases h with rfl | h
    · exact hwhole
    · exact ih h

theorem not_infix_of_mem (hsep : sep ≠ []) {s piece : List α} (h : piece ∈ cut sep s) : ¬ sep <:+: piece := by
  induction s using cut_induction hsep with
  | hlast s hnot =>
    rw [cut_eq_singleton hnot, List.mem_singleton] at h
    rw [h]
    exact hnot
  | hcut first s hwhole ih =>
    rw [cut_append hsep s hwhole, List.mem_cons] at h
    rcases h with rfl | h
    · exact hwhole.not_infix
    · exact ih h

/-- **What was put together is found again**, if the separator starts in none of the parts. -/
theorem cut_intercalate (hsep : sep ≠ []) : ∀ {parts : List (List α)}, parts ≠ [] → (∀ p ∈ parts.dropLast, Whole sep p) →
    (∀ p ∈ parts, ¬ sep <:+: p) → cut sep (sep.intercalate parts) = parts
  | [p], _, _, hnot => by rw [List.intercalate_singleton, cut_eq_singleton (hnot p List.mem_cons_self)]
  | p :: q :: parts, _, hwhole, hnot => by
    rw [List.dropLast_cons_of_ne_nil (List.cons_ne_nil _ _)] at hwhole
    have hrec := cut_intercalate hsep (List.cons_ne_nil q parts) (fun p' hp' => hwhole p' (List.mem_cons_of_mem p hp'))
      (fun p' hp' => hnot p' (List.mem_cons_of_mem p hp'))
    rw [List.intercalate_cons_of_ne_nil (List.cons_ne_nil _ _), List.append_assoc,
      cut_append hsep _ (hwhole p List.mem_cons_self), hrec]

omit [DecidableEq α] in
theorem length_le_of_whole {part : List α} (hwhole : Whole sep piece) (h : piece ++ (sep ++ s) = part ++ (sep ++ t)) :
    piece.length ≤ part.length := by
  by_contra hlt
  rw [Nat.not_le] at hlt
  have hpart : part ++ sep <+: piece ++ (sep ++ s) := by
    rw [h, ← List.append_assoc]
    exact List.prefix_append _ _
  have hpiece : piece ++ sep.dropLast <+: piece ++ (sep ++ s) :=
    (List.prefix_append_right_inj piece).2 ((List.dropLast_prefix sep).trans (List.prefix_append _ _))
  have hprefix : part ++ sep <+: piece ++ sep.dropLast := by
    refine List.prefix_of_prefix_length_le hpart hpiece ?_
    simp only [List.length_append, List.length_dropLast]
    omega
  exact hwhole ((List.suffix_append part sep).isInfix.trans hprefix.isInfix)

/-- **There are never fewer pieces than parts.** -/
theorem length_le_length_cut (hsep : sep ≠ []) (s : List α) :
    ∀ {parts : List (List α)}, parts ≠ [] → sep.intercalate parts = s → parts.length ≤ (cut sep s).length := by
  induction s using cut_induction hsep with
  | hlast s hnot =>
    intro parts hne hparts
    match parts, hne with
    | [p], _ => exact List.length_pos_iff.2 (cut_ne_nil hsep s)
    | p :: q :: parts, _ =>
      rw [List.intercalate_cons_cons] at hparts
      exact absurd ⟨p, sep.intercalate (q :: parts), hparts⟩ hnot
  | hcut piece s hwhole ih =>
    intro parts hne hparts
    rw [cut_append hsep s hwhole, List.length_cons]
    match parts, hne with
    | [p], _ => exact Nat.succ_le_succ (Nat.zero_le _)
    | p :: q :: parts, _ =>
      rw [List.intercalate_cons_cons, List.append_assoc] at hparts
      have hle := length_le_of_whole hwhole hparts.symm
      -- the piece and its separator end before the part's does, and the rest of that goes to the next part
      have hpiece : piece ++ sep <+: piece ++ (sep ++ s) := by
        rw [← List.append_assoc]
        exact List.prefix_append _ _
      have hpart : p ++ sep <+: piece ++ (sep ++ s) := by
        rw [← hparts, ← List.append_assoc]
        exact List.prefix_append _ _
      obtain ⟨rest, hrest⟩ : piece ++ sep <+: p ++ sep := by
        refine List.prefix_of_prefix_length_le hpiece hpart ?_
        simp only [List.length_append]
        omega
      have htail : rest ++ sep.intercalate (q :: parts) = s := by
        rw [← List.append_assoc, ← List.append_assoc piece, ← hrest, List.append_assoc] at hparts
        exact List.append_cancel_left hparts
      have hjoin : sep.intercalate ((rest ++ q) :: parts) = s := by
        rw [← htail]
        cases parts with
        | nil => rw [List.intercalate_singleton, List.intercalate_singleton]
        | cons r parts => simp only [List.intercalate_cons_cons, List.append_assoc]
      have hrec := ih (List.cons_ne_nil (rest ++ q) parts) hjoin
      exact Nat.succ_le_succ hrec

omit [DecidableEq α] in
theorem length_intercalate_add (sep : List α) : ∀ {parts : List (List α)}, parts ≠ [] →
    (sep.intercalate parts).length + sep.length = (parts.map fun p => p.length + sep.length).sum
  | [p], _ => by rw [List.intercalate_singleton, List.map_singleton, List.sum_singleton]
  | p :: q :: parts, _ => by
    have hrec := length_intercalate_add sep (List.cons_ne_nil q parts)
    rw [List.intercalate_cons_of_ne_nil (List.cons_ne_nil _ _), List.map_cons, List.sum_cons, ← hrec, List.length_append,
      List.length_append]
    omega

/-- The pieces without the empty ones at the end, but at least one if nothing is cut. -/
def split (sep s : List α) : List (List α) :=
  match cut sep s with
  | [piece] => [piece]
  | pieces => pieces.rdropWhile List.isEmpty

theorem exists_cut_eq_split (sep s : List α) : ∃ n, cut sep s = split sep s ++ List.replicate n [] := by
  rw [split]
  split
  next piece heq => exact ⟨0, by rw [heq, List.replicate_zero, List.append_nil]⟩
  next =>
    refine ⟨((cut sep s).rtakeWhile List.isEmpty).length, ?_⟩
    have hempty : (cut sep s).rtakeWhile List.isEmpty =
        List.replicate ((cut sep s).rtakeWhile List.isEmpty).length [] :=
      List.eq_replicate_iff.2 ⟨rfl, fun p hp => List.isEmpty_iff.1 (List.mem_rtakeWhile_imp hp)⟩
    rw [← hempty, List.rdropWhile_append_rtakeWhile]

theorem split_of_cut_singleton {piece : List α} (h : cut sep s = [piece]) : split sep s = [piece] := by
  rw [split, h]

theorem split_of_getLast {pieces : List (List α)} (h : cut sep s = pieces) (hne : pieces ≠ [])
    (hlast : pieces.getLast hne ≠ []) : split sep s = pieces := by
  subst h
  rw [split]
  split
  next piece heq => exact heq.symm
  next => exact List.rdropWhile_eq_self_iff.2 fun hl => by rwa [List.isEmpty_iff]

/-! ## Readings

A reading takes some of the pieces for values, none of them for more than it weighs. -/

section
variable {β γ : Type} {read : β → Option γ} {heavy : β → Nat} {weight : γ → Nat}

theorem sum_filterMap_le (h : ∀ b c, read b = some c → weight c ≤ heavy b) :
    ∀ l : List β, ((l.filterMap read).map weight).sum ≤ (l.map heavy).sum
  | [] => le_rfl
  | b :: l => by
    have hrec := sum_filterMap_le h l
    rw [List.map_cons, List.sum_cons]
    cases hb : read b with
    | none =>
      rw [List.filterMap_cons_none hb]
      omega
    | some c =>
      have hle := h b c hb
      rw [List.filterMap_cons_some hb, List.map_cons, List.sum_cons]
      omega

/-- **Values that weigh as much as the pieces are one for each piece**, and each of them weighs as much as its piece. -/
theorem exists_of_sum_filterMap (hpos : ∀ b, 0 < heavy b) (h : ∀ b c, read b = some c → weight c ≤ heavy b) :
    ∀ {l : List β}, (l.map heavy).sum ≤ ((l.filterMap read).map weight).sum → ∀ b ∈ l, ∃ c, read b = some c ∧ weight c = heavy b
  | a :: l, hsum, b, hb => by
    have hrest := sum_filterMap_le h l
    rw [List.map_cons, List.sum_cons] at hsum
    cases ha : read a with
    | none =>
      rw [List.filterMap_cons_none ha] at hsum
      have := hpos a
      omega
    | some c =>
      have hle := h a c ha
      rw [List.filterMap_cons_some ha, List.map_cons, List.sum_cons] at hsum
      rcases List.mem_cons.1 hb with rfl | hb
      · exact ⟨c, ha, by omega⟩
      · exact exists_of_sum_filterMap hpos h (by omega) b hb

end

end Cut
