import Mathlib.Algebra.Order.Field.Rat
import Mathlib.Data.List.Forall2
import Mathlib.Tactic.NormNum
/-!
# TraceZoom — the spans of the trace page, zoomed in

`zoomInSpans` of `trace.js`, on exact rational numbers.  The page before the zoom has the left edge and the width of every
span in percent of the whole time line; the zoom turns them back into times and draws each span anew in percent of the
window.  It draws the part of the span that is in the window (`Clipped`), except for a span that starts before the window
and ends with it: no comparison of the eight asks for that one, so the last branch makes it 0 wide.
-/
namespace Zipkin
namespace TraceZoom

/-- The inline style of a `.duration` element: percentages and a colour. -/
structure Styles where
  left : ℚ
  width : ℚ
  color : String
deriving DecidableEq

/-- The data of a `uiZoomInSpans` event. -/
structure Window where
  mintime : ℚ
  maxtime : ℚ

/-- The times of a span, from its percentages on the page that is not zoomed. -/
def spanStart (originalDuration : ℚ) (backup : Styles) : ℚ := backup.left * originalDuration / 100

def spanEnd (originalDuration : ℚ) (backup : Styles) : ℚ :=
  spanStart originalDuration backup + backup.width * originalDuration / 100

/-- The style of one span: the comparisons of `zoomInSpans`, in its order. -/
def zoomInSpan (data : Window) (spanStart spanEnd : ℚ) : Styles :=
  let newDuration := data.maxtime - data.mintime
  if spanStart < data.mintime ∧ spanEnd < data.mintime then ⟨0, 0, "#000"⟩
  else if spanStart < data.mintime ∧ spanEnd > data.mintime ∧ spanEnd < data.maxtime then
    ⟨0, (spanEnd - data.mintime) / newDuration * 100, "#000"⟩
  else if spanStart < data.mintime ∧ spanEnd > data.mintime ∧ spanEnd > data.maxtime then ⟨0, 100, "#000"⟩
  else if spanStart ≥ data.mintime ∧ spanStart < data.maxtime ∧ spanEnd ≤ data.maxtime then
    ⟨(spanStart - data.mintime) / newDuration * 100, (spanEnd - spanStart) / newDuration * 100, "#d9534f"⟩
  else if spanStart ≥ data.mintime ∧ spanStart < data.maxtime ∧ spanEnd > data.maxtime then
    ⟨(spanStart - data.mintime) / newDuration * 100, (data.maxtime - spanStart) / newDuration * 100, "#d9534f"⟩
  else if spanStart > data.maxtime then ⟨100, 0, "#000"⟩
  else if spanStart = data.maxtime then ⟨100, 0, "#d9534f"⟩
  else ⟨0, 0, "#000"⟩

def zoomInSpans (originalDuration : ℚ) (data : Window) (spansBackup : List (String × Styles)) : List (String × Styles) :=
  spansBackup.map fun (id, backup) =>
    (id, zoomInSpan data (spanStart originalDuration backup) (spanEnd originalDuration backup))

/-- A style shows the part of a span that is in the window, in percent of the window. -/
structure Clipped (data : Window) (spanStart spanEnd : ℚ) (styles : Styles) : Prop where
  width : styles.width =
    100 * max 0 (min spanEnd data.maxtime - max spanStart data.mintime) / (data.maxtime - data.mintime)
  left : 0 < styles.width →
    styles.left = 100 * (max spanStart data.mintime - data.mintime) / (data.maxtime - data.mintime)

section
variable {data : Window} {spanStart spanEnd : ℚ}

theorem clipped_of_width_zero (left : ℚ) (color : String) (h : min spanEnd data.maxtime ≤ max spanStart data.mintime) :
    Clipped data spanStart spanEnd ⟨left, 0, color⟩ where
  width := by rw [max_eq_left (sub_nonpos.2 h), mul_zero, zero_div]
  left := fun hwidth => absurd hwidth (lt_irrefl 0)

theorem clipped_of_part {lo hi : ℚ} (color : String) (hlo : max spanStart data.mintime = lo)
    (hhi : min spanEnd data.maxtime = hi) (h : lo ≤ hi) : Clipped data spanStart spanEnd
      ⟨(lo - data.mintime) / (data.maxtime - data.mintime) * 100, (hi - lo) / (data.maxtime - data.mintime) * 100, color⟩ where
  width := by
    rw [hlo, hhi, max_eq_right (sub_nonneg.2 h), mul_comm 100]
    exact div_mul_eq_mul_div _ _ _
  left := fun _ => by
    rw [hlo, mul_comm 100]
    exact div_mul_eq_mul_div _ _ _

theorem clipped_of_mintime {hi width : ℚ} (color : String) (hlo : max spanStart data.mintime = data.mintime)
    (hhi : min spanEnd data.maxtime = hi) (h : data.mintime ≤ hi)
    (hwidth : width = (hi - data.mintime) / (data.maxtime - data.mintime) * 100) :
    Clipped data spanStart spanEnd ⟨0, width, color⟩ := by
  have hpart := clipped_of_part color hlo hhi h
  rwa [sub_self, zero_div, zero_mul, ← hwidth] at hpart

/-- The span that no comparison asks for is drawn 0 wide. -/
theorem zoomInSpan_of_missed (hstart : spanStart < data.mintime) (hend : spanEnd = data.maxtime)
    (hwindow : data.mintime < data.maxtime) : zoomInSpan data spanStart spanEnd = ⟨0, 0, "#000"⟩ := by
  simp only [zoomInSpan, hstart, hend, hstart.not_ge, hwindow.not_gt, lt_irrefl, gt_iff_lt, and_false, false_and, if_false,
    (hstart.trans hwindow).not_gt, (hstart.trans hwindow).ne]

/-- The other spans of the last branch end with the start of the window. -/
theorem spanEnd_eq_mintime (h₁ : ¬ (spanStart < data.mintime ∧ spanEnd < data.mintime))
    (h₂ : ¬ (spanStart < data.mintime ∧ spanEnd > data.mintime ∧ spanEnd < data.maxtime))
    (h₃ : ¬ (spanStart < data.mintime ∧ spanEnd > data.mintime ∧ spanEnd > data.maxtime))
    (hmissed : ¬ (spanStart < data.mintime ∧ spanEnd = data.maxtime)) (hstart : spanStart < data.mintime) :
    spanEnd = data.mintime := by
  rcases lt_trichotomy spanEnd data.mintime with hlt | heq | hgt
  · exact absurd ⟨hstart, hlt⟩ h₁
  · exact heq
  · rcases lt_trichotomy spanEnd data.maxtime with hlt' | heq' | hgt'
    · exact absurd ⟨hstart, hgt, hlt'⟩ h₂
    · exact absurd ⟨hstart, heq'⟩ hmissed
    · exact absurd ⟨hstart, hgt, hgt'⟩ h₃

/-- **Every span is drawn as far as it is in the window**, unless it starts before the window and ends with it. -/
theorem clipped_zoomInSpan_iff (hspan : spanStart ≤ spanEnd) (hwindow : data.mintime < data.maxtime) :
    Clipped data spanStart spanEnd (zoomInSpan data spanStart spanEnd) ↔
      ¬ (spanStart < data.mintime ∧ spanEnd = data.maxtime) := by
  have hduration : data.maxtime - data.mintime ≠ 0 := (sub_pos.2 hwindow).ne'
  constructor
  · rintro h ⟨hstart, hend⟩
    rw [zoomInSpan_of_missed hstart hend hwindow] at h
    have hwidth := h.width
    rw [max_eq_right hstart.le, hend, min_self, max_eq_right (sub_pos.2 hwindow).le, mul_div_cancel_right₀ _ hduration]
      at hwidth
    norm_num at hwidth
  · intro hmissed
    simp only [zoomInSpan]
    split_ifs with h₁ h₂ h₃ h₄ h₅ h₆ h₇
    · exact clipped_of_width_zero _ _ ((min_le_left _ _).trans (h₁.2.le.trans (le_max_right _ _)))
    · exact clipped_of_mintime _ (max_eq_right h₂.1.le) (min_eq_left h₂.2.2.le) h₂.2.1.le rfl
    · refine clipped_of_mintime _ (max_eq_right h₃.1.le) (min_eq_right h₃.2.2.le) hwindow.le ?_
      rw [div_self hduration, one_mul]
    · exact clipped_of_part _ (max_eq_left h₄.1) (min_eq_left h₄.2.2) hspan
    · exact clipped_of_part _ (max_eq_left h₅.1) (min_eq_right h₅.2.2.le) h₅.2.1.le
    · exact clipped_of_width_zero _ _ ((min_le_right _ _).trans (h₆.le.trans (le_max_left _ _)))
    · exact clipped_of_width_zero _ _ ((min_le_right _ _).trans (h₇.ge.trans (le_max_left _ _)))
    · rcases lt_or_ge spanStart data.mintime with hstart | hstart
      · have hend := spanEnd_eq_mintime h₁ h₂ h₃ hmissed hstart
        exact clipped_of_width_zero _ _ ((min_le_left _ _).trans (hend.le.trans (le_max_right _ _)))
      · -- from the window's start on, the comparisons leave out nothing
        have hbefore : spanStart < data.maxtime :=
          lt_of_le_of_ne (not_lt.1 h₆) h₇
        exact absurd ⟨hstart, hbefore, not_le.1 fun hle => h₄ ⟨hstart, hbefore, hle⟩⟩ h₅

/-- **The whole page** is drawn as it should be exactly if it has no span that starts before the window and ends with it. -/
theorem clipped_zoomInSpans_iff (originalDuration : ℚ) (spansBackup : List (String × Styles))
    (hspans : ∀ s ∈ spansBackup, TraceZoom.spanStart originalDuration s.2 ≤ TraceZoom.spanEnd originalDuration s.2)
    (hwindow : data.mintime < data.maxtime) :
    List.Forall₂ (fun s drawn => drawn.1 = s.1 ∧
      Clipped data (TraceZoom.spanStart originalDuration s.2) (TraceZoom.spanEnd originalDuration s.2) drawn.2)
      spansBackup (zoomInSpans originalDuration data spansBackup) ↔
    ∀ s ∈ spansBackup, ¬ (TraceZoom.spanStart originalDuration s.2 < data.mintime ∧
      TraceZoom.spanEnd originalDuration s.2 = data.maxtime) := by
  rw [zoomInSpans, List.forall₂_map_right_iff, List.forall₂_same]
  exact forall₂_congr fun s hs => by rw [← clipped_zoomInSpan_iff (hspans s hs) hwindow, eq_self, true_and]

end

theorem clipped_zoomInSpan_inside : Clipped ⟨1, 2⟩ 0 (3 / 2) (zoomInSpan ⟨1, 2⟩ 0 (3 / 2)) :=
  (clipped_zoomInSpan_iff (by norm_num) (by norm_num)).2 (by norm_num)

/-- A span of the first half of a trace, zoomed to the second quarter: half of it is in the window, none of it is drawn. -/
theorem not_clipped_zoomInSpans :
    spanStart 4 ⟨0, 50, "#000"⟩ = 0 ∧ spanEnd 4 ⟨0, 50, "#000"⟩ = 2 ∧
      zoomInSpans 4 ⟨1, 2⟩ [("a", ⟨0, 50, "#000"⟩)] = [("a", ⟨0, 0, "#000"⟩)] ∧
      ¬ Clipped ⟨1, 2⟩ 0 2 (zoomInSpan ⟨1, 2⟩ 0 2) := by
  refine ⟨by norm_num [spanStart], by norm_num [spanStart, spanEnd], ?_, ?_⟩
  · norm_num [zoomInSpans, zoomInSpan, spanStart, spanEnd]
  · intro h
    have hwidth := h.width
    norm_num [zoomInSpan] at hwidth

end TraceZoom
end Zipkin
