import Zipkin.SkewOrder
import Mathlib.Algebra.Order.Group.Unbundled.Int
/-!
# SkewArithmetic — the skew of four timestamps

What `getClockSkew` answers on four Longs, with every difference taken in a `Long`.  Where the four are below 2^61 no
difference wraps, the slack of the client's part over the server's is halved, and the server's part goes into the middle
of the client's; found there, it is left where it is.
-/
namespace Zipkin
namespace TimeSkewAdjuster

/-- A timestamp of the host that a skew is found for, as `adjustTimestamps` leaves it. -/
def corrected (wrap : Int → Int) (clockSkew : Option ClockSkew) (timestamp : Int) : Int :=
  match clockSkew with
  | none => timestamp
  | some sk => if sk.skew = 0 then timestamp else wrap (timestamp - sk.skew)

theorem corrected_eq_timestamp (wrap : Int → Int) {sk : ClockSkew} {ep : Endpoint} {ts : Int} {value : String}
    (hhost : sk.endpoint.ipv4 = ep.ipv4) (hskew : sk.skew ≠ 0) :
    corrected wrap (some sk) ts = (TimeSkewAdjuster.adjustAnnotation wrap sk ⟨ts, value, some ep⟩).timestamp := by
  have hmoved : isHost sk ep value = true := by simp [isHost, hhost]
  simp only [TimeSkewAdjuster.adjustAnnotation, hmoved, if_true, corrected, if_neg hskew]

section Small
variable {cs cr sr ss : Int}

/-- **Without a wrap**: no skew is found of a server that took longer than the client or whose part is inside the client's;
otherwise half of the slack says where the server's part belongs. -/
theorem getClockSkew_of_small (hcs : |cs| < 2 ^ 61) (hcr : |cr| < 2 ^ 61) (hsr : |sr| < 2 ^ 61) (hss : |ss| < 2 ^ 61)
    (ep : Endpoint) : getClockSkew wrap64 cs cr sr ss ep =
      if cr - cs < ss - sr ∨ (cs < sr ∧ ss < cr) then none
      else if sr = cs + (cr - cs - (ss - sr)) / 2 then none
      else some ⟨ep, sr - (cr - cs - (ss - sr)) / 2 - cs⟩ := by
  rw [abs_lt] at hcs hcr hsr hss
  have hclient : wrap64 (cr - cs) = cr - cs := wrap64_of_mem (by omega) (by omega)
  have hserver : wrap64 (ss - sr) = ss - sr := wrap64_of_mem (by omega) (by omega)
  simp only [getClockSkew, hclient, hserver, Bool.or_eq_true, Bool.and_eq_true, decide_eq_true_eq, gt_iff_lt]
  split
  · rfl
  · rename_i hfits
    have hslack : 0 ≤ cr - cs - (ss - sr) := by omega
    rw [wrap64_of_mem (x := cr - cs - (ss - sr)) (by omega) (by omega), Int.tdiv_eq_ediv_of_nonneg hslack,
      wrap64_of_mem (x := sr - _) (by omega) (by omega), wrap64_of_mem (x := _ - cs) (by omega) (by omega)]
    have hzero : sr - (cr - cs - (ss - sr)) / 2 - cs = 0 ↔ sr = cs + (cr - cs - (ss - sr)) / 2 := by omega
    simp only [hzero]

/-- What `getClockSkew` may answer on four timestamps without a wrap, with what `adjustTimestamps` makes of the server's. -/
theorem getClockSkew_cases (hcs : |cs| < 2 ^ 61) (hcr : |cr| < 2 ^ 61) (hsr : |sr| < 2 ^ 61) (hss : |ss| < 2 ^ 61)
    (hserver : sr ≤ ss) (ep : Endpoint) :
    (getClockSkew wrap64 cs cr sr ss ep = none ∧ (cr - cs < ss - sr ∨ (cs ≤ sr ∧ ss ≤ cr))) ∨
    (∃ k, getClockSkew wrap64 cs cr sr ss ep = some ⟨ep, k⟩ ∧ ss - sr ≤ cr - cs ∧
      sr - k = cs + (cr - cs - (ss - sr)) / 2 ∧ corrected wrap64 (some ⟨ep, k⟩) sr = sr - k ∧
      corrected wrap64 (some ⟨ep, k⟩) ss = ss - k) := by
  rw [getClockSkew_of_small hcs hcr hsr hss]
  rw [abs_lt] at hcs hcr hsr hss
  by_cases hquiet : cr - cs < ss - sr ∨ (cs < sr ∧ ss < cr)
  · rw [if_pos hquiet]
    exact .inl ⟨rfl, by omega⟩
  · rw [if_neg hquiet]
    have hslack : 0 ≤ cr - cs - (ss - sr) := by omega
    by_cases hmiddle : sr = cs + (cr - cs - (ss - sr)) / 2
    · rw [if_pos hmiddle]
      exact .inl ⟨rfl, .inr (by omega)⟩
    · rw [if_neg hmiddle]
      have hskew : sr - (cr - cs - (ss - sr)) / 2 - cs ≠ 0 := by omega
      refine .inr ⟨_, rfl, by omega, by omega, ?_, ?_⟩
      · simp only [corrected]
        rw [if_neg hskew, wrap64_of_mem (by omega) (by omega)]
      · simp only [corrected]
        rw [if_neg hskew, wrap64_of_mem (by omega) (by omega)]

/-- **The middle is left as it is.** -/
theorem getClockSkew_middle (hcs : |cs| < 2 ^ 61) (hcr : |cr| < 2 ^ 61) (hserver : sr ≤ ss) (hfits : ss - sr ≤ cr - cs)
    (hmiddle : sr = cs + (cr - cs - (ss - sr)) / 2) (ep : Endpoint) : getClockSkew wrap64 cs cr sr ss ep = none := by
  have hsr : |sr| < 2 ^ 61 := by rw [abs_lt] at *; omega
  have hss : |ss| < 2 ^ 61 := by rw [abs_lt] at *; omega
  rw [getClockSkew_of_small hcs hcr hsr hss, if_pos hmiddle, ite_self]

theorem getClockSkew_centers (hcs : |cs| < 2 ^ 61) (hcr : |cr| < 2 ^ 61) (hsr : |sr| < 2 ^ 61) (hss : |ss| < 2 ^ 61)
    (hserver : sr ≤ ss) (ep : Endpoint) :
    (ss - sr > cr - cs → getClockSkew wrap64 cs cr sr ss ep = none) ∧
    (ss - sr ≤ cr - cs →
      (∀ sk, getClockSkew wrap64 cs cr sr ss ep = some sk →
        cs ≤ sr - sk.skew ∧ sr - sk.skew ≤ ss - sk.skew ∧ ss - sk.skew ≤ cr ∧
          |(sr - sk.skew - cs) - (cr - (ss - sk.skew))| ≤ 1) ∧
      (getClockSkew wrap64 cs cr sr ss ep = none → cs ≤ sr ∧ sr ≤ ss ∧ ss ≤ cr)) ∧
    getClockSkew wrap64 cs cr (corrected wrap64 (getClockSkew wrap64 cs cr sr ss ep) sr)
      (corrected wrap64 (getClockSkew wrap64 cs cr sr ss ep) ss) ep = none := by
  obtain ⟨hnone, hquiet⟩ | ⟨k, hsome, hfits, hmoved, hsr', hss'⟩ := getClockSkew_cases hcs hcr hsr hss hserver ep
  · refine ⟨fun _ => hnone, fun hle => ⟨fun sk h => ?_, fun _ => ⟨?_, hserver, ?_⟩⟩, ?_⟩
    · rw [hnone] at h
      cases h
    · omega
    · omega
    · rw [hnone]
      exact hnone
  · refine ⟨fun hlong => absurd hlong (by omega), fun _ => ⟨fun sk h => ?_, fun h => ?_⟩, ?_⟩
    · obtain rfl : ⟨ep, k⟩ = sk := Option.some.inj (hsome.symm.trans h)
      show cs ≤ sr - k ∧ sr - k ≤ ss - k ∧ ss - k ≤ cr ∧ |sr - k - cs - (cr - (ss - k))| ≤ 1
      refine ⟨by omega, by omega, by omega, ?_⟩
      -- an odd slack leaves 1 more behind the server's part than before it
      rw [Int.abs_le_one_iff]
      omega
    · rw [hsome] at h
      cases h
    · rw [hsome, hsr', hss']
      exact getClockSkew_middle hcs hcr (by omega) (by omega) (by omega) ep

/-- A server whose clock is 900 ahead, and one that took longer than its client. -/
theorem getClockSkew_centers_ahead :
    (|(10 : Int)| < 2 ^ 61 ∧ |(45 : Int)| < 2 ^ 61 ∧ |(915 : Int)| < 2 ^ 61 ∧ |(930 : Int)| < 2 ^ 61 ∧
      getClockSkew wrap64 10 45 915 930 ⟨1, 80, "app"⟩ = some ⟨⟨1, 80, "app"⟩, 895⟩) ∧
    (10 : Int) ≤ 915 - 895 ∧ (930 - 895 : Int) ≤ 45 ∧
    getClockSkew wrap64 10 45 (915 - 895) (930 - 895) ⟨1, 80, "app"⟩ = none ∧
    getClockSkew wrap64 10 20 915 930 ⟨1, 80, "app"⟩ = none := by
  have hsmall : |(10 : Int)| < 2 ^ 61 ∧ |(45 : Int)| < 2 ^ 61 ∧ |(915 : Int)| < 2 ^ 61 ∧ |(930 : Int)| < 2 ^ 61 ∧
      |(20 : Int)| < 2 ^ 61 := by decide
  obtain ⟨h₁, h₂, h₃, h₄, h₅⟩ := hsmall
  have hsome : getClockSkew wrap64 10 45 915 930 ⟨1, 80, "app"⟩ = some ⟨⟨1, 80, "app"⟩, 895⟩ := by decide
  have hahead := getClockSkew_centers h₁ h₂ h₃ h₄ (by decide) ⟨1, 80, "app"⟩
  obtain ⟨hcs, -, hcr, -⟩ := (hahead.2.1 (by decide)).1 _ hsome
  have hagain := hahead.2.2
  rw [hsome] at hagain
  exact ⟨⟨h₁, h₂, h₃, h₄, hsome⟩, hcs, hcr, hagain,
    (getClockSkew_centers h₁ h₅ h₃ h₄ (by decide) ⟨1, 80, "app"⟩).1 (by decide)⟩

end Small
end TimeSkewAdjuster
end Zipkin
