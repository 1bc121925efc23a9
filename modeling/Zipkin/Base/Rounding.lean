import Mathlib.Algebra.Group.Int.Defs
import Mathlib.Algebra.Order.Group.Nat
/-!
# Rounding — whole numbers with a bounded number of significant bits

`nearest p n` is the number with at most `p` significant bits that is nearest to `n`, of two the one whose last bit is
even.  It keeps the order (`nearest_mono`), so a comparison can go wrong only by making two numbers equal.
-/
namespace Rounding

/-- What the last of `p` significant bits of `n` stands for. -/
def unit (p n : Nat) : Nat := 2 ^ (n.log2 + 1 - p)

def nearest (p n : Nat) : Nat :=
  let q := n / unit p n
  let r := n % unit p n
  if 2 * r < unit p n ∨ 2 * r = unit p n ∧ q % 2 = 0 then q * unit p n else (q + 1) * unit p n

variable {p m n : Nat}

theorem unit_pos (p n : Nat) : 0 < unit p n := Nat.two_pow_pos _

theorem le_nearest (p n : Nat) : n / unit p n * unit p n ≤ nearest p n := by
  unfold nearest
  dsimp only
  split
  · exact Nat.le_refl _
  · exact Nat.mul_le_mul_right _ (Nat.le_succ _)

theorem nearest_le (p n : Nat) : nearest p n ≤ (n / unit p n + 1) * unit p n := by
  unfold nearest
  dsimp only
  split
  · exact Nat.mul_le_mul_right _ (Nat.le_succ _)
  · exact Nat.le_refl _

theorem nearest_le_two_pow (p n : Nat) : nearest p n ≤ 2 ^ (n.log2 + 1) := by
  refine (nearest_le p n).trans ?_
  have hpow : 2 ^ (n.log2 + 1) = 2 ^ (n.log2 + 1 - (n.log2 + 1 - p)) * unit p n := by
    rw [unit, ← Nat.pow_add]
    congr 1
    omega
  rw [hpow]
  refine Nat.mul_le_mul_right _ (Nat.div_lt_of_lt_mul ?_)
  rw [Nat.mul_comm, ← hpow]
  exact Nat.lt_log2_self

theorem two_pow_le_nearest (hp : 0 < p) (hn : n ≠ 0) : 2 ^ n.log2 ≤ nearest p n := by
  refine Nat.le_trans ?_ (le_nearest p n)
  have hpow : 2 ^ n.log2 = 2 ^ (n.log2 - (n.log2 + 1 - p)) * unit p n := by
    rw [unit, ← Nat.pow_add]
    congr 1
    omega
  rw [hpow]
  refine Nat.mul_le_mul_right _ ((Nat.le_div_iff_mul_le (unit_pos p n)).2 ?_)
  rw [← hpow]
  exact Nat.log2_self_le hn

theorem nearest_mono (hp : 0 < p) (h : m ≤ n) : nearest p m ≤ nearest p n := by
  by_cases hunit : unit p m = unit p n
  · have hdiv : m / unit p m ≤ n / unit p n := by
      rw [hunit]
      exact Nat.div_le_div_right h
    rcases Nat.lt_or_eq_of_le hdiv with hlt | heq
    · refine (nearest_le p m).trans (Nat.le_trans ?_ (le_nearest p n))
      rw [hunit] at hlt ⊢
      exact Nat.mul_le_mul_right _ hlt
    · -- the same multiple below both, so what is over decides
      have hmod : m % unit p m ≤ n % unit p n := by
        have hm := Nat.div_add_mod m (unit p m)
        have hn := Nat.div_add_mod n (unit p n)
        rw [heq, hunit] at hm
        rw [hunit]
        omega
      unfold nearest
      dsimp only
      rw [heq, hunit] at *
      split <;> split
      · exact Nat.le_refl _
      · exact Nat.mul_le_mul_right _ (Nat.le_succ _)
      · omega
      · exact Nat.le_refl _
  · have hn : n ≠ 0 := by
      rintro rfl
      exact hunit (by rw [Nat.le_zero.1 h])
    have hle : m.log2 ≤ n.log2 := by
      by_cases hm : m = 0
      · simp [hm]
      · exact (Nat.le_log2 hn).2 ((Nat.log2_self_le hm).trans h)
    have hlog : m.log2 < n.log2 := by
      refine Nat.lt_of_le_of_ne hle (fun heq => hunit ?_)
      rw [unit, unit, heq]
    calc nearest p m ≤ 2 ^ (m.log2 + 1) := nearest_le_two_pow p m
      _ ≤ 2 ^ n.log2 := Nat.pow_le_pow_right (by decide) hlog
      _ ≤ nearest p n := two_pow_le_nearest hp hn

/-- **A number that `p` bits hold is kept**, and the first that they do not. -/
theorem nearest_eq_self (hp : 0 < p) (h : n ≤ 2 ^ p) : nearest p n = n := by
  have hdvd : unit p n ∣ n := by
    rcases Nat.lt_or_eq_of_le h with hlt | rfl
    · by_cases hn : n = 0
      · rw [hn]; exact Nat.dvd_zero _
      · have hlog : n.log2 < p := (Nat.log2_lt hn).2 hlt
        rw [unit, Nat.sub_eq_zero_of_le (by omega), Nat.pow_zero]
        exact Nat.one_dvd _
    · rw [unit, Nat.log2_two_pow]
      exact Nat.pow_dvd_pow 2 (by omega)
  have hmod : n % unit p n = 0 := Nat.mod_eq_zero_of_dvd hdvd
  unfold nearest
  dsimp only
  rw [hmod, if_pos (Or.inl (by have := unit_pos p n; omega))]
  exact Nat.div_mul_cancel hdvd

/-- **Numbers with at most `p` significant bits are kept**, whatever power of two they are multiplied by. -/
theorem nearest_mul_two_pow (hp : 0 < p) {k : Nat} (h : k ≤ 2 ^ p) (e : Nat) : nearest p (k * 2 ^ e) = k * 2 ^ e := by
  by_cases hk : k = 0
  · rw [hk, Nat.zero_mul]
    exact nearest_eq_self hp (Nat.zero_le _)
  have hdvd : unit p (k * 2 ^ e) ∣ k * 2 ^ e := by
    rcases Nat.lt_or_eq_of_le h with hlt | rfl
    · have hlog : (k * 2 ^ e).log2 < p + e :=
        (Nat.log2_lt (Nat.mul_ne_zero hk (Nat.two_pow_pos e).ne')).2
          (Nat.pow_add 2 p e ▸ Nat.mul_lt_mul_of_pos_right hlt (Nat.two_pow_pos e))
      exact Nat.dvd_mul_left_of_dvd (Nat.pow_dvd_pow 2 (by omega)) k
    · rw [← Nat.pow_add, unit, Nat.log2_two_pow]
      exact Nat.pow_dvd_pow 2 (by omega)
  have hunit := unit_pos p (k * 2 ^ e)
  unfold nearest
  dsimp only
  rw [Nat.mod_eq_zero_of_dvd hdvd, if_pos (Or.inl (by omega))]
  exact Nat.div_mul_cancel hdvd

/-- **What has been rounded has at most `p` significant bits.** -/
theorem exists_nearest_eq (p n : Nat) : ∃ k ≤ 2 ^ p, ∃ e, nearest p n = k * 2 ^ e := by
  have hq : n / unit p n < 2 ^ p := by
    refine Nat.div_lt_of_lt_mul ?_
    refine Nat.lt_of_lt_of_le Nat.lt_log2_self ?_
    rw [unit, ← Nat.pow_add]
    exact Nat.pow_le_pow_right (by decide) (by omega)
  unfold nearest
  dsimp only
  split
  · exact ⟨_, hq.le, _, rfl⟩
  · exact ⟨_, hq, _, rfl⟩

theorem nearest_nearest (hp : 0 < p) (n : Nat) : nearest p (nearest p n) = nearest p n := by
  obtain ⟨k, hk, e, heq⟩ := exists_nearest_eq p n
  rw [heq, nearest_mul_two_pow hp hk]

theorem nearest_mul_of_eq (hp : 0 < p) (h : nearest p n = n) (e : Nat) : nearest p (n * 2 ^ e) = n * 2 ^ e := by
  obtain ⟨k, hk, e', heq⟩ := exists_nearest_eq p n
  rw [h] at heq
  rw [heq, Nat.mul_assoc, ← Nat.pow_add, nearest_mul_two_pow hp hk]

/-- **Powers of two can be taken out** of a number that has `p` significant bits without them. -/
theorem nearest_mul_two_pow_of_le (h : 2 ^ (p - 1) ≤ n) (e : Nat) : nearest p (n * 2 ^ e) = nearest p n * 2 ^ e := by
  have hn : n ≠ 0 := (Nat.lt_of_lt_of_le (Nat.two_pow_pos _) h).ne'
  have hpos := Nat.two_pow_pos e
  have hp : p - 1 ≤ n.log2 := (Nat.le_log2 hn).2 h
  have hlog : (n * 2 ^ e).log2 = n.log2 + e := by
    refine (Nat.log2_eq_iff (Nat.mul_ne_zero hn hpos.ne')).2 ⟨?_, ?_⟩
    · rw [Nat.pow_add]
      exact Nat.mul_le_mul_right _ (Nat.log2_self_le hn)
    · rw [Nat.add_right_comm, Nat.pow_add]
      exact Nat.mul_lt_mul_of_pos_right Nat.lt_log2_self hpos
  have hunit : unit p (n * 2 ^ e) = unit p n * 2 ^ e := by
    rw [unit, unit, hlog, ← Nat.pow_add]
    congr 1
    omega
  unfold nearest
  dsimp only
  rw [hunit, Nat.mul_div_mul_right _ _ hpos, Nat.mul_mod_mul_right, ← Nat.mul_assoc, ← Nat.mul_assoc, ← Nat.mul_assoc]
  have hlt : 2 * (n % unit p n) * 2 ^ e < unit p n * 2 ^ e ↔ 2 * (n % unit p n) < unit p n := Nat.mul_lt_mul_right hpos
  have heq : 2 * (n % unit p n) * 2 ^ e = unit p n * 2 ^ e ↔ 2 * (n % unit p n) = unit p n := Nat.mul_left_inj hpos.ne'
  rw [ite_mul]
  exact if_congr (or_congr hlt (and_congr_left' heq)) rfl rfl

/-- **Rounding is off by at most half of the last bit.** -/
theorem two_mul_nearest_le (p n : Nat) : 2 * nearest p n ≤ 2 * n + unit p n := by
  have hdiv : n / unit p n * unit p n + n % unit p n = n := Nat.div_add_mod' n (unit p n)
  unfold nearest
  dsimp only
  split
  · omega
  · rename_i h
    have hmod : unit p n ≤ 2 * (n % unit p n) := by omega
    have hlt := Nat.mod_lt n (unit_pos p n)
    rw [Nat.add_mul, Nat.one_mul]
    omega

theorem two_mul_le_nearest (p n : Nat) : 2 * n ≤ 2 * nearest p n + unit p n := by
  have hdiv : n / unit p n * unit p n + n % unit p n = n := Nat.div_add_mod' n (unit p n)
  have hlt := Nat.mod_lt n (unit_pos p n)
  unfold nearest
  dsimp only
  split
  · omega
  · rw [Nat.add_mul, Nat.one_mul]
    omega

/-- The last bit of a number below a power of two. -/
theorem unit_le {e : Nat} (hp : 0 < p) (h : n < 2 ^ (p + e)) : unit p n ≤ 2 ^ e := by
  refine Nat.pow_le_pow_right (by decide) ?_
  by_cases hn : n = 0
  · rw [hn, Nat.log2_zero]
    omega
  · have := (Nat.log2_lt hn).2 h
    omega

/-- The rounding of a whole number, by its magnitude. -/
def nearestInt (p : Nat) : Int → Int
  | .ofNat n => nearest p n
  | .negSucc n => -(nearest p (n + 1) : Nat)

theorem nearestInt_mono {a b : Int} (hp : 0 < p) (h : a ≤ b) : nearestInt p a ≤ nearestInt p b := by
  cases a with
  | ofNat m =>
    cases b with
    | ofNat n => exact Int.ofNat_le.2 (nearest_mono hp (Int.ofNat_le.1 h))
    | negSucc n => exact absurd ((Int.natCast_nonneg m).trans h) (Int.not_le.2 (Int.negSucc_lt_zero n))
  | negSucc m =>
    cases b with
    | ofNat n =>
      have hm : (0 : Int) ≤ (nearest p (m + 1) : Nat) := Int.natCast_nonneg _
      have hn : (0 : Int) ≤ (nearest p n : Nat) := Int.natCast_nonneg _
      simp only [nearestInt]
      omega
    | negSucc n =>
      have hle : n + 1 ≤ m + 1 := by omega
      have hnearest := nearest_mono hp hle
      simp only [nearestInt]
      omega

theorem nearestInt_natCast (p n : Nat) : nearestInt p n = nearest p n := rfl

theorem nearestInt_eq_natCast (h : nearest p n = n) : nearestInt p n = n := congrArg Int.ofNat h

theorem nearestInt_neg (p : Nat) : ∀ n : Int, nearestInt p (-n) = -nearestInt p n
  | .ofNat 0 => by
    simp only [Int.ofNat_eq_natCast, Int.natCast_zero, Int.neg_zero, nearestInt, nearest, Nat.zero_div, Nat.zero_mod, Nat.mul_zero,
      Nat.zero_mul, unit_pos, true_or, if_true]
  | .ofNat (n + 1) => rfl
  | .negSucc n => (Int.neg_neg _).symm

theorem nearestInt_nearestInt (hp : 0 < p) : ∀ n : Int, nearestInt p (nearestInt p n) = nearestInt p n
  | .ofNat n => congrArg Int.ofNat (nearest_nearest hp n)
  | .negSucc n => by
    rw [nearestInt, nearestInt_neg, nearestInt_natCast, nearest_nearest hp]

theorem nearestInt_eq_self (hp : 0 < p) : ∀ {n : Int}, n.natAbs ≤ 2 ^ p → nearestInt p n = n
  | .ofNat n, h => congrArg Int.ofNat (nearest_eq_self hp h)
  | .negSucc n, h => by
    rw [nearestInt, nearest_eq_self hp (n := n + 1) h]
    rfl

theorem nearestInt_mul_of_eq (hp : 0 < p) : ∀ {n : Int}, nearestInt p n = n → ∀ e : Nat, nearestInt p (n * 2 ^ e) = n * 2 ^ e
  | .ofNat n, h, e => by
    have hnat := nearest_mul_of_eq hp (Int.ofNat.inj h) e
    have hcast : (Int.ofNat n) * 2 ^ e = ((n * 2 ^ e : Nat) : Int) := by
      rw [Int.natCast_mul, Int.natCast_pow]
      rfl
    rw [hcast, nearestInt_natCast, hnat]
  | .negSucc n, h, e => by
    have hnat := nearest_mul_of_eq hp (n := n + 1) (Int.ofNat.inj (Int.neg_inj.1 h)) e
    have hcast : (Int.negSucc n) * 2 ^ e = -(((n + 1) * 2 ^ e : Nat) : Int) := by
      rw [Int.natCast_mul, Int.natCast_pow, ← Int.neg_mul]
      rfl
    rw [hcast, nearestInt_neg, nearestInt_natCast, hnat]

end Rounding
