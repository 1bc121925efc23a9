import Mathlib.Algebra.Group.Nat.Defs
import Mathlib.Data.List.Induction
/-!
# BigEndian — numbers as bytes, the most significant byte first
-/
namespace BigEndian

/-- The number that the bytes spell. -/
def ofBytes (bytes : List UInt8) : Nat := bytes.foldl (fun acc b => acc * 256 + b.toNat) 0

/-- The lowest `width` bytes of a number. -/
def toBytes : Nat → Nat → List UInt8
  | 0, _ => []
  | width + 1, n => toBytes width (n / 256) ++ [UInt8.ofNat n]

theorem ofBytes_append_singleton (l : List UInt8) (b : UInt8) : ofBytes (l ++ [b]) = ofBytes l * 256 + b.toNat := by
  rw [ofBytes, ofBytes, List.foldl_append, List.foldl_cons, List.foldl_nil]

@[simp] theorem length_toBytes (width n : Nat) : (toBytes width n).length = width := by
  induction width generalizing n with
  | zero => rfl
  | succ width ih => rw [toBytes, List.length_append, ih, List.length_singleton]

theorem ofBytes_lt (l : List UInt8) : ofBytes l < 256 ^ l.length := by
  induction l using List.reverseRecOn with
  | nil => decide
  | append_singleton l b ih =>
    rw [ofBytes_append_singleton, List.length_append, List.length_singleton, Nat.pow_succ]
    have hb : b.toNat < 256 := b.toNat_lt
    omega

/-- **Bytes come back from the number they spell.** -/
theorem toBytes_ofBytes (l : List UInt8) : toBytes l.length (ofBytes l) = l := by
  induction l using List.reverseRecOn with
  | nil => rfl
  | append_singleton l b ih =>
    have hb : b.toNat < 256 := b.toNat_lt
    have hdiv : (ofBytes l * 256 + b.toNat) / 256 = ofBytes l := by omega
    have hlast : UInt8.ofNat (ofBytes l * 256 + b.toNat) = b := by
      refine UInt8.toNat_inj.1 ?_
      rw [UInt8.toNat_ofNat']
      omega
    rw [ofBytes_append_singleton, List.length_append, List.length_singleton, toBytes, hdiv, ih, hlast]

/-- **A number that fits comes back from its bytes.** -/
theorem ofBytes_toBytes {width : Nat} : ∀ {n : Nat}, n < 256 ^ width → ofBytes (toBytes width n) = n := by
  induction width with
  | zero => intro n h; rw [Nat.pow_zero, Nat.lt_one_iff] at h; rw [h]; rfl
  | succ width ih =>
    intro n h
    rw [Nat.pow_succ] at h
    rw [toBytes, ofBytes_append_singleton, ih (by omega), UInt8.toNat_ofNat']
    omega

end BigEndian
