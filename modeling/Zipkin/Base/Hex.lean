import Mathlib.Data.List.Basic
/-!
# Hex — bytes as lower-case hexadecimal digits
-/
namespace Hex

def digit (n : Nat) : Char := "0123456789abcdef".toList.getD n '0'

def value (c : Char) : Option Nat := (List.range 16).find? (fun n => digit n == c)

theorem value_digit : ∀ n < 16, value (digit n) = some n := by decide

def encode (bytes : List UInt8) : String :=
  String.ofList (bytes.flatMap (fun b => [digit (b.toNat / 16), digit (b.toNat % 16)]))

def decodeDigits : List Char → Option (List UInt8)
  | [] => some []
  | [_] => none
  | hi :: lo :: cs => do
    let h ← value hi
    let l ← value lo
    let bytes ← decodeDigits cs
    pure (UInt8.ofNat (h * 16 + l) :: bytes)

def decode (s : String) : Option (List UInt8) := decodeDigits s.toList

theorem decode_encode (bytes : List UInt8) : decode (encode bytes) = some bytes := by
  rw [decode, encode, String.toList_ofList]
  induction bytes with
  | nil => rfl
  | cons b bytes ih =>
    have hb : b.toNat < 256 := b.toNat_lt
    have hbyte : UInt8.ofNat (b.toNat / 16 * 16 + b.toNat % 16) = b := by
      rw [Nat.div_add_mod', UInt8.ofNat_toNat]
    rw [List.flatMap_cons, List.cons_append, List.cons_append, List.nil_append, decodeDigits,
      value_digit _ (by omega), value_digit _ (by omega), ih]
    simp only [Option.bind_eq_bind, Option.bind_some, hbyte, Option.pure_def]

end Hex
