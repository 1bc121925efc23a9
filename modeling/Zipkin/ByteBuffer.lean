import Zipkin.Base.BigEndian
import Zipkin.Base.Effect
/-!
# ByteBuffer — bytes with a position

A `java.nio.ByteBuffer` on an array.  A relative get reads at the position and moves it; who reads `array`, `position`
and `remaining` leaves it where it is.
-/
namespace Zipkin

/-- An exception: its class, and its message, empty if it has none. -/
structure Throwable where
  simpleName : String
  message : String
deriving DecidableEq, Repr

structure ByteBuffer where
  array : List UInt8
  position : Nat
  limit : Nat
  position_le : position ≤ limit
  limit_le : limit ≤ array.length
deriving DecidableEq

namespace ByteBuffer

def wrap (array : List UInt8) : ByteBuffer := ⟨array, 0, array.length, Nat.zero_le _, Nat.le_refl _⟩

def remaining (b : ByteBuffer) : Nat := b.limit - b.position

/-- The bytes from the position to the limit. -/
def bytes (b : ByteBuffer) : List UInt8 := (b.array.drop b.position).take b.remaining

theorem length_bytes (b : ByteBuffer) : b.bytes.length = b.remaining := by
  rw [bytes, List.length_take, List.length_drop, remaining]
  have h1 := b.position_le
  have h2 := b.limit_le
  omega

@[simp] theorem bytes_wrap (l : List UInt8) : (wrap l).bytes = l := List.take_length

/-- Moved on by `n` bytes, if there are as many. -/
def advance (b : ByteBuffer) (n : Nat) : ByteBuffer :=
  ⟨b.array, min (b.position + n) b.limit, b.limit, Nat.min_le_right _ _, b.limit_le⟩

@[simp] theorem advance_zero (b : ByteBuffer) : b.advance 0 = b := by
  have h := Nat.min_eq_left b.position_le
  cases b
  simp only [advance, Nat.add_zero, mk.injEq, true_and, and_true]
  exact h

theorem remaining_advance (b : ByteBuffer) (n : Nat) : (b.advance n).remaining = b.remaining - n := by
  have h := b.position_le
  simp only [advance, remaining]
  omega

def get (n : Nat) : Effect Throwable ByteBuffer (List UInt8) := .of fun b =>
  if n ≤ b.remaining then (.ok (b.bytes.take n), b.advance n) else (.error ⟨"BufferUnderflowException", ""⟩, b)

theorem exec_get {n : Nat} {b : ByteBuffer} (h : n ≤ b.remaining) :
    Effect.exec (get n) b = (.ok (b.bytes.take n), b.advance n) := by
  rw [get, Effect.exec_of, if_pos h]

theorem exec_map_get {α : Type} (f : List UInt8 → α) {n : Nat} {b : ByteBuffer} (h : n ≤ b.remaining) :
    Effect.exec (f <$> get n) b = (.ok (f (b.bytes.take n)), b.advance n) := by
  rw [Effect.exec_map, exec_get h]
  rfl

theorem exec_get_underflow {n : Nat} {b : ByteBuffer} (h : b.remaining < n) :
    Effect.exec (get n) b = (.error ⟨"BufferUnderflowException", ""⟩, b) := by
  rw [get, Effect.exec_of, if_neg (Nat.not_le.2 h)]

/-! ## Numbers

A `double` is its 64 bits. -/

def toShort (l : List UInt8) : Int16 := (UInt16.ofNat (BigEndian.ofBytes l)).toInt16
def toInt (l : List UInt8) : Int32 := (UInt32.ofNat (BigEndian.ofBytes l)).toInt32
def toLong (l : List UInt8) : Int64 := (UInt64.ofNat (BigEndian.ofBytes l)).toInt64
def toDouble (l : List UInt8) : UInt64 := UInt64.ofNat (BigEndian.ofBytes l)

def getShort : Effect Throwable ByteBuffer Int16 := toShort <$> get 2
def getInt : Effect Throwable ByteBuffer Int32 := toInt <$> get 4
def getLong : Effect Throwable ByteBuffer Int64 := toLong <$> get 8
def getDouble : Effect Throwable ByteBuffer UInt64 := toDouble <$> get 8

/-- `ByteBuffer.allocate(2).putShort(0, v)`, and so on: absolute puts, which leave the position at 0. -/
def ofShort (v : Int16) : ByteBuffer := wrap (BigEndian.toBytes 2 v.toUInt16.toNat)
def ofInt (v : Int32) : ByteBuffer := wrap (BigEndian.toBytes 4 v.toUInt32.toNat)
def ofLong (v : Int64) : ByteBuffer := wrap (BigEndian.toBytes 8 v.toUInt64.toNat)
def ofDouble (v : UInt64) : ByteBuffer := wrap (BigEndian.toBytes 8 v.toNat)

theorem toBytes_mod {l : List UInt8} {n : Nat} (h : l.length = n) :
    BigEndian.toBytes n (BigEndian.ofBytes l % 256 ^ n) = l := by
  subst h
  rw [Nat.mod_eq_of_lt (BigEndian.ofBytes_lt l), BigEndian.toBytes_ofBytes]

theorem bytes_ofInt_toInt {l : List UInt8} (h : l.length = 4) : (ofInt (toInt l)).bytes = l := by
  rw [ofInt, toInt, bytes_wrap, UInt32.toUInt32_toInt32, UInt32.toNat_ofNat']
  exact toBytes_mod h

theorem bytes_ofLong_toLong {l : List UInt8} (h : l.length = 8) : (ofLong (toLong l)).bytes = l := by
  rw [ofLong, toLong, bytes_wrap, UInt64.toUInt64_toInt64, UInt64.toNat_ofNat']
  exact toBytes_mod h

theorem bytes_ofDouble_toDouble {l : List UInt8} (h : l.length = 8) : (ofDouble (toDouble l)).bytes = l := by
  rw [ofDouble, toDouble, bytes_wrap, UInt64.toNat_ofNat']
  exact toBytes_mod h

end ByteBuffer
end Zipkin
