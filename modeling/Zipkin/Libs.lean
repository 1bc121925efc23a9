import Std.Data.String.ToNat
import Zipkin.Base.Hex
import Zipkin.ByteBuffer
/-!
# Libs — the library functions that the JSON conversion calls

They are a parameter of the model, with what their documentation says of them: an encoding is undone by its decoding, an
address in dotted decimal form is the four bytes it names, and an enumeration constant's name is turned into camel case.
-/
namespace Zipkin

def dottedQuad (a b c d : Int) : String := s!"{a}.{b}.{c}.{d}"

def getBytesUtf8 (s : String) : List UInt8 := s.toList.flatMap String.utf8EncodeChar

theorem getBytesUtf8_append (s t : String) : getBytesUtf8 (s ++ t) = getBytesUtf8 s ++ getBytesUtf8 t := by
  rw [getBytesUtf8, String.toList_append, List.flatMap_append]
  rfl

structure Libs where
  /-- `new String(.., Utf8)`, which replaces what is malformed. -/
  newString : List UInt8 → String
  newString_getBytes : ∀ s, newString (getBytesUtf8 s) = s
  /-- `BaseEncoding.base64()` -/
  base64Encode : List UInt8 → String
  base64Decode : String → Except Throwable (List UInt8)
  base64Decode_encode : ∀ l, base64Decode (base64Encode l) = .ok l
  /-- `BaseEncoding.base16().lowerCase()` -/
  hexEncode : List UInt8 → String
  hexDecode : String → Except Throwable (List UInt8)
  hexDecode_encode : ∀ l, hexDecode (hexEncode l) = .ok l
  /-- `InetAddresses.forString`, the address as its bytes -/
  forString : String → Except Throwable (List UInt8)
  forString_dottedQuad : ∀ a b c d : UInt8, forString (dottedQuad a.toNat b.toNat c.toNat d.toNat) = .ok [a, b, c, d]
  /-- `UPPER_UNDERSCORE.converterTo(UPPER_CAMEL)` -/
  upperCamel : String → String
  upperCamel_BYTES : upperCamel "BYTES" = "Bytes"
  upperCamel_I16 : upperCamel "I16" = "I16"
  upperCamel_I64 : upperCamel "I64" = "I64"

namespace Libs

/-- `InetAddresses.coerceToInteger` of an IPv4 address: its bytes, big endian. -/
def coerceToInteger (address : List UInt8) : Int32 := ByteBuffer.toInt address

def longToByteArray (l : Int64) : List UInt8 := BigEndian.toBytes 8 l.toUInt64.toNat

/-- `Longs.fromByteArray`, of at least eight bytes. -/
def longFromByteArray (array : List UInt8) : Except Throwable Int64 :=
  if 8 ≤ array.length then .ok (ByteBuffer.toLong (array.take 8))
  else .error ⟨"IllegalArgumentException", s!"array too small: {array.length} < 8"⟩

theorem longFromByteArray_toByteArray (l : Int64) : longFromByteArray (longToByteArray l) = .ok l := by
  have hlen : (longToByteArray l).length = 8 := BigEndian.length_toBytes _ _
  rw [longFromByteArray, if_pos (Nat.le_of_eq hlen.symm), ← hlen, List.take_length, longToByteArray, ByteBuffer.toLong,
    BigEndian.ofBytes_toBytes l.toUInt64.toNat_lt, UInt64.ofNat_toNat, Int64.toInt64_toUInt64]

/-! ## An instance -/

/-- The numbers between the dots of an address, if they are bytes. -/
def parseQuad (s : String) : Option (List UInt8) :=
  (s.toList.splitOn '.').mapM (fun field =>
    (String.ofList field).toNat?.bind (fun n => if n < 256 then some (UInt8.ofNat n) else none))

theorem toList_dottedQuad (a b c d : Nat) :
    (dottedQuad a b c d).toList = ['.'].intercalate [a.repr.toList, b.repr.toList, c.repr.toList, d.repr.toList] := by
  have h : dottedQuad a b c d = a.repr ++ "." ++ b.repr ++ "." ++ c.repr ++ "." ++ d.repr := rfl
  rw [h]
  simp [String.toList_append, List.intercalate]

theorem parseQuad_dottedQuad (a b c d : UInt8) :
    parseQuad (dottedQuad a.toNat b.toNat c.toNat d.toNat) = some [a, b, c, d] := by
  have hdot (n : Nat) : '.' ∉ Nat.toDigits 10 n := fun h =>
    absurd (Nat.isDigit_of_mem_toDigits (by decide) (by decide) h) (by decide)
  have hsplit : (dottedQuad a.toNat b.toNat c.toNat d.toNat).toList.splitOn '.' =
      [a.toNat.repr.toList, b.toNat.repr.toList, c.toNat.repr.toList, d.toNat.repr.toList] := by
    rw [toList_dottedQuad]
    exact List.splitOn_intercalate _ (by simp [hdot]) (by simp)
  have hfield (n : UInt8) : ((String.ofList n.toNat.repr.toList).toNat?.bind
      (fun n => if n < 256 then some (UInt8.ofNat n) else none)) = some n := by
    rw [String.ofList_toList, Nat.toNat?_repr, Option.bind_some, if_pos n.toNat_lt, UInt8.ofNat_toNat]
  rw [parseQuad, hsplit]
  simp only [List.mapM_cons, List.mapM_nil, hfield]
  rfl

/-- An instance: with these functions for all but base 64, for which it has base 16 again. -/
def sample : Libs where
  newString l := (String.fromUTF8? l.toByteArray).getD "\uFFFD"
  newString_getBytes s := by
    have hbytes : (getBytesUtf8 s).toByteArray = s.toByteArray := String.utf8Encode_toList
    rw [hbytes, String.fromUTF8?, dif_pos s.isValidUTF8]
    rfl
  base64Encode := Hex.encode
  base64Decode s := (Hex.decode s).elim (.error ⟨"IllegalArgumentException", ""⟩) .ok
  base64Decode_encode l := by rw [Hex.decode_encode]; rfl
  hexEncode := Hex.encode
  hexDecode s := (Hex.decode s).elim (.error ⟨"IllegalArgumentException", ""⟩) .ok
  hexDecode_encode l := by rw [Hex.decode_encode]; rfl
  forString s := (parseQuad s).elim (.error ⟨"IllegalArgumentException", s ++ " is not an IP string literal."⟩) .ok
  forString_dottedQuad a b c d := by rw [parseQuad_dottedQuad]; rfl
  upperCamel s := if s = "BYTES" then "Bytes" else s
  upperCamel_BYTES := by decide
  upperCamel_I16 := by decide
  upperCamel_I64 := by decide

end Libs
end Zipkin
