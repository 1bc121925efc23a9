import Mathlib.Algebra.Group.Int.Defs
import Mathlib.Algebra.Group.Nat.Defs
import Mathlib.Data.List.Basic
import Mathlib.Order.Compare
/-!
# Common — endpoints, annotations and their order

The immutable records a span is made of (`Endpoint.scala`, `Annotation.scala`, `BinaryAnnotation.scala`,
`AnnotationType.scala`, `Constants.scala`).  Ids, addresses and ports have the machine's own widths.  A timestamp is an
integer, and code that computes with timestamps says where the 64-bit `Long` wraps (`wrap64`).

An annotation is ordered by timestamp, then value, then host, a missing host first.  The order tells all annotations
apart, because strings are compared by their UTF-16 units and two strings with equal units are equal (`utf16_injective`).
-/
namespace Zipkin

/-- The two's complement value of an integer in a 64-bit `Long`. -/
def wrap64 (x : Int) : Int := x.bmod (2 ^ 64)

theorem wrap64_spec (x : Int) : ∃ q : Int, wrap64 x = x - 2 ^ 64 * q ∧ -2 ^ 63 ≤ wrap64 x ∧ wrap64 x < 2 ^ 63 := by
  refine ⟨x.bdiv (2 ^ 64), Int.bmod_eq_self_sub_mul_bdiv x (2 ^ 64), ?_, ?_⟩
  · exact Int.le_bmod (x := x) (m := 2 ^ 64) (by decide)
  · exact Int.bmod_lt (x := x) (m := 2 ^ 64) (by decide)

theorem wrap64_eq_iff {x y : Int} : wrap64 x = y ↔ (-2 ^ 63 ≤ y ∧ y < 2 ^ 63) ∧ (2 ^ 64 : Int) ∣ y - x := by
  obtain ⟨q, hq, hle, hlt⟩ := wrap64_spec x
  constructor
  · rintro rfl
    exact ⟨⟨hle, hlt⟩, ⟨-q, by omega⟩⟩
  · rintro ⟨hy, ⟨r, hr⟩⟩
    omega

theorem wrap64_of_mem {x : Int} (h₁ : -2 ^ 63 ≤ x) (h₂ : x < 2 ^ 63) : wrap64 x = x :=
  wrap64_eq_iff.2 ⟨⟨h₁, h₂⟩, ⟨0, by omega⟩⟩

/-! ## `String.compareTo` -/

/-- The UTF-16 units of a character: itself, or a surrogate pair. -/
def utf16Char (c : Char) : List Nat :=
  if c.toNat < 0x10000 then [c.toNat]
  else [0xD800 + (c.toNat - 0x10000) / 0x400, 0xDC00 + (c.toNat - 0x10000) % 0x400]

def utf16 (s : String) : List Nat := s.toList.flatMap utf16Char

/-- `String.compareTo`: by the first differing unit, a prefix first. -/
def compareTo (a b : String) : Ordering := compare (utf16 a) (utf16 b)

theorem utf16Char_append_inj {c d : Char} {x y : List Nat} (h : utf16Char c ++ x = utf16Char d ++ y) :
    c = d ∧ x = y := by
  have hc : c.toNat < 0xD800 ∨ (0xDFFF < c.toNat ∧ c.toNat < 0x110000) := c.valid
  have hd : d.toNat < 0xD800 ∨ (0xDFFF < d.toNat ∧ d.toNat < 0x110000) := d.valid
  unfold utf16Char at h
  split at h <;> split at h <;>
    simp only [List.cons_append, List.nil_append, List.cons.injEq] at h
  -- a surrogate unit is never the unit of a character of its own
  · exact ⟨Char.toNat_inj.1 h.1, h.2⟩
  · omega
  · omega
  · exact ⟨Char.toNat_inj.1 (by omega), h.2.2⟩

theorem utf16_injective {a b : String} (h : utf16 a = utf16 b) : a = b := by
  have hlist : ∀ l m : List Char, l.flatMap utf16Char = m.flatMap utf16Char → l = m := by
    have hne : ∀ c : Char, utf16Char c ≠ [] := by intro c; unfold utf16Char; split <;> simp
    intro l
    induction l with
    | nil =>
      intro m h
      cases m with
      | nil => rfl
      | cons d m =>
        rw [List.flatMap_nil, List.flatMap_cons] at h
        exact absurd (List.append_eq_nil_iff.1 h.symm).1 (hne d)
    | cons c l ih =>
      intro m h
      cases m with
      | nil =>
        rw [List.flatMap_nil, List.flatMap_cons] at h
        exact absurd (List.append_eq_nil_iff.1 h).1 (hne c)
      | cons d m =>
        rw [List.flatMap_cons, List.flatMap_cons] at h
        obtain ⟨hcd, hlm⟩ := utf16Char_append_inj h
        rw [hcd, ih m hlm]
  exact String.toList_injective (hlist _ _ h)

instance : Std.TransCmp compareTo :=
  inferInstanceAs (Std.TransCmp (compareOn utf16))

instance : Std.LawfulEqCmp compareTo where
  compare_self := Std.ReflOrd.compare_self
  eq_of_compare h := utf16_injective (Std.LawfulEqOrd.eq_of_compare h)

/-! ## `Constants` -/

namespace Constants

def ClientSend : String := "cs"
def ClientRecv : String := "cr"
def ServerSend : String := "ss"
def ServerRecv : String := "sr"
def WireSend : String := "ws"
def WireRecv : String := "wr"

def CoreClient : List String := [ClientSend, ClientRecv]
def CoreServer : List String := [ServerRecv, ServerSend]
def CoreWire : List String := [WireSend, WireRecv]
def CoreAnnotations : List String := CoreClient ++ CoreServer ++ CoreWire

/-- 127.0.0.1 -/
def LocalhostLoopBackIP : Int32 := ((127 : Int32) <<< 24) ||| 1

end Constants

/-! ## `Endpoint` and `Annotation` -/

structure Endpoint where
  ipv4 : Int32
  port : Int16
  serviceName : String
deriving DecidableEq, Repr

def Endpoint.compare (a b : Endpoint) : Ordering :=
  (compareTo a.serviceName b.serviceName).then
    ((Ord.compare a.ipv4 b.ipv4).then (Ord.compare a.port b.port))

instance : Ord Endpoint := ⟨Endpoint.compare⟩

instance : Std.TransOrd Endpoint :=
  inferInstanceAs (Std.TransCmp (compareLex (compareOn (fun e : Endpoint => utf16 e.serviceName))
    (compareLex (compareOn Endpoint.ipv4) (compareOn Endpoint.port))))

instance : Std.LawfulEqOrd Endpoint where
  eq_of_compare {a b} h := by
    obtain ⟨hn, h⟩ := Ordering.then_eq_eq.1 h
    obtain ⟨hi, hp⟩ := Ordering.then_eq_eq.1 h
    cases a
    cases b
    simp only [Std.LawfulEqCmp.compare_eq_iff_eq] at hn hi hp
    subst hn hi hp
    rfl

structure Annotation where
  timestamp : Int
  value : String
  host : Option Endpoint
deriving DecidableEq, Repr

/-- Timestamp, then value, then host with `nullsFirst`. -/
def Annotation.compare (a b : Annotation) : Ordering :=
  (Ord.compare a.timestamp b.timestamp).then
    ((compareTo a.value b.value).then (Ord.compare a.host b.host))

instance : Ord Annotation where
  compare := Annotation.compare

instance : Std.TransOrd Annotation :=
  inferInstanceAs (Std.TransCmp (compareLex (compareOn Annotation.timestamp)
    (compareLex (compareOn (fun a : Annotation => utf16 a.value)) (compareOn Annotation.host))))

instance : Std.LawfulEqOrd Annotation where
  eq_of_compare {a b} h := by
    obtain ⟨ht, h⟩ := Ordering.then_eq_eq.1 h
    obtain ⟨hv, hh⟩ := Ordering.then_eq_eq.1 h
    cases a
    cases b
    simp only [Std.LawfulEqCmp.compare_eq_iff_eq] at ht hv hh
    subst ht hv hh
    rfl

/-! ## `BinaryAnnotation` -/

structure AnnotationType where
  value : Int32
  name : String
deriving DecidableEq, Repr

namespace AnnotationType

def bool : AnnotationType := ⟨0, "Bool"⟩
def bytes : AnnotationType := ⟨1, "Bytes"⟩
def i16 : AnnotationType := ⟨2, "I16"⟩
def i32 : AnnotationType := ⟨3, "I32"⟩
def i64 : AnnotationType := ⟨4, "I64"⟩
def double : AnnotationType := ⟨5, "Double"⟩
def string : AnnotationType := ⟨6, "String"⟩

/-- `none` is the `MatchError` of a name outside the seven. -/
def fromName (v : String) : Option AnnotationType :=
  [bool, bytes, i16, i32, i64, double, string].find? (fun t => t.name == v)

end AnnotationType

/-- The payload is a parameter: its bytes where they are looked at, a reference to a buffer where reading it moves the
buffer. -/
structure BinaryAnnotation (β : Type) where
  key : String
  value : β
  annotationType : AnnotationType
  host : Option Endpoint
deriving DecidableEq, Repr

end Zipkin
