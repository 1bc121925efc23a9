import Mathlib.Data.List.Basic
/-!
# LowerCase — `String.toLowerCase`

The result depends on the locale of the machine, and can be longer or shorter than the string, so the function is a
parameter, with what its documentation says of it in every locale: only characters that are not in lower case change,
and none is left in the result.
-/
namespace Zipkin

structure Locale where
  toLowerCase : String → String
  toLowerCase_toLowerCase : ∀ s, toLowerCase (toLowerCase s) = toLowerCase s
  toLowerCase_eq_empty : ∀ s, toLowerCase s = "" ↔ s = ""
  /-- A part of a string in lower case is in lower case. -/
  toLowerCase_of_append : ∀ s t, toLowerCase (s ++ t) = s ++ t → toLowerCase t = t
  /-- What is in lower case after a dot stays as it is. -/
  toLowerCase_append_dot : ∀ s t, toLowerCase t = t → ∃ s', toLowerCase (s ++ "." ++ t) = s' ++ "." ++ t

namespace Locale

variable (locale : Locale)

/-- **A key with the lower case name is a key with the name** only if the name is in lower case. -/
theorem toLowerCase_eq_of_key_eq {s s' n : String} (h : s ++ "." ++ locale.toLowerCase n = s' ++ "." ++ n) :
    locale.toLowerCase n = n := by
  have hlist : s.toList ++ '.' :: (locale.toLowerCase n).toList = s'.toList ++ '.' :: n.toList := by
    have h' := congrArg String.toList h
    simpa [String.toList_append] using h'
  rcases List.append_eq_append_iff.1 hlist with ⟨a, -, ha⟩ | ⟨c, -, hc⟩
  · -- the name is at the end of the lower case name
    cases a with
    | nil => exact String.toList_injective (List.cons.inj ha).2
    | cons x a =>
      have htail : locale.toLowerCase n = String.ofList (a ++ ['.']) ++ n := by
        apply String.toList_injective
        simpa [String.toList_append] using (List.cons.inj ha).2
      refine locale.toLowerCase_of_append (String.ofList (a ++ ['.'])) n ?_
      rw [← htail, toLowerCase_toLowerCase]
  · -- the lower case name is at the end of the name
    cases c with
    | nil => exact (String.toList_injective (List.cons.inj hc).2).symm
    | cons x c =>
      have htail : n = String.ofList c ++ "." ++ locale.toLowerCase n := by
        apply String.toList_injective
        simpa [String.toList_append] using (List.cons.inj hc).2
      obtain ⟨p, hp⟩ := locale.toLowerCase_append_dot (String.ofList c) _ (locale.toLowerCase_toLowerCase n)
      rw [← htail] at hp
      have hlen := congrArg (fun s => s.toList.length) hp
      simp only [String.toList_append, List.length_append] at hlen
      have hdot : ".".toList.length = 1 := rfl
      omega

theorem toLower_toLower (c : Char) : c.toLower.toLower = c.toLower := by
  have hup : ¬ (c.toLower.val ≥ 'A'.val ∧ c.toLower.val ≤ 'Z'.val) := by
    unfold Char.toLower
    split
    · rename_i h
      simp only [ge_iff_le, UInt32.le_iff_toNat_le] at h ⊢
      have hA : 'A'.val.toNat = 65 := rfl
      have hZ : 'Z'.val.toNat = 90 := rfl
      have hadd : (c.val + ('a'.val - 'A'.val)).toNat = c.val.toNat + 32 := by
        have h32 : ('a'.val - 'A'.val).toNat = 32 := rfl
        rw [UInt32.toNat_add, h32]
        omega
      omega
    · assumption
  conv => lhs; unfold Char.toLower
  exact dif_neg hup

/-- A locale that knows the letters of ASCII. -/
def ascii : Locale where
  toLowerCase s := String.ofList (s.toList.map Char.toLower)
  toLowerCase_toLowerCase s := by
    rw [String.toList_ofList, List.map_map]
    exact congrArg String.ofList (List.map_congr_left (fun c _ => toLower_toLower c))
  toLowerCase_eq_empty s := by
    rw [← String.toList_inj, String.toList_ofList, ← String.toList_inj]
    exact List.map_eq_nil_iff
  toLowerCase_of_append s t h := by
    have h' := congrArg String.toList h
    simp only [String.toList_ofList, String.toList_append, List.map_append] at h'
    exact String.toList_injective (by rw [String.toList_ofList]; exact (List.append_inj h' (List.length_map _)).2)
  toLowerCase_append_dot s t h := by
    refine ⟨String.ofList (s.toList.map Char.toLower), String.toList_injective ?_⟩
    have h' := congrArg String.toList h
    rw [String.toList_ofList] at h'
    simp only [String.toList_ofList, String.toList_append, List.map_append, h']
    rfl

end Locale
end Zipkin
