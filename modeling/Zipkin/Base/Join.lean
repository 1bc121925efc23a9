import Mathlib.Data.List.Nodup
import Mathlib.Data.List.Pairwise
import Mathlib.Data.List.Perm.Basic
/-!
# Join — joining distinct rows to items by a part of their columns

Each part has a row and some items.  The rows are kept once each, and an item is found again under a key of the row of its
part.  A key that is not the whole row can be of several rows, and an item is then joined to each of them.
`nodup_flatMap_iff` says when no item is joined twice.  Rows that are selected by a weaker condition have the same items
only if the rows that it adds have none (`flatMap_filter_perm_iff`).
-/

namespace Join

variable {π ρ κ α : Type*}

/-- `rows` are the distinct rows of the parts, and `under` a row are the distinct items of all parts with its key. -/
structure IsJoin (row : π → ρ) (key : ρ → κ) (items : π → List α) (parts : List π) (rows : List ρ)
    (under : ρ → List α) : Prop where
  nodup_rows : rows.Nodup
  mem_rows : ∀ r, r ∈ rows ↔ ∃ x ∈ parts, row x = r
  nodup_under : ∀ r ∈ rows, (under r).Nodup
  mem_under : ∀ r ∈ rows, ∀ a, a ∈ under r ↔ ∃ x ∈ parts, key (row x) = key r ∧ a ∈ items x

variable {row : π → ρ} {key : ρ → κ} {items : π → List α} {parts : List π} {rows : List ρ} {under : ρ → List α}

/-- **No item is lost**, and none is made up. -/
theorem IsJoin.mem_flatMap (h : IsJoin row key items parts rows under) {a : α} :
    a ∈ rows.flatMap under ↔ ∃ x ∈ parts, a ∈ items x := by
  rw [List.mem_flatMap]
  constructor
  · rintro ⟨r, hr, ha⟩
    obtain ⟨x, hx, -, ha⟩ := (h.mem_under r hr a).1 ha
    exact ⟨x, hx, ha⟩
  · rintro ⟨x, hx, ha⟩
    have hr : row x ∈ rows := (h.mem_rows _).2 ⟨x, hx, rfl⟩
    exact ⟨row x, hr, (h.mem_under _ hr a).2 ⟨x, hx, rfl, ha⟩⟩

/-- An item is under the rows of two parts at once only if they are one row. -/
theorem IsJoin.nodup_flatMap_iff_forall (h : IsJoin row key items parts rows under) : (rows.flatMap under).Nodup ↔
    ∀ r ∈ rows, ∀ r' ∈ rows, ∀ a ∈ under r, a ∈ under r' → r = r' := by
  rw [List.nodup_flatMap]
  constructor
  · rintro ⟨-, hdisjoint⟩ r hr r' hr' a ha ha'
    by_contra hne
    have hsymm : Std.Symm (Function.onFun List.Disjoint under) := ⟨fun _ _ hd _ ha ha' => hd ha' ha⟩
    exact hdisjoint.forall hr hr' hne ha ha'
  · intro hone
    refine ⟨h.nodup_under, h.nodup_rows.pairwise_of_forall_ne (fun r hr r' hr' hne a ha ha' => ?_)⟩
    exact hne (hone r hr r' hr' a ha ha')

/-- **When no item is joined twice**: parts with one key, of which one has an item, have one row, and parts that share an
item have one key. -/
theorem IsJoin.nodup_flatMap_iff (h : IsJoin row key items parts rows under) : (rows.flatMap under).Nodup ↔
    ∀ x ∈ parts, ∀ y ∈ parts, (items x ≠ [] → key (row x) = key (row y) → row x = row y) ∧
      ∀ a ∈ items x, a ∈ items y → key (row x) = key (row y) := by
  rw [h.nodup_flatMap_iff_forall]
  have hrow : ∀ x ∈ parts, row x ∈ rows := fun x hx => (h.mem_rows _).2 ⟨x, hx, rfl⟩
  constructor
  · intro hone x hx y hy
    refine ⟨fun hne hkey => ?_, fun a ha ha' => ?_⟩
    · obtain ⟨a, ha⟩ := List.exists_mem_of_ne_nil _ hne
      exact hone _ (hrow x hx) _ (hrow y hy) a ((h.mem_under _ (hrow x hx) a).2 ⟨x, hx, rfl, ha⟩)
        ((h.mem_under _ (hrow y hy) a).2 ⟨x, hx, hkey, ha⟩)
    · have heq := hone _ (hrow x hx) _ (hrow y hy) a ((h.mem_under _ (hrow x hx) a).2 ⟨x, hx, rfl, ha⟩)
        ((h.mem_under _ (hrow y hy) a).2 ⟨y, hy, rfl, ha'⟩)
      rw [heq]
  · intro hparts r hr r' hr' a ha ha'
    obtain ⟨x, hx, hxkey, hxa⟩ := (h.mem_under r hr a).1 ha
    obtain ⟨x', hx', hxkey', hxa'⟩ := (h.mem_under r' hr' a).1 ha'
    obtain ⟨y, hy, rfl⟩ := (h.mem_rows r).1 hr
    obtain ⟨y', hy', rfl⟩ := (h.mem_rows r').1 hr'
    -- the item's part has the row of `y`, and its key is that of `y'` too
    have hkey : key (row x) = key (row y') := ((hparts x hx x' hx').2 a hxa hxa').trans hxkey'
    have hne : items x ≠ [] := List.ne_nil_of_mem hxa
    exact ((hparts x hx y hy).1 hne hxkey).symm.trans ((hparts x hx y' hy').1 hne hkey)

/-! ## A weaker condition -/

section Filter
variable {l : List ρ} {f : ρ → List α} {p q : ρ → Bool}

theorem flatMap_filter_perm_append (h : ∀ r ∈ l, q r = true → p r = true) : ((l.filter p).flatMap f).Perm
    ((l.filter q).flatMap f ++ ((l.filter p).filter fun r => !q r).flatMap f) := by
  have hsplit := (List.filter_append_perm q (l.filter p)).flatMap_right f
  rw [List.flatMap_append, List.filter_filter] at hsplit
  have hq : l.filter (fun r => q r && p r) = l.filter q := List.filter_congr (fun r hr => by
    cases hqr : q r with
    | false => rfl
    | true => rw [h r hr hqr]; rfl)
  rw [hq] at hsplit
  exact hsplit.symm

/-- **When a weaker condition selects the same items**: none of the rows that it adds has an item. -/
theorem flatMap_filter_perm_iff (h : ∀ r ∈ l, q r = true → p r = true) :
    ((l.filter p).flatMap f).Perm ((l.filter q).flatMap f) ↔ ∀ r ∈ l, p r = true → q r = false → f r = [] := by
  have hsplit := flatMap_filter_perm_append (f := f) h
  have hrest : ((l.filter p).filter fun r => !q r).flatMap f = [] ↔ ∀ r ∈ l, p r = true → q r = false → f r = [] := by
    rw [List.flatMap_eq_nil_iff]
    simp only [List.mem_filter, Bool.not_eq_true', and_imp]
  rw [← hrest]
  constructor
  · intro hperm
    have hlength := (hsplit.symm.trans hperm).length_eq
    rw [List.length_append] at hlength
    exact List.eq_nil_of_length_eq_zero (by omega)
  · intro hnil
    rw [hnil, List.append_nil] at hsplit
    exact hsplit

end Filter

end Join
