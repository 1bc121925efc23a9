import Mathlib.Data.List.Basic
import Mathlib.Data.List.Dedup
import Mathlib.Data.List.Induction
import Mathlib.Data.List.Nodup
/-!
# AssocMap — a mutable map as an association list

A map is the list of its entries in the order in which their keys were first put; `put` replaces the value of a key in
place or appends a new entry, and `List.lookup` reads.  `groupInto` is the loop that merges every element of a list into
the entry of its key: at each key the map then holds the left-to-right merge of the elements with that key
(`lookup_groupInto`).
-/
namespace AssocMap

variable {κ α : Type*} [DecidableEq κ]

def put (k : κ) (v : α) : List (κ × α) → List (κ × α)
  | [] => [(k, v)]
  | e :: m => if e.1 = k then (k, v) :: m else e :: put k v m

theorem lookup_put (k k' : κ) (v : α) : ∀ m : List (κ × α),
    (put k v m).lookup k' = if k' = k then some v else m.lookup k'
  | [] => by by_cases h : k' = k <;> simp [put, h]
  | e :: m => by
    unfold put
    by_cases he : e.1 = k
    · rw [if_pos he]
      by_cases h : k' = k
      · simp [h]
      · have hb : (k' == k) = false := by simpa using h
        have hb' : (k' == e.1) = false := by rw [he]; exact hb
        rw [List.lookup_cons, List.lookup_cons, hb', hb, if_neg h]
    · rw [if_neg he, List.lookup_cons, List.lookup_cons, lookup_put k k' v m]
      by_cases hk : k' = e.1
      · have hne : k' ≠ k := hk ▸ he
        simp [hk, he]
      · have hb : (k' == e.1) = false := by simpa using hk
        simp only [hb]

theorem keys_put (k : κ) (v : α) : ∀ m : List (κ × α),
    (put k v m).map Prod.fst = if k ∈ m.map Prod.fst then m.map Prod.fst else m.map Prod.fst ++ [k]
  | [] => by simp [put]
  | e :: m => by
    unfold put
    by_cases he : e.1 = k
    · simp [he]
    · rw [if_neg he, List.map_cons, keys_put k v m, List.map_cons]
      have hne : ¬ k = e.1 := fun h => he h.symm
      by_cases hk : k ∈ m.map Prod.fst
      · rw [if_pos hk, if_pos (List.mem_cons_of_mem _ hk)]
      · rw [if_neg hk, if_neg (by simp only [List.mem_cons, not_or]; exact ⟨hne, hk⟩), List.cons_append]

theorem nodup_keys_put (k : κ) (v : α) {m : List (κ × α)} (h : (m.map Prod.fst).Nodup) :
    ((put k v m).map Prod.fst).Nodup := by
  rw [keys_put]
  split
  · exact h
  · rename_i hk
    exact List.nodup_append.2 ⟨h, List.nodup_singleton k, fun a ha b hb hab => by
      rw [List.mem_singleton] at hb
      exact hk (hb ▸ hab ▸ ha)⟩

theorem mem_put {k : κ} {v : α} {e : κ × α} : ∀ {m : List (κ × α)}, e ∈ put k v m → e = (k, v) ∨ e ∈ m
  | [], h => Or.inl (by simpa [put] using h)
  | x :: m, h => by
    unfold put at h
    split at h
    · rcases List.mem_cons.1 h with h | h
      · exact Or.inl h
      · exact Or.inr (List.mem_cons_of_mem _ h)
    · rcases List.mem_cons.1 h with h | h
      · exact Or.inr (h ▸ List.mem_cons_self)
      · exact (mem_put h).imp id (List.mem_cons_of_mem _)

theorem mem_keys_put {k k' : κ} {v : α} {m : List (κ × α)} :
    k' ∈ (put k v m).map Prod.fst ↔ k' = k ∨ k' ∈ m.map Prod.fst := by
  rw [keys_put]
  split
  · rename_i hk
    exact ⟨Or.inr, fun h => h.elim (fun h => h ▸ hk) id⟩
  · rw [List.mem_append, List.mem_singleton, or_comm]

def putAll (l : List (κ × α)) (m : List (κ × α)) : List (κ × α) := l.foldl (fun m e => put e.1 e.2 m) m

theorem mem_keys_putAll {k : κ} : ∀ {l m : List (κ × α)},
    k ∈ (putAll l m).map Prod.fst ↔ k ∈ l.map Prod.fst ∨ k ∈ m.map Prod.fst
  | [], m => by simp [putAll]
  | e :: l, m => by
    have hcons : putAll (e :: l) m = putAll l (put e.1 e.2 m) := rfl
    rw [hcons, mem_keys_putAll, mem_keys_put, List.map_cons, List.mem_cons, or_left_comm, or_assoc]

theorem putAll_append (l l' m : List (κ × α)) : putAll (l ++ l') m = putAll l' (putAll l m) := List.foldl_append

theorem nodup_keys_putAll : ∀ {l m : List (κ × α)}, (m.map Prod.fst).Nodup → ((putAll l m).map Prod.fst).Nodup
  | [], _, h => h
  | e :: l, _, h => nodup_keys_putAll (l := l) (nodup_keys_put e.1 e.2 h)

theorem nodup_keys_putAll_nil (l : List (κ × α)) : ((putAll l []).map Prod.fst).Nodup :=
  nodup_keys_putAll (m := []) List.nodup_nil

theorem put_of_not_mem {k : κ} {v : α} : ∀ {m : List (κ × α)}, k ∉ m.map Prod.fst → put k v m = m ++ [(k, v)]
  | [], _ => rfl
  | e :: m, h => by
    rw [List.map_cons, List.mem_cons, not_or] at h
    rw [put, if_neg (Ne.symm h.1), put_of_not_mem h.2, List.cons_append]

theorem put_append_of_not_mem {k : κ} {v : α} : ∀ {m m' : List (κ × α)}, k ∉ m.map Prod.fst →
    put k v (m ++ m') = m ++ put k v m'
  | [], _, _ => rfl
  | e :: m, m', h => by
    rw [List.map_cons, List.mem_cons, not_or] at h
    rw [List.cons_append, put, if_neg (Ne.symm h.1), put_append_of_not_mem h.2, List.cons_append]

/-- **Entries with other keys are left alone.** -/
theorem putAll_append_of_not_mem : ∀ {l m m' : List (κ × α)}, (∀ e ∈ l, e.1 ∉ m.map Prod.fst) →
    putAll l (m ++ m') = m ++ putAll l m'
  | [], _, _, _ => rfl
  | e :: l, m, m', h => by
    have hcons : ∀ m : List (κ × α), putAll (e :: l) m = putAll l (put e.1 e.2 m) := fun _ => rfl
    rw [hcons, hcons, put_append_of_not_mem (h e List.mem_cons_self),
      putAll_append_of_not_mem (fun d hd => h d (List.mem_cons_of_mem e hd))]

/-- **New keys are appended.** -/
theorem putAll_eq_append : ∀ {l m : List (κ × α)}, ((m ++ l).map Prod.fst).Nodup → putAll l m = m ++ l
  | [], m, _ => (List.append_nil m).symm
  | e :: l, m, h => by
    have hnew : e.1 ∉ m.map Prod.fst := fun hmem => by
      rw [List.map_append, List.map_cons] at h
      exact (List.disjoint_of_nodup_append h) hmem List.mem_cons_self
    have hcons : putAll (e :: l) m = putAll l (put e.1 e.2 m) := rfl
    rw [hcons, put_of_not_mem hnew, putAll_eq_append (by rwa [List.append_assoc]), List.append_assoc]
    rfl

theorem mem_put_iff {k : κ} {v : α} {e : κ × α} : ∀ {m : List (κ × α)}, (m.map Prod.fst).Nodup →
    (e ∈ put k v m ↔ e = (k, v) ∨ e ∈ m ∧ e.1 ≠ k)
  | [], _ => by simp [put]
  | x :: m, h => by
    rw [List.map_cons, List.nodup_cons] at h
    unfold put
    by_cases hx : x.1 = k
    · rw [if_pos hx, List.mem_cons, List.mem_cons]
      refine or_congr_right ⟨fun he => ⟨Or.inr he, fun hk => ?_⟩, fun he => he.1.resolve_left (fun hex => ?_)⟩
      · exact h.1 (hx ▸ hk ▸ List.mem_map_of_mem he)
      · exact he.2 (hex ▸ hx)
    · rw [if_neg hx, List.mem_cons, List.mem_cons, mem_put_iff h.2, or_left_comm]
      refine or_congr_right ⟨fun he => he.elim (fun hex => ⟨Or.inl hex, hex ▸ hx⟩) (fun he => ⟨Or.inr he.1, he.2⟩),
        fun he => he.1.imp id (fun hm => ⟨hm, he.2⟩)⟩

theorem mem_putAll {m : List (κ × α)} (hm : (m.map Prod.fst).Nodup) {l : List (κ × α)} {e : κ × α} :
    e ∈ putAll l m ↔ e ∈ putAll l [] ∨ e ∈ m ∧ e.1 ∉ l.map Prod.fst := by
  induction l using List.reverseRecOn with
  | nil => simp [putAll]
  | append_singleton l x ih =>
    have hsnoc : ∀ m : List (κ × α), putAll (l ++ [x]) m = put x.1 x.2 (putAll l m) := fun m => putAll_append l [x] m
    rw [hsnoc, hsnoc, mem_put_iff (nodup_keys_putAll hm), mem_put_iff (nodup_keys_putAll_nil l), ih,
      List.map_append, List.mem_append, not_or, List.map_singleton, List.mem_singleton]
    tauto

theorem mem_of_mem_putAll {l : List (κ × α)} {e : κ × α} (h : e ∈ putAll l []) : e ∈ l := by
  induction l using List.reverseRecOn with
  | nil => cases h
  | append_singleton l x ih =>
    rw [putAll_append] at h
    rcases mem_put h with rfl | h
    · exact List.mem_append_right _ List.mem_cons_self
    · exact List.mem_append_left _ (ih h)

theorem mem_putAll_of_last {l l' m : List (κ × α)} {e : κ × α} (hm : (m.map Prod.fst).Nodup)
    (h : e.1 ∉ l'.map Prod.fst) : e ∈ putAll (l ++ e :: l') m := by
  have hnodup := nodup_keys_putAll (l := l) hm
  have hcons : putAll (e :: l') (putAll l m) = putAll l' (put e.1 e.2 (putAll l m)) := rfl
  rw [putAll_append, hcons, mem_putAll (nodup_keys_put e.1 e.2 hnodup)]
  exact Or.inr ⟨(mem_put_iff hnodup).2 (Or.inl rfl), h⟩

theorem mem_putAll_of_const {l : List (κ × α)} {v : α} (h : ∀ e ∈ l, e.2 = v) {e : κ × α} :
    e ∈ putAll l [] ↔ e ∈ l := by
  refine ⟨mem_of_mem_putAll, fun he => ?_⟩
  obtain ⟨e', he', hkey⟩ := List.mem_map.1 (mem_keys_putAll.2 (Or.inl (List.mem_map_of_mem he)) :
    e.1 ∈ (putAll l []).map Prod.fst)
  have heq : e' = e := Prod.ext hkey ((h e' (mem_of_mem_putAll he')).trans (h e he).symm)
  rwa [← heq]

theorem put_of_mem {k : κ} {v : α} : ∀ {m : List (κ × α)}, (m.map Prod.fst).Nodup → (k, v) ∈ m → put k v m = m
  | [], _, h => (List.not_mem_nil h).elim
  | e :: m, hn, h => by
    rw [List.map_cons, List.nodup_cons] at hn
    unfold put
    rcases List.mem_cons.1 h with rfl | h
    · rw [if_pos rfl]
    · have hne : e.1 ≠ k := fun hk => hn.1 (hk ▸ List.mem_map_of_mem h)
      rw [if_neg hne, put_of_mem hn.2 h]

/-- **Where no key has two values, the map is the list** without repetitions, in its order. -/
theorem putAll_sublist {l : List (κ × α)} (h : ∀ e ∈ l, ∀ e' ∈ l, e.1 = e'.1 → e.2 = e'.2) : (putAll l []).Sublist l := by
  induction l using List.reverseRecOn with
  | nil => exact .slnil
  | append_singleton l x ih =>
    have hsub := ih (fun e he e' he' => h e (List.mem_append_left _ he) e' (List.mem_append_left _ he'))
    have hsnoc : putAll (l ++ [x]) [] = put x.1 x.2 (putAll l []) := putAll_append l [x] []
    rw [hsnoc]
    by_cases hx : x.1 ∈ (putAll l []).map Prod.fst
    · obtain ⟨e, he, hkey⟩ := List.mem_map.1 hx
      have hval := h e (List.mem_append_left _ (mem_of_mem_putAll he)) x (by simp) hkey
      have hmem : (x.1, x.2) ∈ putAll l [] := by rw [← hkey, ← hval]; exact he
      rw [put_of_mem (nodup_keys_putAll_nil l) hmem]
      exact hsub.trans (List.sublist_append_left l [x])
    · rw [put_of_not_mem hx]
      exact hsub.append (.refl _)

/-! ## The last write -/

/-- The last element of the list that has the property. -/
def LastWith {β : Type*} (P : β → Prop) (l : List β) (b : β) : Prop :=
  ∃ before after, l = before ++ b :: after ∧ P b ∧ ∀ c ∈ after, ¬ P c

section LastWith
variable {β : Type*} {P : β → Prop} {l : List β} {b : β}

theorem LastWith.mem (h : LastWith P l b) : b ∈ l := by
  obtain ⟨before, after, rfl, -⟩ := h
  exact List.mem_append_right _ List.mem_cons_self

theorem LastWith.prop (h : LastWith P l b) : P b := by
  obtain ⟨_, _, -, hb, -⟩ := h
  exact hb

theorem lastWith_append_singleton {c : β} :
    LastWith P (l ++ [c]) b ↔ P c ∧ b = c ∨ ¬ P c ∧ LastWith P l b := by
  constructor
  · rintro ⟨before, after, heq, hb, hafter⟩
    rcases List.eq_nil_or_concat after with rfl | ⟨after, d, rfl⟩
    · obtain ⟨-, hc⟩ := List.append_inj' heq rfl
      rw [← (List.cons.inj hc).1] at hb
      exact Or.inl ⟨hb, (List.cons.inj hc).1.symm⟩
    · have hassoc : before ++ b :: after.concat d = (before ++ b :: after) ++ [d] := by simp
      obtain ⟨hl, hc⟩ := List.append_inj' (heq.trans hassoc) rfl
      obtain rfl := (List.cons.inj hc).1
      exact Or.inr ⟨hafter _ (by simp), before, after, hl, hb, fun e he => hafter e (by simp [he])⟩
  · rintro (⟨hc, rfl⟩ | ⟨hc, before, after, rfl, hb, hafter⟩)
    · exact ⟨l, [], rfl, hc, fun _ h => (List.not_mem_nil h).elim⟩
    · refine ⟨before, after ++ [c], by simp, hb, fun e he => ?_⟩
      rcases List.mem_append.1 he with he | he
      · exact hafter e he
      · rwa [List.mem_singleton.1 he]

theorem exists_lastWith (hb : b ∈ l) (hP : P b) : ∃ c, LastWith P l c := by
  induction l using List.reverseRecOn with
  | nil => cases hb
  | append_singleton l c ih =>
    by_cases hc : P c
    · exact ⟨c, lastWith_append_singleton.2 (Or.inl ⟨hc, rfl⟩)⟩
    · rcases List.mem_append.1 hb with hb | hb
      · obtain ⟨d, hd⟩ := ih hb
        exact ⟨d, lastWith_append_singleton.2 (Or.inr ⟨hc, hd⟩)⟩
      · exact absurd hP (List.mem_singleton.1 hb ▸ hc)

/-- **Under each key the map holds what the last element with that key has put there.** -/
theorem mem_putAll_flatMap {f : β → List (κ × α)} {e : κ × α} :
    e ∈ putAll (l.flatMap f) [] ↔ ∃ b, LastWith (fun b => e.1 ∈ (f b).map Prod.fst) l b ∧ e ∈ putAll (f b) [] := by
  induction l using List.reverseRecOn with
  | nil =>
    refine ⟨fun h => (List.not_mem_nil h).elim, ?_⟩
    rintro ⟨b, hb, -⟩
    exact (List.not_mem_nil hb.mem).elim
  | append_singleton l c ih =>
    rw [List.flatMap_append, List.flatMap_singleton, putAll_append, mem_putAll (nodup_keys_putAll_nil _), ih]
    simp only [lastWith_append_singleton]
    constructor
    · rintro (h | ⟨⟨b, hb, h⟩, hc⟩)
      · refine ⟨c, Or.inl ⟨?_, rfl⟩, h⟩
        exact (mem_keys_putAll.1 (List.mem_map_of_mem h)).resolve_right List.not_mem_nil
      · exact ⟨b, Or.inr ⟨hc, hb⟩, h⟩
    · rintro ⟨b, ⟨-, rfl⟩ | ⟨hc, hb⟩, h⟩
      · exact Or.inl h
      · exact Or.inr ⟨⟨b, hb, h⟩, hc⟩

theorem lastWith_cons {c : β} : LastWith P (c :: l) b ↔ (b = c ∧ P c ∧ ∀ d ∈ l, ¬ P d) ∨ LastWith P l b := by
  constructor
  · rintro ⟨before, after, heq, hb, hafter⟩
    cases before with
    | nil =>
      obtain ⟨rfl, rfl⟩ := List.cons.inj heq
      exact Or.inl ⟨rfl, hb, hafter⟩
    | cons d before => exact Or.inr ⟨before, after, (List.cons.inj heq).2, hb, hafter⟩
  · rintro (⟨rfl, hb, hl⟩ | ⟨before, after, rfl, hb, hafter⟩)
    · exact ⟨[], l, rfl, hb, hl⟩
    · exact ⟨c :: before, after, rfl, hb, hafter⟩

theorem lastWith_unique {a : β} (ha : LastWith P l a) (hb : LastWith P l b) : a = b := by
  induction l with
  | nil => exact (List.not_mem_nil ha.mem).elim
  | cons c l ih =>
    rcases lastWith_cons.1 ha with ⟨rfl, -, hnone⟩ | ha'
    · rcases lastWith_cons.1 hb with ⟨rfl, -, -⟩ | hb'
      · rfl
      · exact (hnone b hb'.mem hb'.prop).elim
    · rcases lastWith_cons.1 hb with ⟨rfl, -, hnone⟩ | hb'
      · exact (hnone a ha'.mem ha'.prop).elim
      · exact ih ha' hb'

/-- The elements that no later element with the same key replaces. -/
def lasts (key : β → κ) : List β → List β
  | [] => []
  | b :: l => if key b ∈ l.map key then lasts key l else b :: lasts key l

theorem mem_lasts {key : β → κ} : ∀ {l : List β}, b ∈ lasts key l ↔ LastWith (fun c => key c = key b) l b
  | [] => ⟨fun h => (List.not_mem_nil h).elim, fun h => (List.not_mem_nil h.mem).elim⟩
  | c :: l => by
    rw [lasts, lastWith_cons, ← mem_lasts]
    split
    · rename_i hc
      refine ⟨Or.inr, fun h => h.resolve_left ?_⟩
      rintro ⟨rfl, -, hnot⟩
      obtain ⟨d, hd, hkey⟩ := List.mem_map.1 hc
      exact hnot d hd hkey
    · rename_i hc
      rw [List.mem_cons]
      refine or_congr_left ⟨?_, fun h => h.1⟩
      rintro rfl
      exact ⟨rfl, rfl, fun d hd hkey => hc (List.mem_map.2 ⟨d, hd, hkey⟩)⟩

theorem mem_of_mem_lasts {key : β → κ} (h : b ∈ lasts key l) : b ∈ l := (mem_lasts.1 h).mem

theorem exists_mem_lasts {key : β → κ} (hb : b ∈ l) : ∃ c ∈ lasts key l, key c = key b := by
  obtain ⟨c, hc⟩ := exists_lastWith (P := fun c => key c = key b) hb rfl
  refine ⟨c, mem_lasts.2 ?_, hc.prop⟩
  have hprop := hc.prop
  simp only [hprop]
  exact hc

theorem mem_keys_lasts {key : β → κ} {k : κ} : k ∈ (lasts key l).map key ↔ k ∈ l.map key := by
  constructor
  · intro h
    obtain ⟨b, hb, rfl⟩ := List.mem_map.1 h
    exact List.mem_map_of_mem (mem_of_mem_lasts hb)
  · intro h
    obtain ⟨b, hb, rfl⟩ := List.mem_map.1 h
    obtain ⟨c, hc, hkey⟩ : ∃ c ∈ lasts key l, key c = key b := exists_mem_lasts hb
    exact List.mem_map.2 ⟨c, hc, hkey⟩

theorem filter_lasts {key : β → κ} {p : β → Bool} (hp : ∀ b c, key b = key c → p b = p c) :
    ∀ l : List β, (lasts key l).filter p = lasts key (l.filter p)
  | [] => rfl
  | b :: l => by
    have hmem : p b = true → (key b ∈ (l.filter p).map key ↔ key b ∈ l.map key) := fun hb => by
      simp only [List.mem_map, List.mem_filter]
      exact ⟨fun ⟨c, hc, hkey⟩ => ⟨c, hc.1, hkey⟩, fun ⟨c, hc, hkey⟩ => ⟨c, ⟨hc, hp c b hkey ▸ hb⟩, hkey⟩⟩
    cases hb : p b with
    | false =>
      rw [List.filter_cons_of_neg (by simp [hb]), lasts]
      split
      · exact filter_lasts hp l
      · rw [List.filter_cons_of_neg (by simp [hb]), filter_lasts hp l]
    | true =>
      rw [List.filter_cons_of_pos hb, lasts, lasts, ← filter_lasts hp l]
      by_cases hkey : key b ∈ l.map key
      · rw [if_pos hkey, if_pos ((hmem hb).2 hkey)]
      · rw [if_neg hkey, if_neg (fun h => hkey ((hmem hb).1 h)), List.filter_cons_of_pos hb]

theorem nodup_keys_lasts (key : β → κ) : ∀ l : List β, ((lasts key l).map key).Nodup
  | [] => List.nodup_nil
  | b :: l => by
    unfold lasts
    split
    · exact nodup_keys_lasts key l
    · rename_i hb
      refine List.nodup_cons.2 ⟨fun h => hb ?_, nodup_keys_lasts key l⟩
      obtain ⟨c, hc, hkey⟩ := List.mem_map.1 h
      exact hkey ▸ List.mem_map_of_mem (mem_of_mem_lasts hc)

theorem lasts_eq_self {key : β → κ} : ∀ {l : List β}, (l.map key).Nodup → lasts key l = l
  | [], _ => rfl
  | b :: l, h => by
    rw [List.map_cons, List.nodup_cons] at h
    rw [lasts, if_neg h.1, lasts_eq_self h.2]

theorem lasts_of_forall_eq {key : β → κ} {k : κ} : ∀ {l : List β}, (∀ b ∈ l, key b = k) → lasts key l = l.getLast?.toList
  | [], _ => rfl
  | [_], _ => rfl
  | b :: c :: l, h => by
    have hmem : key b ∈ (c :: l).map key := List.mem_map.2 ⟨c, List.mem_cons_self,
      (h c (List.mem_cons_of_mem b List.mem_cons_self)).trans (h b List.mem_cons_self).symm⟩
    rw [lasts, if_pos hmem, lasts_of_forall_eq (fun d hd => h d (List.mem_cons_of_mem b hd)), List.getLast?_cons_cons]

/-- **The map holds what the elements have put there that are not replaced.** -/
theorem putAll_map_perm (key : β → κ) (f : β → α) (l : List β) :
    (putAll (l.map (fun b => (key b, f b))) []).Perm ((lasts key l).map (fun b => (key b, f b))) := by
  have hkeys : (((lasts key l).map (fun b => (key b, f b))).map Prod.fst).Nodup := by
    rw [List.map_map]
    exact nodup_keys_lasts key l
  refine (List.perm_ext_iff_of_nodup (nodup_keys_putAll_nil _).of_map hkeys.of_map).2 (fun e => ?_)
  have hflat : l.map (fun b => (key b, f b)) = l.flatMap (fun b => [(key b, f b)]) := List.map_eq_flatMap
  rw [hflat, mem_putAll_flatMap, List.mem_map]
  refine exists_congr (fun b => ?_)
  have hput : e ∈ putAll [(key b, f b)] [] ↔ (key b, f b) = e := by
    simp [putAll, put, eq_comm]
  rw [hput, mem_lasts]
  refine and_congr_left ?_
  rintro rfl
  simp [eq_comm]

end LastWith

theorem lookup_of_mem : ∀ {m : List (κ × α)}, (m.map Prod.fst).Nodup → ∀ {k : κ} {v : α}, (k, v) ∈ m →
    m.lookup k = some v
  | [], _, _, _, h => by cases h
  | e :: m, hn, k, v, h => by
    rw [List.map_cons, List.nodup_cons] at hn
    rcases List.mem_cons.1 h with rfl | h
    · simp
    · have hne : ¬ k = e.1 := fun hk => hn.1 (hk ▸ List.mem_map_of_mem h)
      have hb : (k == e.1) = false := by simpa using hne
      rw [List.lookup_cons, hb]
      exact lookup_of_mem hn.2 h

theorem mem_of_lookup {k : κ} {v : α} : ∀ {m : List (κ × α)}, m.lookup k = some v → (k, v) ∈ m
  | [], h => by cases h
  | e :: m, h => by
    rw [List.lookup_cons] at h
    split at h
    · rename_i hk
      rw [Option.some.injEq] at h
      rw [beq_iff_eq] at hk
      exact List.mem_cons.2 (Or.inl (Prod.ext hk h.symm))
    · exact List.mem_cons_of_mem _ (mem_of_lookup h)

/-! ## Grouping a list by key -/

/-- The elements under each key, in their order. -/
def groupBy {β : Type*} (key : β → κ) (l : List β) : List (κ × List β) :=
  (l.map key).dedup.map fun k => (k, l.filter fun b => decide (key b = k))

theorem map_fst_groupBy {β : Type*} (key : β → κ) (l : List β) : (groupBy key l).map Prod.fst = (l.map key).dedup := by
  rw [groupBy, List.map_map]
  exact List.map_id _

theorem mem_groupBy {β : Type*} {key : β → κ} {l : List β} {k : κ} {group : List β} :
    (k, group) ∈ groupBy key l ↔ k ∈ l.map key ∧ group = l.filter fun b => decide (key b = k) := by
  rw [groupBy, List.mem_map]
  constructor
  · rintro ⟨k', hk', heq⟩
    obtain ⟨rfl, rfl⟩ := Prod.mk.inj heq
    exact ⟨List.mem_dedup.1 hk', rfl⟩
  · rintro ⟨hk, rfl⟩
    exact ⟨k, List.mem_dedup.2 hk, rfl⟩

section Group
variable (key : α → κ) (merge : α → α → α)

def mergeInto (m : List (κ × α)) (s : α) : List (κ × α) :=
  match m.lookup (key s) with
  | some old => put (key s) (merge old s) m
  | none => put (key s) s m

def groupInto (l : List α) : List (κ × α) := l.foldl (mergeInto key merge) []

/-- The left-to-right merge of a list, if it has an element. -/
def mergeAll : List α → Option α
  | [] => none
  | p :: ps => some (ps.foldl merge p)

theorem mergeAll_append_singleton (l : List α) (s : α) :
    mergeAll merge (l ++ [s]) = match mergeAll merge l with
      | some old => some (merge old s)
      | none => some s := by
  cases l with
  | nil => rfl
  | cons p ps => simp [mergeAll]

theorem lookup_mergeInto (m : List (κ × α)) (s : α) (k : κ) :
    (mergeInto key merge m s).lookup k = if k = key s then
      (match m.lookup (key s) with
        | some old => some (merge old s)
        | none => some s) else m.lookup k := by
  unfold mergeInto
  split <;> rw [lookup_put]

/-- **At each key, the map holds the merge of the list's elements with that key.** -/
theorem lookup_groupInto (l : List α) (k : κ) :
    (groupInto key merge l).lookup k = mergeAll merge (l.filter (fun s => decide (key s = k))) := by
  induction l using List.reverseRecOn with
  | nil => rfl
  | append_singleton l s ih =>
    have hstep : groupInto key merge (l ++ [s]) = mergeInto key merge (groupInto key merge l) s := by
      simp [groupInto]
    rw [hstep, lookup_mergeInto, List.filter_append]
    by_cases hk : k = key s
    · subst hk
      rw [if_pos rfl, ih, List.filter_cons_of_pos (by simp), List.filter_nil, mergeAll_append_singleton]
    · rw [if_neg hk, ih, List.filter_cons_of_neg (by simpa using Ne.symm hk), List.filter_nil, List.append_nil]

theorem nodup_keys_groupInto (l : List α) : ((groupInto key merge l).map Prod.fst).Nodup := by
  induction l using List.reverseRecOn with
  | nil => exact List.nodup_nil
  | append_singleton l s ih =>
    rw [show groupInto key merge (l ++ [s]) = mergeInto key merge (groupInto key merge l) s by simp [groupInto]]
    unfold mergeInto
    split <;> exact nodup_keys_put _ _ ih

/-- **An entry is the merge of the elements with its key**, and there is one for each key of the list. -/
theorem mem_groupInto (l : List α) (k : κ) (v : α) :
    (k, v) ∈ groupInto key merge l ↔ mergeAll merge (l.filter (fun s => decide (key s = k))) = some v := by
  rw [← lookup_groupInto]
  exact ⟨lookup_of_mem (nodup_keys_groupInto key merge l), mem_of_lookup⟩

omit [DecidableEq κ] in
/-- **The rule for a merge**: what a single element has, and the merge with one more keeps, the merge of a list has. -/
theorem mergeAll_induction {P : List α → α → Prop} (hsingle : ∀ a, P [a] a)
    (hmerge : ∀ l a b, P l a → P (l ++ [b]) (merge a b)) {l : List α} : ∀ {v : α}, mergeAll merge l = some v → P l v := by
  induction l using List.reverseRecOn with
  | nil => intro v h; cases h
  | append_singleton l s ih =>
    intro v h
    rw [mergeAll_append_singleton] at h
    cases hl : mergeAll merge l with
    | none =>
      have hnil : l = [] := by
        cases l with
        | nil => rfl
        | cons p ps => cases hl
      rw [hl] at h
      rw [← Option.some.inj h, hnil]
      exact hsingle s
    | some w =>
      rw [hl] at h
      rw [← Option.some.inj h]
      exact hmerge l w s (ih hl)

/-- A merge that picks one of the two picks one of the list. -/
theorem mem_of_mergeAll (hpick : ∀ a b, merge a b = a ∨ merge a b = b) {l : List α} {v : α}
    (h : mergeAll merge l = some v) : v ∈ l := by
  refine mergeAll_induction merge (P := fun l v => v ∈ l) List.mem_singleton_self (fun l a b ha => ?_) h
  rcases hpick a b with hp | hp
  · rw [hp]
    exact List.mem_append_left _ ha
  · rw [hp]
    exact List.mem_append_right _ (List.mem_singleton_self b)

theorem mergeAll_isSome {l : List α} (h : l ≠ []) : ∃ v, mergeAll merge l = some v := by
  cases l with
  | nil => exact absurd rfl h
  | cons p ps => exact ⟨_, rfl⟩

omit [DecidableEq κ] in
theorem key_of_mergeAll (hkey : ∀ a b, key (merge a b) = key a) {l : List α} {k : κ} {v : α}
    (hl : ∀ s ∈ l, key s = k) (h : mergeAll merge l = some v) : key v = k := by
  refine mergeAll_induction merge (P := fun l v => (∀ s ∈ l, key s = k) → key v = k) (fun a ha => ?_)
    (fun l a b ih hall => ?_) h hl
  · exact ha a (List.mem_singleton_self a)
  · rw [hkey]
    exact ih (fun s hs => hall s (List.mem_append_left _ hs))

theorem flatMap_filter_perm (key : α → κ) : ∀ {ks : List κ}, ks.Nodup → ∀ {l : List α},
    (∀ a ∈ l, key a ∈ ks) → (ks.flatMap (fun k => l.filter (fun a => decide (key a = k)))).Perm l
  | [], _, l, hl => by
    rw [List.eq_nil_iff_forall_not_mem.2 (fun a ha => List.not_mem_nil (hl a ha))]
    exact .refl _
  | k :: ks, hks, l, hl => by
    obtain ⟨hk, hks⟩ := List.nodup_cons.1 hks
    have hrest : ks.flatMap (fun j => l.filter (fun a => decide (key a = j))) =
        ks.flatMap (fun j => (l.filter (fun a => !decide (key a = k))).filter (fun a => decide (key a = j))) := by
      refine List.flatMap_congr (fun j hj => ?_)
      rw [List.filter_filter]
      refine List.filter_congr (fun a _ => ?_)
      by_cases haj : key a = j
      · have hjk : j ≠ k := fun h => hk (h ▸ hj)
        simp [haj, hjk]
      · simp [haj]
    rw [List.flatMap_cons, hrest]
    refine ((flatMap_filter_perm key hks (fun a ha => ?_)).append_left _).trans (List.filter_append_perm _ l)
    obtain ⟨ha, hne⟩ := List.mem_filter.1 ha
    rcases List.mem_cons.1 (hl a ha) with h | h
    · simp [h] at hne
    · exact h

end Group

/-! ## A map of lists -/

section Bindings

def addBinding (k : κ) (v : α) (m : List (κ × List α)) : List (κ × List α) :=
  put k ((m.lookup k).getD [] ++ [v]) m

def addBindings (key : α → Option κ) (l : List α) : List (κ × List α) :=
  l.foldl (fun m s => match key s with
    | some k => addBinding k s m
    | none => m) []

/-- **At each key, the map holds the elements with that key, in order.** -/
theorem lookup_addBindings (key : α → Option κ) (l : List α) (k : κ) :
    ((addBindings key l).lookup k).getD [] = l.filter (fun s => decide (key s = some k)) := by
  induction l using List.reverseRecOn with
  | nil => rfl
  | append_singleton l s ih =>
    unfold addBindings at ih ⊢
    rw [List.foldl_append, List.foldl_cons, List.foldl_nil, List.filter_append]
    cases hs : key s with
    | none => rw [ih, List.filter_cons_of_neg (by simp [hs]), List.filter_nil, List.append_nil]
    | some k' =>
      simp only
      rw [addBinding, lookup_put]
      by_cases hk : k = k'
      · subst hk
        rw [if_pos rfl, Option.getD_some, ih, List.filter_cons_of_pos (by simp [hs]), List.filter_nil]
      · rw [if_neg hk, ih, List.filter_cons_of_neg (by simpa [hs] using Ne.symm hk), List.filter_nil, List.append_nil]

theorem lookup_addBindings_of_ne_nil {key : α → Option κ} {l : List α} {k : κ}
    (h : l.filter (fun s => decide (key s = some k)) ≠ []) :
    (addBindings key l).lookup k = some (l.filter (fun s => decide (key s = some k))) := by
  have hget := lookup_addBindings key l k
  cases hlookup : (addBindings key l).lookup k with
  | none =>
    rw [hlookup] at hget
    exact absurd hget.symm h
  | some found =>
    rw [hlookup] at hget
    exact congrArg some hget

theorem flatMap_addBinding_perm (k : κ) (v : α) : ∀ m : List (κ × List α),
    ((addBinding k v m).flatMap Prod.snd).Perm (m.flatMap Prod.snd ++ [v])
  | [] => .refl _
  | e :: m => by
    unfold addBinding put
    by_cases he : e.1 = k
    · rw [if_pos he, List.lookup_cons, beq_iff_eq.2 he.symm, List.flatMap_cons, List.flatMap_cons, Option.getD_some,
        List.append_assoc, List.append_assoc]
      exact List.perm_append_comm.append_left _
    · have hb : (k == e.1) = false := beq_false_of_ne (Ne.symm he)
      rw [if_neg he, List.lookup_cons, hb, List.flatMap_cons, List.flatMap_cons, List.append_assoc]
      exact (flatMap_addBinding_perm k v m).append_left _

/-- **The values of the map are the elements that have a key.** -/
theorem flatMap_addBindings_perm (key : α → κ) (l : List α) :
    ((addBindings (fun a => some (key a)) l).flatMap Prod.snd).Perm l := by
  induction l using List.reverseRecOn with
  | nil => exact .refl _
  | append_singleton l a ih =>
    unfold addBindings at ih ⊢
    rw [List.foldl_append, List.foldl_cons, List.foldl_nil]
    exact (flatMap_addBinding_perm (key a) a _).trans (ih.append_right _)

theorem nodup_keys_addBindings (key : α → κ) (l : List α) :
    ((addBindings (fun a => some (key a)) l).map Prod.fst).Nodup := by
  induction l using List.reverseRecOn with
  | nil => exact List.nodup_nil
  | append_singleton l a ih =>
    unfold addBindings at ih ⊢
    rw [List.foldl_append]
    exact nodup_keys_put _ _ ih

theorem ne_nil_of_mem_addBindings {key : α → κ} {l : List α} {e : κ × List α}
    (h : e ∈ addBindings (fun a => some (key a)) l) : e.2 ≠ [] := by
  induction l using List.reverseRecOn with
  | nil => cases h
  | append_singleton l a ih =>
    unfold addBindings at ih h
    rw [List.foldl_append] at h
    rcases mem_put h with rfl | h
    · exact List.append_ne_nil_of_right_ne_nil _ (List.cons_ne_nil _ _)
    · exact ih h

/-- **An entry of the map** is a key with all its elements, of which there are some. -/
theorem mem_addBindings {key : α → κ} {l : List α} {k : κ} {found : List α} :
    (k, found) ∈ addBindings (fun a => some (key a)) l ↔ found ≠ [] ∧ l.filter (fun a => decide (key a = k)) = found := by
  have hfilter : (fun a => decide (some (key a) = some k)) = fun a => decide (key a = k) :=
    funext fun a => decide_eq_decide.2 (Option.some_inj)
  constructor
  · intro h
    have hget := lookup_addBindings (fun a => some (key a)) l k
    rw [lookup_of_mem (nodup_keys_addBindings key l) h, hfilter] at hget
    exact ⟨ne_nil_of_mem_addBindings h, hget.symm⟩
  · rintro ⟨hne, rfl⟩
    refine mem_of_lookup ?_
    rw [← hfilter] at hne ⊢
    exact lookup_addBindings_of_ne_nil hne

end Bindings

theorem lookup_map {β : Type*} (f : α → β) (k : κ) : ∀ m : List (κ × α),
    (m.map (fun e => (e.1, f e.2))).lookup k = (m.lookup k).map f
  | [] => rfl
  | e :: m => by
    rw [List.map_cons, List.lookup_cons, List.lookup_cons, lookup_map f k m]
    cases k == e.1 <;> rfl

end AssocMap
