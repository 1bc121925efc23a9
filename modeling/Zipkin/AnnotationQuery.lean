import Mathlib.Data.List.Count
import Mathlib.Data.List.Infix
import Mathlib.Data.List.Perm.Subperm
import Zipkin.QueryExtractor
/-!
# AnnotationQuery — what an annotation query is read as

Conditions that are joined by `" and "` are found again if no clause but the last ends with `" and"`: such a clause loses
its end to the next one, and only where that one and all behind it are `"and"` the clauses are still the same in the end
(`cut_perm_iff`).  The request then has the conditions exactly if no value has an equals sign and no key occurs twice.
-/
namespace Zipkin
namespace QueryExtractor

open Condition

/-! ## Cutting at the separator -/

def sep : List Char := [' ', 'a', 'n', 'd', ' ']

def stem : List Char := [' ', 'a', 'n', 'd']

def lead : List Char := ['a', 'n', 'd', ' ']

def word : List Char := ['a', 'n', 'd']

variable {c t : List Char} {texts : List (List Char)}

theorem sep_ne_nil : sep ≠ [] := List.cons_ne_nil _ _

theorem sep_eq_append {l₁ l₂ : List Char} (h : sep = l₁ ++ l₂) : l₁ = [] ∧ l₂ = sep ∨ l₁ = [' '] ∧ l₂ = lead ∨
    l₁ = [' ', 'a'] ∧ l₂ = ['n', 'd', ' '] ∨ l₁ = [' ', 'a', 'n'] ∧ l₂ = ['d', ' '] ∨ l₁ = stem ∧ l₂ = [' '] ∨
    l₁ = sep ∧ l₂ = [] := by
  have hinits : sep.inits = [[], [' '], [' ', 'a'], [' ', 'a', 'n'], stem, sep] := rfl
  have hmem : l₁ ∈ sep.inits := (List.mem_inits l₁ sep).2 ⟨l₂, h.symm⟩
  have hrest : l₂ = sep.drop l₁.length := by rw [h, List.drop_left]
  rw [hinits] at hmem
  simp only [List.mem_cons, List.not_mem_nil, or_false] at hmem
  rcases hmem with rfl | rfl | rfl | rfl | rfl | rfl <;> simp [hrest, sep, stem, lead]

theorem whole_iff : Cut.Whole sep c ↔ ¬ sep <:+: c ∧ ¬ stem <:+ c := by
  have hdrop : sep.dropLast = stem := rfl
  rw [Cut.Whole, hdrop, ← not_or, not_iff_not]
  constructor
  · intro hinfix
    rcases List.infix_append_iff.1 hinfix with hc | hstem | ⟨l₁, l₂, hl, hl₁, hl₂⟩
    · exact .inl hc
    · exact absurd hstem.length_le (by decide)
    · rcases sep_eq_append hl with ⟨-, rfl⟩ | ⟨-, rfl⟩ | ⟨-, rfl⟩ | ⟨-, rfl⟩ | ⟨rfl, -⟩ | ⟨rfl, -⟩
      · exact absurd hl₂.length_le (by decide)
      · exact absurd hl₂ (by decide)
      · exact absurd hl₂ (by decide)
      · exact absurd hl₂ (by decide)
      · exact .inr hl₁
      · exact .inl hl₁.isInfix
  · rintro (hc | ⟨d, rfl⟩)
    · exact List.infix_append_of_infix_left hc
    · exact ⟨d, word, by rw [List.append_assoc, List.append_assoc]; rfl⟩

theorem whole_of_append_stem {d : List Char} (h : ¬ sep <:+: d ++ stem) : Cut.Whole sep d := by
  refine whole_iff.2 ⟨fun hinfix => h (List.infix_append_of_infix_left hinfix), ?_⟩
  rintro ⟨e, rfl⟩
  exact h ⟨e, word, by rw [List.append_assoc, List.append_assoc]; rfl⟩

/-- The end goes to the next clause. -/
theorem cut_append_stem {d : List Char} (h : ¬ sep <:+: d ++ stem) (t : List Char) :
    Cut.cut sep ((d ++ stem) ++ (sep ++ t)) = d :: Cut.cut sep (lead ++ t) := by
  have hshift : (d ++ stem) ++ (sep ++ t) = d ++ (sep ++ (lead ++ t)) := by
    rw [List.append_assoc]
    rfl
  rw [hshift, Cut.cut_append sep_ne_nil _ (whole_of_append_stem h)]

theorem lead_prefix_of_infix (hc : ¬ sep <:+: c) (h : sep <:+: lead ++ c) : lead <+: c := by
  rcases List.infix_append_iff.1 h with hlead | hinfix | ⟨l₁, l₂, hl, hl₁, hl₂⟩
  · exact absurd hlead.length_le (by decide)
  · exact absurd hinfix hc
  · rcases sep_eq_append hl with ⟨-, rfl⟩ | ⟨-, rfl⟩ | ⟨rfl, -⟩ | ⟨rfl, -⟩ | ⟨rfl, -⟩ | ⟨rfl, -⟩
    · exact absurd hl₂.isInfix hc
    · exact hl₂
    · exact absurd hl₁ (by decide)
    · exact absurd hl₁ (by decide)
    · exact absurd hl₁ (by decide)
    · exact absurd hl₁.length_le (by decide)

theorem eq_word_of_suffix (hc : ¬ stem <:+ c) (h : stem <:+ lead ++ c) : c = word := by
  obtain ⟨e, he⟩ := h
  rcases List.append_eq_append_iff.1 he with ⟨l, hlead, hstem⟩ | ⟨l, -, rfl⟩
  · have hl : l <:+ lead := ⟨e, hlead.symm⟩
    have hsep : sep = l ++ (c ++ [' ']) := by
      rw [← List.append_assoc, ← hstem]
      rfl
    rcases sep_eq_append hsep with
      ⟨rfl, hrest⟩ | ⟨rfl, hrest⟩ | ⟨rfl, -⟩ | ⟨rfl, -⟩ | ⟨rfl, -⟩ | ⟨rfl, -⟩
    · exact absurd ⟨[], hstem⟩ hc
    · have hword : c ++ [' '] = word ++ [' '] := hrest
      exact List.append_cancel_right hword
    · exact absurd hl (by decide)
    · exact absurd hl (by decide)
    · exact absurd hl (by decide)
    · exact absurd hl.length_le (by decide)
  · exact absurd (List.suffix_append l stem) hc

theorem intercalate_cons (c : List Char) (h : texts ≠ []) :
    sep.intercalate (c :: texts) = c ++ (sep ++ sep.intercalate texts) := by
  rw [List.intercalate_cons_of_ne_nil h, List.append_assoc]

theorem cut_lead_word (h : texts ≠ []) : Cut.cut sep (lead ++ sep.intercalate (word :: texts)) =
    word :: Cut.cut sep (lead ++ sep.intercalate texts) := by
  have hjoin : lead ++ sep.intercalate (word :: texts) = (word ++ stem) ++ (sep ++ sep.intercalate texts) := by
    rw [intercalate_cons word h]
    rfl
  rw [hjoin, cut_append_stem (by decide)]

/-- No clause before the last ends with the separator's start; or the first that does is `and and`, and all behind it are
`and`, so that each takes the end that the one before it has lost. -/
def Kept (texts : List (List Char)) : Prop :=
  (∀ c ∈ texts.dropLast, ¬ stem <:+ c) ∨
    ∃ before n, texts = before ++ (word ++ stem) :: List.replicate (n + 1) word ∧ ∀ c ∈ before, ¬ stem <:+ c

/-- Clauses after one that has lost its end, as many as before: if the last of them ends with the separator's start, they
were `and` each. -/
theorem eq_replicate_of_getLast {q : List Char} : ∀ {texts : List (List Char)}, texts ≠ [] →
    (∀ c ∈ texts, ¬ sep <:+: c) → (∀ c ∈ texts, ¬ stem <:+ c) →
    (Cut.cut sep (lead ++ sep.intercalate texts)).length = texts.length →
    (Cut.cut sep (lead ++ sep.intercalate texts)).getLast? = some q → stem <:+ q →
    texts = List.replicate texts.length word ∧ q = word ++ stem
  | [c], _, _, hstem, hlength, hlast, hq => by
    obtain ⟨piece, hpiece⟩ := List.length_eq_one_iff.1 hlength
    have hjoin := Cut.intercalate_cut sep_ne_nil (lead ++ sep.intercalate [c])
    rw [hpiece, List.intercalate_singleton, List.intercalate_singleton] at hjoin
    rw [hpiece] at hlast
    obtain rfl : piece = q := Option.some.inj hlast
    rw [hjoin] at hq ⊢
    rw [eq_word_of_suffix (hstem c List.mem_cons_self) hq]
    exact ⟨rfl, rfl⟩
  | c :: c' :: texts, _, hsep, hstem, hlength, hlast, hq => by
    have hne : c' :: texts ≠ [] := List.cons_ne_nil _ _
    have hsep' : ∀ d ∈ c' :: texts, ¬ sep <:+: d := fun d hd => hsep d (List.mem_cons_of_mem c hd)
    have hstem' : ∀ d ∈ c' :: texts, ¬ stem <:+ d := fun d hd => hstem d (List.mem_cons_of_mem c hd)
    by_cases hwithout : sep <:+: lead ++ c
    · -- a piece more than there were clauses
      obtain ⟨e, rfl⟩ := lead_prefix_of_infix (hsep c List.mem_cons_self) hwithout
      have hjoin : lead ++ sep.intercalate ((lead ++ e) :: c' :: texts) = word ++ (sep ++ sep.intercalate (e :: c' :: texts)) := by
        rw [intercalate_cons _ hne, intercalate_cons _ hne, List.append_assoc]
        rfl
      rw [hjoin, Cut.cut_append sep_ne_nil _ (whole_of_append_stem (d := word) (by decide)), List.length_cons] at hlength
      have hle := Cut.length_le_length_cut sep_ne_nil _ (List.cons_ne_nil e (c' :: texts)) rfl
      simp only [List.length_cons] at hlength hle
      omega
    · by_cases hsuffix : stem <:+ lead ++ c
      · obtain rfl := eq_word_of_suffix (hstem c List.mem_cons_self) hsuffix
        rw [cut_lead_word hne] at hlength hlast
        rw [List.getLast?_cons_of_ne_nil (Cut.cut_ne_nil sep_ne_nil _)] at hlast
        obtain ⟨hrest, rfl⟩ := eq_replicate_of_getLast hne hsep' hstem' (Nat.succ.inj hlength) hlast hq
        exact ⟨by rw [List.length_cons, List.replicate_succ, ← hrest], rfl⟩
      · -- nothing is lost any more
        have hjoin : lead ++ sep.intercalate (c :: c' :: texts) = (lead ++ c) ++ (sep ++ sep.intercalate (c' :: texts)) := by
          rw [intercalate_cons _ hne, List.append_assoc]
        have hkept := Cut.cut_intercalate sep_ne_nil hne
          (fun d hd => whole_iff.2 ⟨hsep' d (List.mem_of_mem_dropLast hd), hstem' d (List.mem_of_mem_dropLast hd)⟩) hsep'
        rw [hjoin, Cut.cut_append sep_ne_nil _ (whole_iff.2 ⟨hwithout, hsuffix⟩), hkept,
          List.getLast?_cons_of_ne_nil hne] at hlast
        exact absurd hq (hstem' q (List.mem_of_getLast? hlast))

theorem countP_cut (s : List Char) : (Cut.cut sep s).countP (fun p => decide (stem <:+ p)) ≤ 1 ∧
    ∀ p ∈ Cut.cut sep s, stem <:+ p → (Cut.cut sep s).getLast? = some p := by
  have hlast := List.getLast?_eq_getLast_of_ne_nil (Cut.cut_ne_nil sep_ne_nil s)
  have hsplit := List.dropLast_append_getLast (Cut.cut_ne_nil sep_ne_nil s)
  have hdropLast : ∀ p ∈ (Cut.cut sep s).dropLast, ¬ stem <:+ p :=
    fun p hp => (whole_iff.1 (Cut.whole_of_mem_dropLast sep_ne_nil hp)).2
  constructor
  · rw [← hsplit, List.countP_append, List.countP_eq_zero.2 fun p hp => by simpa using hdropLast p hp, Nat.zero_add]
    exact List.countP_le_length
  · intro p hp hstem
    rw [← hsplit, List.mem_append, List.mem_singleton] at hp
    rw [hlast, hp.resolve_left fun hmem => hdropLast p hmem hstem]

theorem kept_of_perm : ∀ {texts : List (List Char)}, texts ≠ [] → (∀ c ∈ texts, ¬ sep <:+: c) →
    (Cut.cut sep (sep.intercalate texts)).Perm texts → Kept texts
  | [c], _, _, _ => .inl fun _ h => nomatch h
  | c :: c' :: texts, _, hsep, hperm => by
    have hne : c' :: texts ≠ [] := List.cons_ne_nil _ _
    have hsep' : ∀ d ∈ c' :: texts, ¬ sep <:+: d := fun d hd => hsep d (List.mem_cons_of_mem c hd)
    by_cases hc : stem <:+ c
    · obtain ⟨hcount, hgetLast⟩ := countP_cut (sep.intercalate (c :: c' :: texts))
      have hlast := hgetLast c (hperm.mem_iff.2 List.mem_cons_self) hc
      -- the last piece is the only one with that end, and the first clause has it
      have hstem : ∀ d ∈ c' :: texts, ¬ stem <:+ d := by
        rw [hperm.countP_eq, List.countP_cons_of_pos (by simpa using hc)] at hcount
        intro d hd hsuffix
        have hpos : 0 < (c' :: texts).countP fun p => decide (stem <:+ p) :=
          List.countP_pos_iff.2 ⟨d, hd, by simpa using hsuffix⟩
        omega
      obtain ⟨d, rfl⟩ := hc
      rw [intercalate_cons _ hne, cut_append_stem (hsep _ List.mem_cons_self)] at hlast hperm
      rw [List.getLast?_cons_of_ne_nil (Cut.cut_ne_nil sep_ne_nil _)] at hlast
      obtain ⟨hrest, hword⟩ := eq_replicate_of_getLast hne hsep' hstem (Nat.succ.inj hperm.length_eq) hlast
        (List.suffix_append d stem)
      exact .inr ⟨[], texts.length, by rw [hword, List.nil_append, List.cons_inj_right]; exact hrest, nofun⟩
    · rw [intercalate_cons _ hne, Cut.cut_append sep_ne_nil _ (whole_iff.2 ⟨hsep c List.mem_cons_self, hc⟩),
        List.perm_cons] at hperm
      rcases kept_of_perm hne hsep' hperm with hkept | ⟨before, n, heq, hbefore⟩
      · refine .inl ?_
        rw [List.dropLast_cons_of_ne_nil hne]
        exact List.forall_mem_cons.2 ⟨hc, hkept⟩
      · exact .inr ⟨c :: before, n, by rw [heq, List.cons_append], List.forall_mem_cons.2 ⟨hc, hbefore⟩⟩

theorem cut_lead_replicate : ∀ n, Cut.cut sep (lead ++ sep.intercalate (List.replicate (n + 1) word)) =
    List.replicate n word ++ [word ++ stem]
  | 0 => by decide
  | n + 1 => by
    have hne : List.replicate (n + 1) word ≠ [] := List.cons_ne_nil _ _
    rw [List.replicate_succ, cut_lead_word hne, cut_lead_replicate n, List.replicate_succ, List.cons_append]

theorem cut_intercalate_append {rest : List (List Char)} (h : rest ≠ []) : ∀ {before : List (List Char)},
    (∀ c ∈ before, Cut.Whole sep c) →
    Cut.cut sep (sep.intercalate (before ++ rest)) = before ++ Cut.cut sep (sep.intercalate rest)
  | [], _ => rfl
  | c :: before, hwhole => by
    rw [List.cons_append, intercalate_cons _ (List.append_ne_nil_of_right_ne_nil before h),
      Cut.cut_append sep_ne_nil _ (hwhole c List.mem_cons_self),
      cut_intercalate_append h fun d hd => hwhole d (List.mem_cons_of_mem c hd), List.cons_append]

/-- **When joined clauses are found again**, in some order. -/
theorem cut_perm_iff (hne : texts ≠ []) (hsep : ∀ c ∈ texts, ¬ sep <:+: c) :
    (Cut.cut sep (sep.intercalate texts)).Perm texts ↔ Kept texts := by
  constructor
  · exact kept_of_perm hne hsep
  · rintro (hkept | ⟨before, n, rfl, hbefore⟩)
    · have hwhole : ∀ c ∈ texts.dropLast, Cut.Whole sep c :=
        fun c hc => whole_iff.2 ⟨hsep c (List.mem_of_mem_dropLast hc), hkept c hc⟩
      rw [Cut.cut_intercalate sep_ne_nil hne hwhole hsep]
    · have hwhole : ∀ c ∈ before, Cut.Whole sep c :=
        fun c hc => whole_iff.2 ⟨hsep c (List.mem_append_left _ hc), hbefore c hc⟩
      have hne : List.replicate (n + 1) word ≠ [] := List.cons_ne_nil _ _
      rw [cut_intercalate_append (List.cons_ne_nil _ _) hwhole, intercalate_cons _ hne,
        cut_append_stem (by decide), cut_lead_replicate, ← List.cons_append, ← List.replicate_succ]
      exact (List.perm_append_singleton _ _).append_left before

/-! ## The conditions of a request -/

def joined (cs : List Condition) : String := " and ".intercalate (cs.map text)

/-- The pieces of a query, and the conditions that they are read as. -/
def pieces (query : String) : List String := (Cut.cut sep query.toList).map String.ofList

def found (query : String) : List Condition := (pieces query).filterMap read

theorem filterMap_read_split (query : String) : (split query " and ").filterMap read = found query := by
  obtain ⟨n, hcut⟩ := Cut.exists_cut_eq_split sep query.toList
  have hempty : read "" = none := by decide
  have hnone : (List.replicate n ([] : List Char)).filterMap (fun p => read (String.ofList p)) = [] :=
    List.filterMap_eq_nil_iff.2 fun p hp => by rw [List.eq_of_mem_replicate hp]; exact hempty
  rw [found, pieces, hcut, split, List.filterMap_map, List.filterMap_map, List.filterMap_append]
  exact (List.append_nil _).symm.trans (congrArg _ hnone.symm)

theorem clauses_eq (query : String) : clauses query =
    (((found query).filterMap bare?).reverse, AssocMap.putAll ((found query).filterMap pair?) []) := by
  rw [clauses, foldl_addClause, filterMap_read_split, List.append_nil]

theorem perm_parts : ∀ cs : List Condition,
    cs.Perm ((cs.filterMap bare?).map annotation ++ (cs.filterMap pair?).map fun e => binary e.1 e.2)
  | [] => .refl _
  | annotation value :: cs => (perm_parts cs).cons (Condition.annotation value)
  | binary key value :: cs => ((perm_parts cs).cons (binary key value)).trans List.perm_middle.symm

theorem perm_of_parts {cs cs' : List Condition} (hbare : (cs.filterMap bare?).Perm (cs'.filterMap bare?))
    (hpair : (cs.filterMap pair?).Perm (cs'.filterMap pair?)) : cs.Perm cs' :=
  (perm_parts cs).trans (((hbare.map annotation).append (hpair.map _)).trans (perm_parts cs').symm)

/-! ## The weight of conditions and pieces -/

def weight (c : Condition) : Nat := c.text.toList.length + sep.length

def heavy (piece : String) : Nat := piece.toList.length + sep.length

theorem weight_le_heavy {piece : String} {c : Condition} (h : read piece = some c) : weight c ≤ heavy piece := by
  obtain ⟨n, hlength, -⟩ := length_of_read h
  rw [weight, heavy, hlength]
  omega

theorem text_of_weight {piece : String} {c : Condition} (h : read piece = some c) (hweight : weight c = heavy piece) :
    c.text = piece := by
  obtain ⟨n, hlength, htext⟩ := length_of_read h
  rw [weight, heavy, hlength] at hweight
  exact htext (by omega)

theorem toList_joined (cs : List Condition) : (joined cs).toList = sep.intercalate (cs.map fun c => c.text.toList) := by
  rw [joined, String.toList_intercalate, List.map_map]
  rfl

theorem sum_heavy_pieces {cs : List Condition} (hne : cs ≠ []) :
    ((pieces (joined cs)).map heavy).sum = (cs.map weight).sum := by
  have hmap : cs.map (fun c => c.text.toList) ≠ [] := List.map_eq_nil_iff.not.2 hne
  have hcs := Cut.length_intercalate_add sep hmap
  have hpieces := Cut.length_intercalate_add sep (Cut.cut_ne_nil sep_ne_nil (joined cs).toList)
  rw [Cut.intercalate_cut sep_ne_nil, toList_joined, hcs, List.map_map, ← toList_joined] at hpieces
  rw [pieces, List.map_map]
  refine Eq.trans (congrArg List.sum (List.map_congr_left fun p _ => ?_)) hpieces.symm
  simp only [Function.comp_apply, heavy, String.toList_ofList]

theorem sum_weight_eq (cs : List Condition) : (cs.map weight).sum =
    ((cs.filterMap bare?).map fun value => weight (Condition.annotation value)).sum +
      ((cs.filterMap pair?).map fun e => weight (binary e.1 e.2)).sum := by
  rw [((perm_parts cs).map weight).sum_nat, List.map_append, List.sum_append, List.map_map, List.map_map]
  rfl

theorem map_text_filterMap : ∀ {l : List String}, (∀ piece ∈ l, ∃ c, read piece = some c ∧ c.text = piece) →
    (l.filterMap read).map text = l
  | [], _ => rfl
  | piece :: l, h => by
    obtain ⟨c, hread, htext⟩ := h piece List.mem_cons_self
    rw [List.filterMap_cons_some hread, List.map_cons, htext,
      map_text_filterMap fun other hother => h other (List.mem_cons_of_mem piece hother)]

/-- **A query that is read as its conditions has them for its pieces.** -/
theorem found_perm {cs : List Condition} (hne : cs ≠ [])
    (hbare : ((found (joined cs)).filterMap bare?).Perm (cs.filterMap bare?))
    (hpair : (AssocMap.putAll ((found (joined cs)).filterMap pair?) []).Perm (cs.filterMap pair?)) :
    (found (joined cs)).Perm cs ∧ (found (joined cs)).map text = pieces (joined cs) := by
  have hsubset : AssocMap.putAll ((found (joined cs)).filterMap pair?) [] ⊆ (found (joined cs)).filterMap pair? :=
    fun _ => AssocMap.mem_of_mem_putAll
  obtain ⟨pairs, hpairs, hsublist⟩ := List.subperm_of_subset (AssocMap.nodup_keys_putAll_nil _).of_map hsubset
  obtain ⟨replaced, hreplaced⟩ := hsublist.exists_perm_append
  have hfound := sum_weight_eq (found (joined cs))
  have hcs := sum_weight_eq cs
  have hle : ((found (joined cs)).map weight).sum ≤ ((pieces (joined cs)).map heavy).sum :=
    Cut.sum_filterMap_le (fun _ _ => weight_le_heavy) _
  rw [sum_heavy_pieces hne] at hle
  rw [(hbare.map _).sum_nat, (hreplaced.map _).sum_nat, List.map_append, List.sum_append, ((hpairs.trans hpair).map _).sum_nat]
    at hfound
  -- as the pieces weigh no more than the conditions, no pair was replaced by another
  have hnone : replaced = [] := by
    cases replaced with
    | nil => rfl
    | cons e replaced =>
      rw [List.map_cons, List.sum_cons, weight] at hfound
      have hlength : sep.length = 5 := rfl
      omega
  rw [hnone, List.append_nil] at hreplaced
  have hperm := perm_of_parts hbare (hreplaced.trans (hpairs.trans hpair))
  refine ⟨hperm, ?_⟩
  have hsum : ((pieces (joined cs)).map heavy).sum ≤ ((found (joined cs)).map weight).sum := by
    rw [sum_heavy_pieces hne, (hperm.map weight).sum_nat]
  have hpos : ∀ piece, 0 < heavy piece := fun piece => Nat.lt_of_lt_of_le (by decide : 0 < 5) (Nat.le_add_left 5 _)
  refine map_text_filterMap fun piece hpiece => ?_
  obtain ⟨c, hread, hweight⟩ := Cut.exists_of_sum_filterMap hpos (fun _ _ => weight_le_heavy) hsum piece hpiece
  exact ⟨c, hread, text_of_weight hread hweight⟩

/-! ## Requests -/

/-- The request has exactly the conditions, as often as they were given. -/
structure Has (q : QueryRequest) (cs : List Condition) : Prop where
  annotations : (q.annotations.getD []).Perm (cs.filterMap bare?)
  binaryAnnotations : (q.binaryAnnotations.getD []).Perm (cs.filterMap pair?)

/-- When the conditions come through a query. -/
structure Readable (cs : List Condition) : Prop where
  values : ∀ e ∈ cs.filterMap pair?, '=' ∉ e.2.toList
  keys : ((cs.filterMap pair?).map Prod.fst).Nodup
  kept : Kept (cs.map fun c => c.text.toList)

theorem mem_pairs_iff {cs : List Condition} {e : String × String} : e ∈ cs.filterMap pair? ↔ binary e.1 e.2 ∈ cs := by
  rw [List.mem_filterMap]
  constructor
  · rintro ⟨c | ⟨key, value⟩, hc, h⟩
    · cases h
    · exact Option.some.inj h ▸ hc
  · exact fun h => ⟨_, h, rfl⟩

/-- No clause has a separator in it: an equals sign is no part of one. -/
theorem not_infix_text {c : Condition} (h : c.Valid) : ¬ sep <:+: c.text.toList := by
  cases c with
  | annotation value => exact h.2.2
  | binary key value =>
    rw [text, String.toList_append, String.toList_append, List.append_assoc]
    intro hinfix
    rcases List.infix_append_iff.1 hinfix with hkey | hvalue | ⟨l₁, l₂, hl, hl₁, hl₂⟩
    · exact h.1.2.2 hkey
    · rcases List.infix_cons_iff.1 hvalue with hstart | hvalue
      · exact absurd (List.head_eq_of_cons_eq hstart.choose_spec) (by decide)
      · exact h.2.2 hvalue
    · cases l₂ with
      | nil =>
        rw [List.append_nil] at hl
        have hinfix : sep <:+: key.toList := by
          rw [hl]
          exact hl₁.isInfix
        exact h.1.2.2 hinfix
      | cons a l₂ =>
        have hequals : a = '=' := List.head_eq_of_cons_eq hl₂.choose_spec
        have hmem : '=' ∈ sep := by
          rw [hl, hequals]
          exact List.mem_append_right l₁ List.mem_cons_self
        exact absurd hmem (by decide)

/-- **When a query is read as the conditions** that it was joined of. -/
theorem clauses_joined_iff {cs : List Condition} (hne : cs ≠ []) (hvalid : ∀ c ∈ cs, c.Valid) :
    ((clauses (joined cs)).1.Perm (cs.filterMap bare?) ∧ (clauses (joined cs)).2.Perm (cs.filterMap pair?)) ↔ Readable cs := by
  rw [clauses_eq]
  have hcut : ((pieces (joined cs)).map String.toList) = Cut.cut sep (sep.intercalate (cs.map fun c => c.text.toList)) := by
    rw [← toList_joined, pieces, List.map_map]
    exact (List.map_congr_left fun p _ => String.toList_ofList).trans (List.map_id' _)
  have hmap : cs.map (fun c => c.text.toList) ≠ [] := List.map_eq_nil_iff.not.2 hne
  have hkept := cut_perm_iff hmap fun t ht => by
    obtain ⟨c, hc, rfl⟩ := List.mem_map.1 ht
    exact not_infix_text (hvalid c hc)
  rw [← hcut] at hkept
  constructor
  · rintro ⟨hbare, hpair⟩
    obtain ⟨hperm, htext⟩ := found_perm hne ((List.reverse_perm _).symm.trans hbare) hpair
    refine ⟨fun e he => ?_, ?_, hkept.1 ?_⟩
    · obtain ⟨piece, -, hread⟩ := List.mem_filterMap.1 (hperm.mem_iff.2 (mem_pairs_iff.1 he))
      exact not_mem_of_read hread
    · exact (hpair.map Prod.fst).nodup_iff.1 (AssocMap.nodup_keys_putAll_nil _)
    · rw [← htext, List.map_map]
      exact hperm.map _
  · intro h
    have htexts : (pieces (joined cs)).Perm (cs.map text) := by
      have hstrings := (hkept.2 h.kept).map String.ofList
      simpa only [List.map_map, Function.comp_def, String.ofList_toList, List.map_id'] using hstrings
    have hperm : (found (joined cs)).Perm cs := by
      refine (htexts.filterMap read).trans (List.Perm.of_eq ?_)
      rw [List.filterMap_map]
      refine (List.filterMap_congr fun c hc => ?_).trans List.filterMap_some
      exact read_text (hvalid c hc) fun key value heq =>
        h.values (key, value) (mem_pairs_iff.2 (heq ▸ hc))
    refine ⟨(List.reverse_perm _).trans (hperm.filterMap bare?), ?_⟩
    have hpairs := hperm.filterMap pair?
    have hnodup : (([] ++ (found (joined cs)).filterMap pair?).map Prod.fst).Nodup := (hpairs.map Prod.fst).nodup_iff.2 h.keys
    rw [AssocMap.putAll_eq_append hnodup]
    exact hpairs

inductive Service where
  | query
  | web

def apply : Service → Runtime → Int → Request → Except String (Option QueryRequest)
  | .query => queryApply
  | .web => webApply

/-- A request with a service name and without a limit that is no number is extracted. -/
theorem exists_extract {accepts : String → Bool} {runtime : Runtime} {defaultQueryLimit : Int} {req : Request}
    {serviceName query : String} (hservice : req.get "serviceName" = some serviceName) (haccepts : accepts serviceName = true)
    (hlimit : ∀ limit ∈ req.get "limit", (runtime.toInt limit).isSome) (hquery : req.get "annotationQuery" = some query) :
    ∃ q, extract accepts runtime defaultQueryLimit req = .ok (some q) ∧ q.annotations.getD [] = (clauses query).1 ∧
      q.binaryAnnotations.getD [] = (clauses query).2 := by
  have hgetD : ∀ {γ : Type} (l : List γ), (if l.isEmpty then none else some l).getD [] = l := fun l => by
    cases l <;> rfl
  rw [extract, hservice, Option.filter_some, if_pos haccepts, hquery]
  cases hget : req.get "limit" with
  | none => exact ⟨_, rfl, hgetD _, hgetD _⟩
  | some limit =>
    obtain ⟨n, hn⟩ := Option.isSome_iff_exists.1 (hlimit limit hget)
    rw [Option.map_some, hn]
    exact ⟨_, rfl, hgetD _, hgetD _⟩

/-- **When a request has the conditions that its annotation query was joined of**, for both extractors. -/
theorem apply_has_iff {cs : List Condition} (hne : cs ≠ []) (hvalid : ∀ c ∈ cs, c.Valid) (service : Service) (runtime : Runtime)
    (defaultQueryLimit : Int) {req : Request} (hquery : req.get "annotationQuery" = some (joined cs))
    (hservice : ∃ serviceName, req.get "serviceName" = some serviceName ∧ serviceName ≠ "")
    (hlimit : ∀ limit ∈ req.get "limit", (runtime.toInt limit).isSome) :
    (∃ q, apply service runtime defaultQueryLimit req = .ok (some q) ∧ Has q cs) ↔ Readable cs := by
  obtain ⟨serviceName, hservice, hname⟩ := hservice
  have hextract : ∃ q, apply service runtime defaultQueryLimit req = .ok (some q) ∧
      q.annotations.getD [] = (clauses (joined cs)).1 ∧ q.binaryAnnotations.getD [] = (clauses (joined cs)).2 := by
    cases service
    · exact exists_extract hservice (by simpa using hname) hlimit hquery
    · exact exists_extract hservice rfl hlimit hquery
  obtain ⟨q, hq, hannotations, hbinary⟩ := hextract
  rw [← clauses_joined_iff hne hvalid, ← hannotations, ← hbinary]
  constructor
  · rintro ⟨q', hq', hhas⟩
    obtain rfl := Option.some.inj (Except.ok.inj (hq.symm.trans hq'))
    exact ⟨hhas.annotations, hhas.binaryAnnotations⟩
  · exact fun h => ⟨q, hq, h.1, h.2⟩

def request (cs : List Condition) : Request := ⟨[("serviceName", "web"), ("annotationQuery", joined cs)]⟩

theorem apply_has_two : ∃ q, apply .query ⟨String.toInt?, fun _ => 0, 0⟩ 10
      (request [Condition.annotation "finagle.retry", binary "http.uri" "/sessions"]) = .ok (some q) ∧
    Has q [Condition.annotation "finagle.retry", binary "http.uri" "/sessions"] :=
  (apply_has_iff (List.cons_ne_nil _ _) (by decide) .query _ 10 rfl ⟨"web", rfl, by decide⟩ (by decide)).2
    ⟨by decide, by decide, .inl (by decide)⟩

/-- A value with an equals sign: the request has no condition. -/
theorem not_apply_has : ¬ ∀ cs : List Condition, cs ≠ [] → (∀ c ∈ cs, c.Valid) →
    ∃ q, queryApply ⟨String.toInt?, fun _ => 0, 0⟩ 10 (request cs) = .ok (some q) ∧ Has q cs := by
  intro h
  obtain ⟨q, hq, hhas⟩ := h [binary "http.uri" "/find?a=b"] (List.cons_ne_nil _ _) (by decide)
  have hread : queryApply ⟨String.toInt?, fun _ => 0, 0⟩ 10 (request [binary "http.uri" "/find?a=b"]) =
    .ok (some ⟨"web", none, none, none, 0, 10, true⟩) := rfl
  obtain rfl := Option.some.inj (Except.ok.inj (hread.symm.trans hq))
  exact absurd hhas.binaryAnnotations.length_eq (by decide)

/-- A repeated key, and a clause that loses its end. -/
example : clauses (joined [binary "cluster" "foo", binary "cluster" "bar"]) = ([], [("cluster", "bar")]) ∧
    clauses (joined [Condition.annotation "fetch and", annotation "error"]) = (["and error", "fetch"], []) := by decide +kernel

end QueryExtractor
end Zipkin
