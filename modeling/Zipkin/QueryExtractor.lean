import Mathlib.Data.List.Infix
import Zipkin.Base.AssocMap
import Zipkin.Base.Cut
import Zipkin.QueryTraceIds
/-!
# QueryExtractor — the request that the parameters of a URL ask for

The `QueryExtractor` of the query service and that of the web server, which differ in what they take for a service name.
The annotation query is cut into clauses at `" and "`, and a clause at `"="`: two parts are a key and a value, one is an
annotation, and other clauses are dropped.
-/
namespace Zipkin
namespace QueryExtractor

structure Request where
  params : List (String × String)

def Request.get (req : Request) (name : String) : Option String := req.params.lookup name

/-- What the numbers of a request are read with, `none` if `toInt` throws, and the clock in microseconds. -/
structure Runtime where
  toInt : String → Option Int
  toSomeLong : String → Int
  now : Int

/-- `String.split`, for a separator without special characters. -/
def split (s sep : String) : List String := (Cut.split sep.toList s.toList).map String.ofList

/-- One clause, after the `anns` and `binAnns` so far. -/
def addClause (acc : List String × List (String × String)) (ann : String) : List String × List (String × String) :=
  match split ann "=" with
  | [""] => acc
  | [key, value] => (acc.1, AssocMap.put key value acc.2)
  | [key] => (key :: acc.1, acc.2)
  | _ => acc

def clauses (query : String) : List String × List (String × String) := (split query " and ").foldl addClause ([], [])

def adjustClockSkew (req : Request) : Bool :=
  match req.get "adjust_clock_skew" with
  | some "false" => false
  | _ => true

/-- The extractor for the service names that are accepted; the default limit is for a request without one. -/
def extract (accepts : String → Bool) (runtime : Runtime) (defaultQueryLimit : Int) (req : Request) :
    Except String (Option QueryRequest) :=
  match (req.get "serviceName").filter accepts with
  | none => .ok none
  | some serviceName =>
    let spanName := (req.get "spanName").filter fun n => !(n == "all" || n == "")
    let timestamp := ((req.get "timestamp").map runtime.toSomeLong).getD runtime.now
    let (annotations, binaryAnnotations) := match req.get "annotationQuery" with
      | some query =>
        let (anns, binAnns) := clauses query
        (if anns.isEmpty then none else some anns, if binAnns.isEmpty then none else some binAnns)
      | none => (none, none)
    match (req.get "limit").map runtime.toInt with
    | some none => .error "NumberFormatException"
    | some (some limit) =>
      .ok (some ⟨serviceName, spanName, annotations, binaryAnnotations, timestamp, limit, adjustClockSkew req⟩)
    | none =>
      .ok (some ⟨serviceName, spanName, annotations, binaryAnnotations, timestamp, defaultQueryLimit, adjustClockSkew req⟩)

/-- `com.twitter.zipkin.query.QueryExtractor.apply` -/
def queryApply : Runtime → Int → Request → Except String (Option QueryRequest) := extract fun n => n != ""

/-- `com.twitter.zipkin.web.QueryExtractor.apply` -/
def webApply : Runtime → Int → Request → Except String (Option QueryRequest) := extract fun _ => true

/-! ## Conditions -/

/-- A condition of a search: an annotation, or a key with a value. -/
inductive Condition where
  | annotation (value : String)
  | binary (key value : String)
deriving DecidableEq

namespace Condition

def text : Condition → String
  | annotation value => value
  | binary key value => key ++ "=" ++ value

def bare? : Condition → Option String
  | annotation value => some value
  | binary _ _ => none

def pair? : Condition → Option (String × String)
  | annotation _ => none
  | binary key value => some (key, value)

/-- A text that is not empty and has neither an equals sign nor the separator of the clauses. -/
def Plain (s : String) : Prop := s ≠ "" ∧ '=' ∉ s.toList ∧ ¬ " and ".toList <:+: s.toList

def Valid : Condition → Prop
  | annotation value => Plain value
  | binary key value => Plain key ∧ value ≠ "" ∧ ¬ " and ".toList <:+: value.toList

instance (s : String) : Decidable (Plain s) := inferInstanceAs (Decidable (_ ∧ _ ∧ _))

instance : ∀ c : Condition, Decidable c.Valid
  | annotation value => inferInstanceAs (Decidable (Plain value))
  | binary _ _ => inferInstanceAs (Decidable (_ ∧ _ ∧ _))

end Condition

open Condition

/-- The condition that a clause is read as. -/
def read (ann : String) : Option Condition :=
  match split ann "=" with
  | [""] => none
  | [key, value] => some (binary key value)
  | [key] => some (Condition.annotation key)
  | _ => none

theorem addClause_eq (acc : List String × List (String × String)) (ann : String) : addClause acc ann =
    (((read ann).bind bare?).toList ++ acc.1, AssocMap.putAll ((read ann).bind pair?).toList acc.2) := by
  rw [addClause, read]
  split <;> rfl

/-- **What the clauses result in**: the annotations from the last to the first, and the pairs in a map. -/
theorem foldl_addClause (pieces : List String) (acc : List String × List (String × String)) : pieces.foldl addClause acc =
    (((pieces.filterMap read).filterMap bare?).reverse ++ acc.1,
      AssocMap.putAll ((pieces.filterMap read).filterMap pair?) acc.2) := by
  induction pieces generalizing acc with
  | nil => rfl
  | cons piece pieces ih =>
    rw [List.foldl_cons, ih, addClause_eq]
    cases hread : read piece with
    | none =>
      rw [List.filterMap_cons_none hread]
      rfl
    | some c =>
      rw [List.filterMap_cons_some hread]
      cases c with
      | annotation value =>
        rw [List.filterMap_cons_some (f := bare?) rfl, List.filterMap_cons_none (f := pair?) rfl, List.reverse_cons,
          List.append_assoc]
        rfl
      | binary key value =>
        rw [List.filterMap_cons_none (f := bare?) rfl, List.filterMap_cons_some (f := pair?) rfl]
        rfl

/-! ## Reading a clause -/

theorem toList_of_split {s sep : String} {parts : List String} (h : split s sep = parts) :
    Cut.split sep.toList s.toList = parts.map String.toList := by
  rw [← h, split, List.map_map]
  exact (List.map_id' _).symm.trans (List.map_congr_left fun p _ => (String.toList_ofList).symm)

theorem equals_ne_nil : "=".toList ≠ [] := by decide

/-- A clause that is read as a condition is its text, perhaps with equals signs behind it. -/
theorem exists_of_read {ann : String} {c : Condition} (h : read ann = some c) : ∃ parts n, parts ≠ [] ∧
    c.text.toList = "=".toList.intercalate parts ∧ Cut.cut "=".toList ann.toList = parts ++ List.replicate n [] := by
  obtain ⟨n, hcut⟩ := Cut.exists_cut_eq_split "=".toList ann.toList
  rw [read] at h
  split at h
  next => cases h
  next key value hsplit =>
    obtain rfl := Option.some.inj h
    rw [toList_of_split hsplit] at hcut
    refine ⟨_, n, List.cons_ne_nil _ _, ?_, hcut⟩
    rw [text, String.toList_append, String.toList_append]
    exact (List.intercalate_cons_cons.trans (by rw [List.map_nil, List.intercalate_singleton])).symm
  next key _ hsplit =>
    obtain rfl := Option.some.inj h
    rw [toList_of_split hsplit] at hcut
    exact ⟨_, n, List.cons_ne_nil _ _, List.intercalate_singleton.symm, hcut⟩
  next => cases h

theorem length_of_read {ann : String} {c : Condition} (h : read ann = some c) :
    ∃ n, ann.toList.length = c.text.toList.length + n ∧ (n = 0 → c.text = ann) := by
  obtain ⟨parts, n, hne, htext, hcut⟩ := exists_of_read h
  have hann : ann.toList = "=".toList.intercalate (parts ++ List.replicate n []) :=
    hcut ▸ (Cut.intercalate_cut equals_ne_nil ann.toList).symm
  refine ⟨n, ?_, ?_⟩
  · have hlong := Cut.length_intercalate_add "=".toList (List.append_ne_nil_of_left_ne_nil hne (List.replicate n []))
    have hshort := Cut.length_intercalate_add "=".toList hne
    have hone : "=".toList.length = 1 := rfl
    rw [← hann, List.map_append, List.sum_append, List.map_replicate, List.sum_replicate_nat, hone] at hlong
    rw [← htext, hone] at hshort
    rw [List.length_nil, Nat.zero_add, Nat.mul_one] at hlong
    omega
  · rintro rfl
    rw [List.replicate_zero, List.append_nil, ← htext] at hann
    exact (String.toList_inj.1 hann).symm

theorem not_infix_equals_iff {s : List Char} : ¬ "=".toList <:+: s ↔ '=' ∉ s := not_congr (List.singleton_infix_iff '=' s)

theorem not_mem_of_read {ann key value : String} (h : read ann = some (binary key value)) : '=' ∉ value.toList := by
  rw [read] at h
  split at h
  next => cases h
  next k v hsplit =>
    obtain ⟨rfl, rfl⟩ := Condition.binary.inj (Option.some.inj h)
    obtain ⟨n, hcut⟩ := Cut.exists_cut_eq_split "=".toList ann.toList
    rw [toList_of_split hsplit] at hcut
    refine not_infix_equals_iff.1 (Cut.not_infix_of_mem equals_ne_nil (s := ann.toList) ?_)
    rw [hcut]
    exact List.mem_append_left _ (List.mem_cons_of_mem _ List.mem_cons_self)
  next => cases h
  next => cases h

theorem split_eq {s : String} {parts : List String} (h : Cut.split "=".toList s.toList = parts.map String.toList) :
    split s "=" = parts := by
  rw [split, h, List.map_map]
  exact (List.map_congr_left fun p _ => String.ofList_toList).trans (List.map_id' _)

theorem toList_ne_nil {s : String} (h : s ≠ "") : s.toList ≠ [] := fun hnil => h (String.toList_inj.1 hnil)

/-- **A condition is read from its text** unless its value has an equals sign. -/
theorem read_text {c : Condition} (hvalid : c.Valid) (hvalue : ∀ key value, c = binary key value → '=' ∉ value.toList) :
    read c.text = some c := by
  cases c with
  | annotation value =>
    have hcut := Cut.cut_eq_singleton (not_infix_equals_iff.2 hvalid.2.1)
    have hsplit : split value "=" = [value] := split_eq (Cut.split_of_cut_singleton hcut)
    rw [text, read, hsplit]
    split
    next heq => exact absurd (List.head_eq_of_cons_eq heq) hvalid.1
    next heq => cases heq
    next heq => rw [List.head_eq_of_cons_eq heq]
    next hnot => exact absurd rfl (hnot value)
  | binary key value =>
    have hwhole : Cut.Whole "=".toList key.toList := by
      have hdrop : "=".toList.dropLast = [] := rfl
      rw [Cut.Whole, hdrop, List.append_nil]
      exact not_infix_equals_iff.2 hvalid.1.2.1
    have hcut : Cut.cut "=".toList (text (binary key value)).toList = [key.toList, value.toList] := by
      rw [text, String.toList_append, String.toList_append, List.append_assoc, Cut.cut_append equals_ne_nil _ hwhole,
        Cut.cut_eq_singleton (not_infix_equals_iff.2 (hvalue key value rfl))]
    have hsplit : split (text (binary key value)) "=" = [key, value] :=
      split_eq (Cut.split_of_getLast hcut (List.cons_ne_nil _ _) (toList_ne_nil hvalid.2.1))
    rw [read, hsplit]
    simp only

end QueryExtractor
end Zipkin
