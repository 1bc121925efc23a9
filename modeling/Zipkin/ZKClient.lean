import Zipkin.ZooKeeper
/-!
# ZKClient — writing the data of a node

`ZooKeeperClient.scala`.  A write to a node that is not there makes the nodes on the way to it and then creates it with the
data.  The way includes the node itself, without data, so that the node is there when it is to be created, which `create`
takes as done: only a node that was there before the write has its data afterwards (`writesData_iff`).
-/
namespace Zipkin

open Effect

namespace ZKClient

/-- `String.split` at a character: empty strings at the end are left out, unless there is nothing else. -/
def split (c : Char) (s : List Char) : List (List Char) :=
  if s = [] then [[]] else (s.splitOn c).rdropWhile List.isEmpty

/-- `create`, with no data unless given. -/
def create (path : String) (data : Option (List UInt8) := none) : Effect KeeperException ZkTree Unit :=
  tryCatch (ZNode.create path (data.getD [])) fun
    | .nodeExists _ => pure ()
    | e => throw e

/-- The body of the fold of `ensurePath`. -/
def ensureNode (path : String) (p : List Char) : Effect KeeperException ZkTree String := do
  let path := path ++ "/" ++ .ofList p
  tryCatch (ZNode.existsNode path) fun
    | .noNode _ => tryCatch (create path) fun
      | .nodeExists _ => pure ()
      | e => throw e
    | e => throw e
  pure path

def ensurePath (path : String) : Effect KeeperException ZkTree Unit := do
  let _ ← (split '/' (path.toList.drop 1)).foldlM ensureNode ""
  pure ()

/-- `setData`.  An exception after which it would try again is not raised: the connection does not fail. -/
def setData (path : String) (data : List UInt8) : Effect KeeperException ZkTree Unit :=
  tryCatch (ZNode.setData path data) fun
    | .noNode _ => do
      ensurePath path
      create path (some data)
    | e => throw e

/-! ## The way to a node -/

theorem parentPath_append (acc : String) {p : List Char} (hp : '/' ∉ p) :
    parentPath (acc ++ "/" ++ .ofList p) = if acc = "" then "/" else acc := by
  have hchars : (acc ++ "/" ++ String.ofList p).toList = acc.toList ++ ['/'] ++ p := by
    simp only [String.toList_append, String.toList_ofList, String.reduceToList]
  have hdrop : (acc.toList ++ ['/'] ++ p).rdropWhile (· != '/') = acc.toList ++ ['/'] := by
    have hall : ∀ c ∈ p.reverse, (c != '/') = true := fun c hc =>
      bne_iff_ne.2 (fun h => hp (h ▸ List.mem_reverse.1 hc))
    rw [List.rdropWhile, List.reverse_append, List.dropWhile_append_of_pos hall, ← List.rdropWhile]
    exact List.rdropWhile_concat_neg _ _ _ (by decide)
  rw [parentPath, hchars, hdrop, List.dropLast_concat]
  split
  · rename_i hnil
    rw [if_pos (String.toList_eq_nil_iff.1 hnil)]
  · rename_i hne
    rw [if_neg (fun h => hne (String.toList_eq_nil_iff.2 h)), String.ofList_toList]

theorem drop_one_flatMap : ∀ (e : List Char) (elements : List (List Char)),
    ((e :: elements).flatMap ('/' :: ·)).drop 1 = ['/'].intercalate (e :: elements)
  | e, [] => by rw [List.intercalate_singleton, List.flatMap_singleton, List.drop_one, List.tail_cons]
  | e, f :: elements => by
    rw [List.intercalate_cons_cons, ← drop_one_flatMap f elements]
    simp

/-- **The elements of a path**, as `ensurePath` gets them. -/
theorem split_toString (path : AbsolutePath) : split '/' (path.toString.toList.drop 1) =
    match path.elements with
    | [] => [[]]
    | e :: elements => e :: elements := by
  obtain ⟨elements, hne, hslash⟩ := path
  cases elements with
  | nil =>
    simp only [AbsolutePath.toString, String.reduceToList, List.drop_one, List.tail_cons]
    rfl
  | cons e elements =>
    simp only [AbsolutePath.toString, String.toList_ofList, drop_one_flatMap]
    have hsplit := List.splitOn_intercalate '/' hslash (List.cons_ne_nil e elements)
    have hnil : ['/'].intercalate (e :: elements) ≠ [] := fun hnil => by
      rw [hnil] at hsplit
      exact hne e List.mem_cons_self (List.cons.inj hsplit).1.symm
    rw [split, if_neg hnil, hsplit, List.rdropWhile_eq_self_iff]
    exact fun h hempty => hne _ (List.getLast_mem h) (List.isEmpty_iff.1 hempty)

/-! ## A write -/

variable {t : ZkTree} {path : String} {data : List UInt8}

/-- **`create` of a node that is there** does nothing, and does not fail. -/
theorem exec_create_of_mem (h : path ∈ t.paths) (data : Option (List UInt8)) : exec (create path data) t = (.ok (), t) := by
  have hcreate : exec (ZNode.create path (data.getD [])) t = (.error (.nodeExists path), t) := if_pos h
  rw [create, exec_tryCatch, hcreate]
  rfl

theorem exec_create (h : path ∉ t.paths) (hparent : parentPath path ∈ t.paths) (data : Option (List UInt8)) :
    exec (create path data) t = (.ok (), t.put path (data.getD []) (Or.inr hparent)) := by
  have hcreate : exec (ZNode.create path (data.getD [])) t = (.ok (), t.put path (data.getD []) (Or.inr hparent)) :=
    (if_neg h).trans (dif_pos hparent)
  rw [create, exec_tryCatch, hcreate]

/-- **One step on the way**: the next node is there, made without data if it was not. -/
theorem exec_ensureNode {acc : String} {p : List Char} (hp : '/' ∉ p) (hacc : acc = "" ∨ acc ∈ t.paths) :
    ∃ t', exec (ensureNode acc p) t = (.ok (acc ++ "/" ++ .ofList p), t') ∧ t.Extends t' ∧
      acc ++ "/" ++ .ofList p ∈ t'.paths := by
  by_cases hmem : acc ++ "/" ++ .ofList p ∈ t.paths
  · have hexists : exec (ZNode.existsNode (acc ++ "/" ++ .ofList p)) t = (.ok (), t) := if_pos hmem
    refine ⟨t, ?_, .refl t, hmem⟩
    rw [ensureNode, exec_bind, exec_tryCatch, hexists]
    rfl
  · have hexists : exec (ZNode.existsNode (acc ++ "/" ++ .ofList p)) t =
        (.error (.noNode (acc ++ "/" ++ .ofList p)), t) := if_neg hmem
    have hparent : parentPath (acc ++ "/" ++ .ofList p) ∈ t.paths := by
      rw [parentPath_append acc hp]
      split
      · exact t.root_mem
      · rename_i hne
        exact hacc.resolve_left hne
    refine ⟨_, ?_, ZkTree.extends_put hmem (Or.inr hparent), ?_⟩
    · rw [ensureNode, exec_bind, exec_tryCatch, hexists]
      dsimp only
      rw [exec_tryCatch, exec_create hmem hparent none]
      rfl
    · exact ZkTree.mem_paths.2 ⟨[], (ZkTree.data_put _).trans (if_pos rfl)⟩

/-- **The whole way**: the fold ends at the last node, which is there. -/
theorem exec_foldlM_ensureNode : ∀ {elements : List (List Char)} {acc : String} {t : ZkTree},
    (∀ e ∈ elements, '/' ∉ e) → (acc = "" ∨ acc ∈ t.paths) →
      ∃ t', exec (elements.foldlM ensureNode acc) t =
          (.ok (acc ++ .ofList (elements.flatMap ('/' :: ·))), t') ∧ t.Extends t' ∧
        (acc ++ .ofList (elements.flatMap ('/' :: ·)) = "" ∨ acc ++ .ofList (elements.flatMap ('/' :: ·)) ∈ t'.paths)
  | [], acc, t, _, hacc => by
    rw [List.flatMap_nil, String.ofList_nil, String.append_empty]
    exact ⟨t, rfl, .refl t, hacc⟩
  | e :: elements, acc, t, hslash, hacc => by
    obtain ⟨t₁, hexec₁, hext₁, hmem₁⟩ := exec_ensureNode (hslash e List.mem_cons_self) hacc
    obtain ⟨t₂, hexec₂, hext₂, hmem₂⟩ := exec_foldlM_ensureNode
      (fun f hf => hslash f (List.mem_cons_of_mem e hf)) (Or.inr hmem₁)
    have hpath : acc ++ "/" ++ String.ofList e ++ .ofList (elements.flatMap ('/' :: ·)) =
        acc ++ .ofList ((e :: elements).flatMap ('/' :: ·)) := by
      rw [← String.toList_inj]
      simp only [String.toList_append, String.toList_ofList, String.reduceToList, List.flatMap_cons, List.append_assoc,
        List.cons_append, List.nil_append]
    rw [hpath] at hexec₂ hmem₂
    refine ⟨t₂, ?_, hext₁.trans hext₂, hmem₂⟩
    rw [List.foldlM_cons, exec_bind, hexec₁]
    exact hexec₂

/-- **`ensurePath` makes every node on the way to a path, and the node itself.** -/
theorem exec_ensurePath (t : ZkTree) (path : AbsolutePath) : ∃ t', exec (ensurePath path.toString) t = (.ok (), t') ∧
    t.Extends t' ∧ path.toString ∈ t'.paths := by
  have hslash : ∀ e ∈ split '/' (path.toString.toList.drop 1), '/' ∉ e := by
    rw [split_toString]
    split
    · exact fun e he => List.mem_singleton.1 he ▸ List.not_mem_nil
    · rename_i e elements heq
      exact fun f hf => path.no_slash f (heq ▸ hf)
  have hpath : "" ++ String.ofList ((split '/' (path.toString.toList.drop 1)).flatMap ('/' :: ·)) = path.toString := by
    rw [split_toString, String.empty_append]
    unfold AbsolutePath.toString
    cases path.elements <;> rfl
  obtain ⟨t', hexec, hext, hmem⟩ := exec_foldlM_ensureNode (t := t) hslash (Or.inl rfl)
  rw [hpath] at hmem
  refine ⟨t', ?_, hext, hmem.resolve_left ?_⟩
  · rw [ensurePath, exec_bind, hexec]
    rfl
  · unfold AbsolutePath.toString
    cases path.elements with
    | nil => decide
    | cons e elements =>
      rw [String.ofList_eq_empty_iff]
      exact List.cons_ne_nil _ _

theorem exec_setData_of_mem (h : path ∈ t.paths) : exec (setData path data) t = (.ok (), t.put path data (Or.inl h)) := by
  have hset : exec (ZNode.setData path data) t = (.ok (), t.put path data (Or.inl h)) := dif_pos h
  rw [setData, exec_tryCatch, hset]

/-- **A write to a node that is not there** makes the node, without data. -/
theorem exec_setData_of_not_mem {path : AbsolutePath} (h : path.toString ∉ t.paths) (data : List UInt8) :
    ∃ t', exec (setData path.toString data) t = (.ok (), t') ∧ t.Extends t' ∧ t'.data path.toString = some [] := by
  obtain ⟨t', hexec, hext, hmem⟩ := exec_ensurePath t path
  have hset : exec (ZNode.setData path.toString data) t = (.error (.noNode path.toString), t) := dif_neg h
  refine ⟨t', ?_, hext, ?_⟩
  · rw [setData, exec_tryCatch, hset]
    dsimp only
    rw [exec_bind_ok hexec, exec_create_of_mem hmem]
  · have hnone := ZkTree.data_eq_none.2 h
    rcases hext path.toString with heq | ⟨-, hdata⟩
    · exact absurd hmem (ZkTree.data_eq_none.1 (heq.trans hnone))
    · exact hdata

/-- What a successful write should do: the node has the data, and the other nodes have theirs. -/
def WritesData (t : ZkTree) (path : AbsolutePath) (data : List UInt8) : Prop :=
  ∀ t', exec (setData path.toString data) t = (.ok (), t') →
    t'.data path.toString = some data ∧ ∀ p d, p ≠ path.toString → t.data p = some d → t'.data p = some d

/-- **When a write does what it should**: exactly if the node is there already, or there is no data to write. -/
theorem writesData_iff (t : ZkTree) (path : AbsolutePath) (data : List UInt8) :
    (∃ t', exec (setData path.toString data) t = (.ok (), t')) ∧
      (WritesData t path data ↔ path.toString ∈ t.paths ∨ data = []) := by
  by_cases hmem : path.toString ∈ t.paths
  · have hexec : exec (setData path.toString data) t = (.ok (), t.put path.toString data (Or.inl hmem)) :=
      exec_setData_of_mem hmem
    refine ⟨⟨_, hexec⟩, iff_of_true (fun t' h => ?_) (Or.inl hmem)⟩
    obtain rfl := (Prod.mk.inj (hexec.symm.trans h)).2
    exact ⟨(ZkTree.data_put _).trans (if_pos rfl), fun p d hne hd => (ZkTree.data_put p).trans ((if_neg hne).trans hd)⟩
  · obtain ⟨t', hexec, hext, hdata⟩ := exec_setData_of_not_mem hmem data
    refine ⟨⟨t', hexec⟩, ?_⟩
    rw [or_iff_right hmem]
    constructor
    · intro hwrites
      exact (Option.some.inj (hdata.symm.trans (hwrites t' hexec).1)).symm
    · rintro rfl t'' h
      obtain rfl := (Prod.mk.inj (hexec.symm.trans h)).2
      refine ⟨hdata, fun p d _ hd => ?_⟩
      rcases hext p with heq | ⟨hnone, -⟩
      · exact heq.trans hd
      · rw [hd] at hnone; cases hnone

def rootOnly : ZkTree where
  nodes := [("/", [])]
  root_mem := List.mem_cons_self
  parent_mem p hp := by
    obtain rfl : p = "/" := List.mem_singleton.1 hp
    simp only [parentPath, String.reduceToList]
    decide

def ratePath : AbsolutePath := ⟨[['r', 'a', 't', 'e']], by decide, by decide⟩

/-- The node is made, and its data is not written. -/
theorem not_writesData_rate : ¬ WritesData rootOnly ratePath [48, 46, 49] := by
  intro hwrites
  have hmem : ratePath.toString ∉ rootOnly.paths := fun hmem => by
    have heq : String.ofList ['/', 'r', 'a', 't', 'e'] = "/" := List.mem_singleton.1 hmem
    have hchars := congrArg String.toList heq
    simp only [String.toList_ofList, String.reduceToList] at hchars
    exact absurd hchars (by decide)
  obtain ⟨t', hexec, -, hdata⟩ := exec_setData_of_not_mem hmem [48, 46, 49]
  exact absurd (hdata.symm.trans (hwrites t' hexec).1) (by decide)

end ZKClient

end Zipkin
