import Mathlib.Data.List.DropRight
import Zipkin.Base.AssocMap
import Zipkin.Base.Effect
/-!
# ZooKeeper — a tree of nodes with data

The service that the sampler talks to, as its documentation has it: nodes are named by paths, every node but the root
has a parent, and an operation on a node that is not there, or that is there already, fails and changes nothing.
-/
namespace Zipkin

open AssocMap Effect

inductive KeeperException where
  | noNode (path : String)
  | nodeExists (path : String)
deriving DecidableEq, Repr

/-- What stands before the last slash, the root if that is nothing. -/
def parentPath (path : String) : String :=
  match (path.toList.rdropWhile (· != '/')).dropLast with
  | [] => "/"
  | parent => .ofList parent

/-- A path: elements that are not empty and have no slash. -/
structure AbsolutePath where
  elements : List (List Char)
  ne_nil : ∀ e ∈ elements, e ≠ []
  no_slash : ∀ e ∈ elements, '/' ∉ e

def AbsolutePath.toString (path : AbsolutePath) : String :=
  match path.elements with
  | [] => "/"
  | e :: elements => .ofList ((e :: elements).flatMap ('/' :: ·))

/-- The nodes, with a root and with the parent of each. -/
structure ZkTree where
  nodes : List (String × List UInt8)
  root_mem : "/" ∈ nodes.map Prod.fst
  parent_mem : ∀ p ∈ nodes.map Prod.fst, parentPath p ∈ nodes.map Prod.fst

namespace ZkTree

def paths (t : ZkTree) : List String := t.nodes.map Prod.fst

def data (t : ZkTree) (path : String) : Option (List UInt8) := t.nodes.lookup path

def put (t : ZkTree) (path : String) (data : List UInt8) (h : path ∈ t.paths ∨ parentPath path ∈ t.paths) : ZkTree where
  nodes := AssocMap.put path data t.nodes
  root_mem := mem_keys_put.2 (Or.inr t.root_mem)
  parent_mem p hp := by
    refine mem_keys_put.2 (Or.inr ?_)
    rcases mem_keys_put.1 hp with rfl | hp
    · exact h.elim (t.parent_mem p) id
    · exact t.parent_mem p hp

theorem data_put {t : ZkTree} {path : String} {data : List UInt8} {h : path ∈ t.paths ∨ parentPath path ∈ t.paths}
    (p : String) : (t.put path data h).data p = if p = path then some data else t.data p :=
  lookup_put path p data t.nodes

theorem mem_paths {t : ZkTree} {p : String} : p ∈ t.paths ↔ ∃ d, t.data p = some d := by
  constructor
  · intro hp
    obtain ⟨e, he, rfl⟩ := List.mem_map.1 hp
    cases hd : t.data e.1 with
    | some d => exact ⟨d, rfl⟩
    | none =>
      have hne := List.lookup_eq_none_iff.1 hd e he
      rw [bne_self_eq_false] at hne
      cases hne
  · rintro ⟨d, hd⟩
    exact List.mem_map_of_mem (mem_of_lookup hd)

/-- Nodes were added without data, and those that were there are as they were. -/
def Extends (t t' : ZkTree) : Prop := ∀ p, t'.data p = t.data p ∨ t.data p = none ∧ t'.data p = some []

theorem Extends.refl (t : ZkTree) : t.Extends t := fun _ => Or.inl rfl

theorem Extends.trans {t t' t'' : ZkTree} (h : t.Extends t') (h' : t'.Extends t'') : t.Extends t'' := fun p => by
  rcases h p with hp | ⟨hnone, hp⟩
  · rw [← hp]; exact h' p
  · rcases h' p with hp' | ⟨hnone', -⟩
    · exact Or.inr ⟨hnone, hp'.trans hp⟩
    · rw [hp] at hnone'; cases hnone'

theorem Extends.mem_paths {t t' : ZkTree} (h : t.Extends t') {p : String} (hp : p ∈ t.paths) : p ∈ t'.paths := by
  obtain ⟨d, hd⟩ := ZkTree.mem_paths.1 hp
  rcases h p with heq | ⟨hnone, -⟩
  · exact ZkTree.mem_paths.2 ⟨d, heq.trans hd⟩
  · rw [hd] at hnone; cases hnone

theorem data_eq_none {t : ZkTree} {p : String} : t.data p = none ↔ p ∉ t.paths := by
  rw [ZkTree.mem_paths]
  cases t.data p <;> simp

theorem extends_put {t : ZkTree} {path : String} (hnew : path ∉ t.paths) (h : path ∈ t.paths ∨ parentPath path ∈ t.paths) :
    t.Extends (t.put path [] h) := fun p => by
  rw [data_put]
  split
  · rename_i heq
    exact Or.inr ⟨heq ▸ data_eq_none.2 hnew, rfl⟩
  · exact Or.inl rfl

end ZkTree

/-! ## The operations of a node -/

namespace ZNode

def existsNode (path : String) : Effect KeeperException ZkTree Unit := .of fun t =>
  if path ∈ t.paths then (.ok (), t) else (.error (.noNode path), t)

def setData (path : String) (data : List UInt8) : Effect KeeperException ZkTree Unit := .of fun t =>
  if h : path ∈ t.paths then (.ok (), t.put path data (Or.inl h)) else (.error (.noNode path), t)

def create (path : String) (data : List UInt8) : Effect KeeperException ZkTree Unit := .of fun t =>
  if path ∈ t.paths then (.error (.nodeExists path), t)
  else if h : parentPath path ∈ t.paths then (.ok (), t.put path data (Or.inr h))
  else (.error (.noNode (parentPath path)), t)

end ZNode

end Zipkin
