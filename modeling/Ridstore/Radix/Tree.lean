import Ridstore.MapStore.Node

/-
# Ridstore.Radix.Tree — walks of the persistent radix tree

A tree is a root address read through a node reader.  A 64-bit identifier is cut into the top bit and
seven groups of nine bits; the node at a level is found under the bits above that level.  The node cache
returns what the reader would and is left out.
-/

namespace Ridstore.Radix

open Lib MapStore
open RecordLog (RecordRef)

/-! ## §1 — The tree -/

/-- `NodeReader`. -/
abbrev NodeReader := MapAddr → Except StoreError Node

/-- `Tree`, as far as reads go. -/
structure Tree where
  reader : NodeReader
  root : MapAddr
  covered : Nat

namespace Tree

/-- `Tree.load`. -/
def load (t : Tree) (addr : MapAddr) (level keyPrefix : Nat) : Except StoreError Node :=
  match t.reader addr with
  | .error err => .error err
  | .ok node =>
    if node.level ≠ level ∨ node.keyPrefix ≠ keyPrefix ∨ t.covered < node.coveredCommitSeq then .error .corrupt
    else .ok node

/-- What `walkNode` does with one slot of a leaf. -/
def visitRef (node : Node) (keyPrefix : Nat) (found : List (Nat × RecordRef)) (slot : Nat) :
    Except StoreError (List (Nat × RecordRef)) :=
  match node.lookupRef slot with
  | none => .ok found
  | some ref =>
    if ref.valid = false ∨ keyPrefix * 512 + slot = 0 then .error .corrupt
    else .ok (found ++ [(keyPrefix * 512 + slot, ref)])

/-- What `walkNode` does with one slot of an inner node. -/
def visitChild (walk : MapAddr → Nat → Except StoreError (List (Nat × RecordRef))) (node : Node)
    (keyPrefix : Nat) (found : List (Nat × RecordRef)) (slot : Nat) : Except StoreError (List (Nat × RecordRef)) :=
  match node.lookup slot with
  | none => .ok found
  | some value =>
    match parseMapAddr value with
    | none => .error .corrupt
    | some child =>
      match walk child (keyPrefix * 512 + slot) with
      | .error err => .error err
      | .ok below => .ok (found ++ below)

/-- `Tree.walkNode`, with the visited entries as its result. -/
def walkNode (t : Tree) : Nat → MapAddr → Nat → Except StoreError (List (Nat × RecordRef))
  | 0, addr, keyPrefix =>
    match t.load addr 0 keyPrefix with
    | .error err => .error err
    | .ok node => scan (visitRef node keyPrefix) [] (List.range nodeSlots)
  | level + 1, addr, keyPrefix =>
    match t.load addr (level + 1) keyPrefix with
    | .error err => .error err
    | .ok node => scan (visitChild (t.walkNode level) node keyPrefix) [] (List.range nodeSlots)

/-- **`Tree.WalkRefs`**: every entry in the order of the identifiers. -/
def walkRefs (t : Tree) : Except StoreError (List (Nat × RecordRef)) :=
  if t.root = ⟨0⟩ then .ok [] else t.walkNode maxLevel t.root 0

/-! ## §2 — Trees that are stored completely

A walk that succeeds has read every node below the root.  Such a tree does not change when the reader
learns to read more nodes. -/

variable {t t' : Tree} {addr child : MapAddr} {level keyPrefix slot value : Nat} {node : Node}

/-- The nodes below the root, with the level and the bits they are found under. -/
inductive Reaches (t : Tree) : Nat → Nat → MapAddr → Prop
  | root : t.root ≠ ⟨0⟩ → Reaches t maxLevel 0 t.root
  | child {addr child : MapAddr} {level keyPrefix slot value : Nat} {node : Node} :
      Reaches t (level + 1) keyPrefix addr → t.load addr (level + 1) keyPrefix = .ok node →
      node.lookup slot = some value → parseMapAddr value = some child →
      Reaches t level (keyPrefix * 512 + slot) child

/-- Whatever the one tree reads the other reads. -/
structure Extends (t t' : Tree) : Prop where
  root : t'.root = t.root
  covered : t'.covered = t.covered
  reads : ∀ addr node, t.reader addr = .ok node → t'.reader addr = .ok node

theorem load_eq_ok (h : t.load addr level keyPrefix = .ok node) :
    t.reader addr = .ok node ∧ node.level = level ∧ node.keyPrefix = keyPrefix ∧
      node.coveredCommitSeq ≤ t.covered := by
  simp only [load] at h
  split at h
  · cases h
  next n hread =>
    split at h
    · cases h
    next hcheck =>
      cases h
      simp only [not_or, not_not, Nat.not_lt] at hcheck
      exact ⟨hread, hcheck⟩

theorem Extends.load (h : Extends t t') (hload : t.load addr level keyPrefix = .ok node) :
    t'.load addr level keyPrefix = .ok node := by
  obtain ⟨hread, hlevel, hpre, hcovered⟩ := load_eq_ok hload
  have hcheck : ¬ (node.level ≠ level ∨ node.keyPrefix ≠ keyPrefix ∨ t'.covered < node.coveredCommitSeq) := by
    rw [h.covered]
    simp only [not_or, not_not, Nat.not_lt]
    exact ⟨hlevel, hpre, hcovered⟩
  simp only [Tree.load, h.reads addr node hread, if_neg hcheck]

/-- A slot that is looked up is one of those a walk goes through. -/
theorem slot_lt_of_lookup {b : NodeBuild} (h : b.lookup slot = some value) : slot < nodeSlots := by
  obtain ⟨hslot, h⟩ := Option.ite_none_right_eq_some.mp h
  exact hslot.1

variable {found : List (Nat × RecordRef)}

/-- A walk that succeeds has read the node it starts from. -/
theorem walkNode_load (h : t.walkNode level addr keyPrefix = .ok found) :
    ∃ node, t.load addr level keyPrefix = .ok node := by
  cases level with
  | _ =>
    simp only [walkNode] at h
    split at h
    · cases h
    next node hload => exact ⟨node, hload⟩

/-- A walk that succeeds has walked every child. -/
theorem walkNode_child (h : t.walkNode (level + 1) addr keyPrefix = .ok found)
    (hload : t.load addr (level + 1) keyPrefix = .ok node) (hlookup : node.lookup slot = some value)
    (hparse : parseMapAddr value = some child) :
    ∃ below, t.walkNode level child (keyPrefix * 512 + slot) = .ok below := by
  simp only [walkNode, hload] at h
  obtain ⟨m, m', hm⟩ := scan_mem_ok h (List.mem_range.mpr (slot_lt_of_lookup hlookup))
  simp only [visitChild, hlookup, hparse] at hm
  split at hm
  · cases hm
  next below hbelow => exact ⟨below, hbelow⟩

/-- **Every node below the root of a tree that walks is read**, and the walk from it succeeds. -/
theorem Reaches.walkNode (hwalk : t.walkRefs = .ok found)
    (h : Reaches t level keyPrefix addr) : ∃ below, t.walkNode level addr keyPrefix = .ok below := by
  induction h with
  | root hroot =>
    rw [walkRefs, if_neg hroot] at hwalk
    exact ⟨found, hwalk⟩
  | child _ hload hlookup hparse ih =>
    obtain ⟨below, hbelow⟩ := ih
    exact walkNode_child hbelow hload hlookup hparse

/-- A walk that succeeds visits the same through a reader that reads more. -/
theorem Extends.walkNode (h : Extends t t')
    (hwalk : t.walkNode level addr keyPrefix = .ok found) : t'.walkNode level addr keyPrefix = .ok found := by
  induction level generalizing addr keyPrefix found with
  | zero =>
    obtain ⟨node, hload⟩ := walkNode_load hwalk
    simp only [Tree.walkNode, hload] at hwalk
    simp only [Tree.walkNode, h.load hload]
    exact hwalk
  | succ level ih =>
    obtain ⟨node, hload⟩ := walkNode_load hwalk
    simp only [Tree.walkNode, hload] at hwalk
    simp only [Tree.walkNode, h.load hload]
    refine scan_mono (fun seen slot seen' hvisit => ?_) hwalk
    simp only [visitChild] at hvisit ⊢
    split at hvisit
    · exact hvisit
    next value _ =>
      split at hvisit
      · cases hvisit
      next child _ =>
        split at hvisit
        · cases hvisit
        next below hbelow =>
          rw [ih hbelow]
          exact hvisit

/-- The nodes below the root are the same through a reader that reads more. -/
theorem Extends.reaches (h : Extends t t') (hwalk : t.walkRefs = .ok found)
    (hr : Reaches t' level keyPrefix addr) : Reaches t level keyPrefix addr := by
  induction hr with
  | root hroot =>
    rw [h.root] at hroot ⊢
    exact .root hroot
  | child _ hload hlookup hparse ih =>
    obtain ⟨below, hbelow⟩ := ih.walkNode hwalk
    obtain ⟨node, hnode⟩ := walkNode_load hbelow
    rw [h.load hnode, Except.ok.injEq] at hload
    subst hload
    exact .child ih hnode hlookup hparse

theorem Extends.walkRefs (h : Extends t t') (hwalk : t.walkRefs = .ok found) : t'.walkRefs = .ok found := by
  rw [Tree.walkRefs] at hwalk
  rw [Tree.walkRefs, h.root]
  split at hwalk
  next hroot => rw [if_pos hroot, hwalk]
  next hroot => rw [if_neg hroot, h.walkNode hwalk]

end Tree

end Ridstore.Radix
