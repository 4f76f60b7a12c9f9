import Kruspix.Kernel.Devicetree.Node
import Mathlib.Data.List.Nodup

/-!
# The device tree

The tree is walked from its root to its leaves. A phandle is looked up in a map
to positions in the tree.
-/

namespace Kruspix.Kernel.Devicetree

/-- The parsed tree, what the header says of it, and the nodes by phandle. -/
structure DeviceTree where
  address : Nat
  size : Nat
  version : Nat
  lastCompVersion : Nat
  bootCpuidPhys : Nat
  memoryReservations : List (Nat × Nat)
  root : Node
  phandleMap : List (Nat × List Nat)

namespace Node

/-- The node at a position below this one. -/
def descend : Node → List Node → List Nat → Option (Node × List Node)
  | node, ancestors, [] => some (node, ancestors)
  | node, ancestors, i :: path =>
      match node.children[i]? with
      | some child => descend child (node :: ancestors) path
      | none => none

mutual

/-- `iter`, the nodes of the tree in order. -/
def iter (ancestors : List Node) (addr : List Nat) : Node → List NodePtr
  | ⟨name, properties, children⟩ =>
      ⟨⟨name, properties, children⟩, ancestors, addr⟩ ::
        iterChildren (⟨name, properties, children⟩ :: ancestors) addr 0 children

/-- The nodes below a node, from its child `i` on. -/
def iterChildren (ancestors : List Node) (addr : List Nat) (i : Nat) : List Node → List NodePtr
  | [] => []
  | child :: children =>
      iter ancestors (addr ++ [i]) child ++ iterChildren ancestors addr (i + 1) children

end

mutual

theorem iter_prefix (ancestors : List Node) (addr : List Nat) (node : Node) :
    ∀ ptr ∈ iter ancestors addr node, addr <+: ptr.addr := by
  cases node with
  | mk name properties children =>
      intro ptr hptr
      rw [iter, List.mem_cons] at hptr
      rcases hptr with rfl | hptr
      · exact List.prefix_refl _
      · obtain ⟨j, -, hj⟩ := iterChildren_prefix _ addr 0 children ptr hptr
        exact (List.prefix_append addr [j]).trans hj

theorem iterChildren_prefix (ancestors : List Node) (addr : List Nat) (i : Nat)
    (children : List Node) :
    ∀ ptr ∈ iterChildren ancestors addr i children, ∃ j, i ≤ j ∧ addr ++ [j] <+: ptr.addr := by
  cases children with
  | nil => simp [iterChildren]
  | cons child children =>
      intro ptr hptr
      rw [iterChildren, List.mem_append] at hptr
      rcases hptr with hptr | hptr
      · exact ⟨i, le_rfl, iter_prefix ancestors (addr ++ [i]) child ptr hptr⟩
      · obtain ⟨j, hij, hj⟩ := iterChildren_prefix ancestors addr (i + 1) children ptr hptr
        exact ⟨j, by omega, hj⟩

end

mutual

/-- No two nodes of the tree are in one place. -/
theorem iter_nodup (ancestors : List Node) (addr : List Nat) (node : Node) :
    ((iter ancestors addr node).map NodePtr.addr).Nodup := by
  cases node with
  | mk name properties children =>
      rw [iter, List.map_cons, List.nodup_cons]
      refine ⟨fun hmem => ?_, iterChildren_nodup _ addr 0 children⟩
      obtain ⟨ptr, hptr, heq⟩ := List.mem_map.mp hmem
      obtain ⟨j, -, hj⟩ := iterChildren_prefix _ addr 0 children ptr hptr
      have hlen := hj.length_le
      rw [heq] at hlen
      simp only [List.length_append, List.length_singleton] at hlen
      omega

theorem iterChildren_nodup (ancestors : List Node) (addr : List Nat) (i : Nat)
    (children : List Node) :
    ((iterChildren ancestors addr i children).map NodePtr.addr).Nodup := by
  cases children with
  | nil => simp [iterChildren]
  | cons child children =>
      rw [iterChildren, List.map_append, List.nodup_append]
      refine ⟨iter_nodup _ _ child, iterChildren_nodup _ _ _ children, ?_⟩
      intro a ha b hb hab
      obtain ⟨p, hp, rfl⟩ := List.mem_map.mp ha
      obtain ⟨q, hq, rfl⟩ := List.mem_map.mp hb
      have hpre := iter_prefix _ _ child p hp
      obtain ⟨j, hj, hpre'⟩ := iterChildren_prefix _ _ _ children q hq
      rw [hab] at hpre
      have heq := (List.prefix_of_prefix_length_le hpre hpre' (by simp)).eq_of_length (by simp)
      simp only [List.append_cancel_left_eq, List.cons.injEq, and_true] at heq
      omega

end

end Node

namespace DeviceTree

/-- `node_by_phandle`: the node at the address that the map has for the phandle. -/
def nodeByPhandle (dt : DeviceTree) (phandle : Nat) : Option NodePtr :=
  match dt.phandleMap.lookup phandle with
  | none => none
  | some addr =>
      match dt.root.descend [] addr with
      | none => none
      | some (node, ancestors) => some ⟨node, ancestors, addr⟩

/-- All nodes of the tree. -/
def nodes (dt : DeviceTree) : List NodePtr := dt.root.iter [] []

end DeviceTree

end Kruspix.Kernel.Devicetree
